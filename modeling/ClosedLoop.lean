import ClosedLoop.Main
import ClosedLoop.Service.Arrivals
import ClosedLoop.Stats.Replay
import ClosedLoop.Proofs.Stats.Accounts
import ClosedLoop.Proofs.Stats.Journal
import ClosedLoop.Proofs.Stats.Books
import ClosedLoop.Proofs.Stats.Conservation
import ClosedLoop.Proofs.Engine.Steps
import ClosedLoop.Proofs.Engine.Turns
import ClosedLoop.Proofs.Engine.Clients
import ClosedLoop.Proofs.Engine.Rounds
import ClosedLoop.Proofs.Binary
import ClosedLoop.Proofs.Stats.Mean
import ClosedLoop.Proofs.Stats.Windows
import ClosedLoop.Proofs.Engine.Bookkeeping
import ClosedLoop.Proofs.Engine.Ending
import ClosedLoop.Proofs.Engine.Delivery
import ClosedLoop.Proofs.Engine.Reporting
import ClosedLoop.Proofs.Engine.Cuts
import ClosedLoop.Proofs.Engine.Outcomes
import ClosedLoop.Proofs.Engine.Settlement
import ClosedLoop.Proofs.Engine.Simulated
import ClosedLoop.Proofs.Profile.Decoders
import ClosedLoop.Proofs.Stats.Tiling
import ClosedLoop.Proofs.Service.Courses
import ClosedLoop.Proofs.Service.Places
import ClosedLoop.Proofs.Command.Exit
import ClosedLoop.Proofs.Engine.Draws
import ClosedLoop.Proofs.Stats.Closing
import ClosedLoop.Proofs.Stats.Apart
import ClosedLoop.Proofs.Stats.Orderless
import ClosedLoop.Proofs.Stats.Order
import ClosedLoop.Proofs.Engine.Emissions
import ClosedLoop.Proofs.Engine.Abandonment
import ClosedLoop.Proofs.Engine.Alike
import ClosedLoop.Proofs.Engine.Bystanders
import ClosedLoop.Proofs.Stats.Percentiles
import ClosedLoop.Proofs.Engine.Load
import ClosedLoop.Proofs.Engine.Serving
import ClosedLoop.Proofs.Service.Schedules
import ClosedLoop.Proofs.Service.ServiceTime
import ClosedLoop.Proofs.Stats.Overcount
import ClosedLoop.Proofs.Service.Charges
import ClosedLoop.Proofs.Profile.Conditions
import ClosedLoop.Proofs.Profile.FirstCause
import ClosedLoop.Proofs.Profile.Sections
import ClosedLoop.Proofs.Cost
import ClosedLoop.Proofs.Setup.Overrides
import ClosedLoop.Proofs.Decimal.Digits
import ClosedLoop.Proofs.Decimal.Numerals
import ClosedLoop.Proofs.Decimal.Range
import ClosedLoop.Proofs.Json.Numbers
import ClosedLoop.Proofs.Json.Strings
import ClosedLoop.Proofs.Json.Lexing
import ClosedLoop.Proofs.Json.Reading
import ClosedLoop.Proofs.Json.RoundTrip
import ClosedLoop.Proofs.Json.Characters
import ClosedLoop.Proofs.Report.JsonLines
import ClosedLoop.Proofs.Engine.Printed
import ClosedLoop.Proofs.Profile.RoundTrip
import ClosedLoop.Proofs.Nanoseconds
import ClosedLoop.Proofs.ThroughSeconds
import ClosedLoop.Proofs.Alignment
import ClosedLoop.Proofs.Engine.Transitions
