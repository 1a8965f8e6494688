import ClosedLoop.Command.Execution
import ClosedLoop.Text.Logged

/-!
# The program as a process

* `Surroundings` — what the program may ask of the system around it.
* `Exit` — the exit status of the program, what it printed and what it logged.
* `Exit.ofArguments` — how the program ends for a list of arguments.
-/

namespace ClosedLoop

open Command (UsageError)

/-- How the program ends. -/
structure Exit where
  /-- The exit status; there is none if the program goes on until it is ended from outside. -/
  status : Option Nat
  output : List String
  warnings : List String
  /-- The error that the command ended with. -/
  fatal : Option String
  /-- The file that takes the log instead of the error output. -/
  logFile : Option String

/-- What the program may ask of the system around it. -/
structure Surroundings where
  /-- The text of a file, or why it cannot be read. -/
  read : String → Except FileError String
  /-- Can this file take the log? -/
  canLogTo : String → Bool
  /-- What is left to chance. -/
  entropy : UInt64
  /-- When the user interrupts the program, if he does. -/
  interrupt : Option Nat

/-- The name and version of the program. -/
def versionText : String := "simload 0.1.0"

/-- The short explanation of the command line. -/
def helpText : String :=
  "Usage: simload [OPTIONS] <COMMAND>\n\nCommands:\n" ++
  "  run       run the closed-loop workload\n" ++
  "  profiles  print the resolved client profiles as json\n" ++
  "  help      print this message or the help of the given command"

namespace Exit

/-- An end with nothing but a status and what was printed. -/
def plain (status : Nat) (output : List String) : Exit := ⟨some status, output, [], none, none⟩

/-- The end for arguments that are no command. -/
def ofUsageError : UsageError → Exit
  | .displayHelp => plain 0 [helpText]
  | .displayVersion => plain 0 [versionText]
  | _ => plain 2 []

/-- Can the program wait that many seconds for its tasks? -/
def gracefulFault? (seconds : Float) : Option Fault :=
  if 0 < seconds then
    match Span.ofSecondsOrFault seconds with
    | .ok _ => none
    | .error fault => some fault
  else none

/-- The end after a command that was carried out. The command reports its error to the log only,
and its task ends without a word to the program: a command that is over gives status zero. -/
def ofExecution (logFile : Option String) (x : Execution) : Exit :=
  match x.ending with
  | .failed cause => ⟨some 0, x.output, x.warnings, some cause.message, logFile⟩
  | .endless => ⟨none, x.output, x.warnings, none, logFile⟩
  | _ => ⟨some 0, x.output, x.warnings, none, logFile⟩

/-- The end of a command with the global options: a log file must open, and the waiting time at
the end must be a span. -/
def ofInvocation (i : Invocation) (w : Surroundings) : Exit :=
  if i.options.output.all w.canLogTo then
    match gracefulFault? i.options.graceful with
    | some _ => plain 101 []
    | none => ofExecution i.options.output (i.command.execute w.read w.entropy w.interrupt)
  else plain 1 []

/-- The end for a list of arguments. -/
def ofArguments (args : List String) (w : Surroundings) : Exit :=
  match Invocation.ofArguments args with
  | .error e => ofUsageError e
  | .ok i => ofInvocation i w

/-- The error that the command ended with, as it stands in the log. -/
def loggedFatal? (e : Exit) : Option String := e.fatal.map Text.logged

/-- The error that shows on the error output; a log file takes it away from there. -/
def shownFatal? (e : Exit) : Option String := if e.logFile.isSome then none else e.loggedFatal?

end Exit

end ClosedLoop
