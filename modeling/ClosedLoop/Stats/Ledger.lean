import ClosedLoop.Stats.Window

/-!
# The ledger of a run

The ledger keeps one account per client: the open window and the totals. Every operation gives the
ledger after it together with its answer, because an operation that ends in a fault may have
changed the ledger already.

* `Ledger.record`, `Ledger.recordCompleted` — take a record in.
* `Ledger.take` — cut the window of one client.
* `Ledger.flush` — cut all windows and close the ledger: later records are refused.
* `Ledger.totals` — the totals of every client.
-/

namespace ClosedLoop

/-- What one client did in the whole run. -/
structure Totals where
  tally : Tally
  transfer : Float
  maxLatency : Span
  /-- How many windows with activity were cut. -/
  windows : Nat

/-- Nothing done. -/
def Totals.zero : Totals := ⟨Tally.zero, 0, Span.zero, 0⟩

/-- The totals with one more record. -/
def Totals.add (t : Totals) (r : Record) : Totals :=
  { t with
    tally := t.tally.count r.outcome
    transfer := t.transfer + (r.request + r.response)
    maxLatency := max t.maxLatency r.latency }

/-- The statistics of one client. -/
structure Account where
  name : String
  window : Window
  totals : Totals

namespace Account

/-- The account of a client whose first window starts now. -/
def openAt (name : String) (now : Span) : Account := ⟨name, Window.openAt now, Totals.zero⟩

/-- One more record: the window first, then the totals, which a fault of the window leaves out. -/
def add (a : Account) (r : Record) : Account × Except Fault Unit :=
  match a.window.add r with
  | (window, .ok ()) => ({ a with window, totals := a.totals.add r }, .ok ())
  | (window, .error fault) => ({ a with window }, .error fault)

/-- The account with a fresh window. -/
def renew (a : Account) (now : Span) : Account :=
  if a.window.isEmpty then { a with window := Window.openAt now }
  else
    { a with
      window := Window.openAt now
      totals := { a.totals with windows := a.totals.windows + 1 } }

/-- Cuts the window; only a window with activity gives a snapshot. -/
def cut (a : Account) (client : ClientId) (now : Span) :
    Account × Except Fault (Option Snapshot) :=
  (a.renew now,
    if a.window.isEmpty then .ok none else (a.window.close client a.name now).map some)

end Account

/-- The accounts in ascending order of the client ids. -/
abbrev Accounts := List (ClientId × Account)

/-- Puts an account at its place, instead of one with the same id. -/
def Accounts.insert (id : ClientId) (a : Account) : Accounts → Accounts
  | [] => [(id, a)]
  | (other, b) :: rest =>
    if id = other then (id, a) :: rest
    else if id < other then (id, a) :: (other, b) :: rest
    else (other, b) :: Accounts.insert id a rest

/-- Replaces the account of a client by what a function makes of it. -/
def Accounts.modify (id : ClientId) (f : Account → Account) : Accounts → Accounts
  | [] => []
  | (other, a) :: rest =>
    if id = other then (other, f a) :: rest else (other, a) :: Accounts.modify id f rest

/-- Cuts the windows in order, up to the first fault. The accounts are kept by ascending ids, so
this is the order of the ids; that of a hash map is arbitrary. The difference shows only after a
fault, in which windows had been cut by then: without one all of them are cut
(`Accounts.cutAll_perm`), and the snapshots are sorted by their ids. -/
def Accounts.cutAll (now : Span) : Accounts → Accounts × Except Fault (List Snapshot)
  | [] => ([], .ok [])
  | (id, a) :: rest =>
    match a.cut id now with
    | (b, .error fault) => ((id, b) :: rest, .error fault)
    | (b, .ok snapshot) =>
      let (others, result) := Accounts.cutAll now rest
      ((id, b) :: others, result.map fun snapshots => snapshot.toList ++ snapshots)

/-- The statistics of a run. -/
structure Ledger where
  accounts : Accounts
  closed : Bool

namespace Ledger

/-- The ledger for a set of profiles; of two with one id the last has the account. -/
def openFor (profiles : List Profile) (now : Span) : Ledger where
  accounts := profiles.foldl (fun as p => as.insert p.id (Account.openAt p.name now)) []
  closed := false

/-- The account of a client. -/
def account? (l : Ledger) (client : ClientId) : Option Account :=
  l.accounts.lookup client

/-- The ledger with the account of a client replaced. -/
def modify (l : Ledger) (client : ClientId) (f : Account → Account) : Ledger :=
  { l with accounts := l.accounts.modify client f }

/-- Takes a record in. A closed ledger and one without the client refuse it: `false`. -/
def record (l : Ledger) (r : Record) : Ledger × Except Fault Bool :=
  if l.closed then (l, .ok false)
  else
    match l.account? r.client with
    | none => (l, .ok false)
    | some a =>
      (l.modify r.client fun b => (b.add r).1, (a.add r).2.map fun _ => true)

/-- Takes a record in as completed not before now, so that it falls into the window that counts
it. -/
def recordCompleted (l : Ledger) (now : Span) (r : Record) : Ledger × Except Fault Bool :=
  l.record (r.completedBy now)

/-- Cuts the window of a client. Only a window with activity gives a snapshot. -/
def take (l : Ledger) (now : Span) (client : ClientId) :
    Ledger × Except Fault (Option Snapshot) :=
  match l.account? client with
  | none => (l, .ok none)
  | some a => (l.modify client fun b => b.renew now, (a.cut client now).2)

/-- Closes the ledger and cuts all windows, in ascending order of the client ids up to the first
fault. Only after a fault does it matter that another order could have been taken. -/
def flush (l : Ledger) (now : Span) : Ledger × Except Fault (List Snapshot) :=
  let (accounts, result) := l.accounts.cutAll now
  ({ accounts, closed := true }, result)

/-- The totals of every client, in ascending order of the ids. -/
def totals (l : Ledger) : List (ClientId × Totals) :=
  l.accounts.map fun (id, a) => (id, a.totals)

end Ledger

end ClosedLoop
