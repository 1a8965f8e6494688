import ClosedLoop.Command.Exit

/-!
# The program

The outer layer of the command line: it reads the profiles, opens the log, lets a run keep pace
with the clock on the wall, and prints. What is printed and how the program ends is decided by
`Exit.ofArguments`.
-/

namespace ClosedLoop.Program

/-- The number of a system error, which comes with either sign. -/
def errorNumber (code : UInt32) : UInt32 := min code (-code)

/-- What the system says about a file that it cannot read. -/
def fileError : IO.Error → FileError
  | .noFileOrDirectory _ _ _ => .notFound
  | .permissionDenied _ _ _ => .denied
  | .inappropriateType _ code _ =>
    if errorNumber code = 20 then .notADirectory else .isADirectory
  | .invalidArgument _ code _ =>
    if errorNumber code = 36 then .nameTooLong else .notAName
  | .userError _ => .notText
  | e => .other (toString e)

/-- The text of a file, or why it cannot be read. -/
def contents (path : String) : IO (Except FileError String) := do
  try
    return .ok (← IO.FS.readFile path)
  catch e =>
    return .error (fileError e)

/-- Can this file take the log? -/
def opens (path : String) : IO Bool := do
  try
    let _ ← IO.FS.Handle.mk path .append
    return true
  catch _ =>
    return false

/-- The answers to all that a command may ask of the system around it. -/
def surroundings (invocation : Option Invocation) : IO Surroundings := do
  let logs ← (invocation.bind (·.options.output)).mapM opens
  let source := invocation.bind (·.command.source.path)
  let text ← source.mapM contents
  return {
    read := fun path => if source = some path then text.getD (.error .notFound)
      else .error .notFound
    canLogTo := fun _ => logs.getD true
    entropy := UInt64.ofNat (← IO.rand 0 (UInt64.size - 1))
    interrupt := none }

/-- Writes a line to the log. -/
def log (file : Option String) (line : String) : IO Unit := do
  match file with
  | some path => (← IO.FS.Handle.mk path .append).putStrLn line
  | none => IO.eprintln line

/-- Lets a run keep pace with the clock on the wall, which showed `begun` at its start, and prints
each line when it is due. Gives the number of lines printed when the time of the run is over. -/
partial def keepPace (o : RunOptions) {b : Behaviour} (s : Simulation b) (last : Option Nat)
    (begun printed : Nat) : IO Nat := do
  let now := (← IO.monoNanosNow) - begun
  match s.sleepUntil? (last.elim now (min now)) with
  | none => return printed
  | some s =>
    let lines := o.outputOf s.engine
    (lines.drop printed).forM IO.println
    if last.any (· ≤ now) then return lines.length
    IO.sleep 20
    keepPace o s last begun lines.length

/-- Lets the run of a command keep pace with the clock on the wall, if it is one that starts. Gives
the number of lines printed. -/
def follow (command : Command) (w : Surroundings) : IO Nat := do
  match command with
  | .profiles _ => return 0
  | .run o =>
    match o.ready w.read w.entropy with
    | .error _ => return 0
    | .ok r => keepPace o r.simulation r.last? (← IO.monoNanosNow) 0

end ClosedLoop.Program

open ClosedLoop in
/-- The program: its arguments in, its exit status out. -/
def main (args : List String) : IO UInt32 := do
  let invocation := (Invocation.ofArguments args).toOption
  let w ← Program.surroundings invocation
  let exit := Exit.ofArguments args w
  exit.warnings.forM (Program.log exit.logFile)
  let printed ←
    match invocation, exit.status with
    | some i, some 0 | some i, none => Program.follow i.command w
    | _, _ => pure 0
  (exit.output.drop printed).forM IO.println
  exit.loggedFatal?.forM fun e => Program.log exit.logFile s!"fatal err received: {e}; abort"
  return UInt32.ofNat (exit.status.getD 0)
