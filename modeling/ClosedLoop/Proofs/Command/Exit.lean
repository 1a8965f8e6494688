import ClosedLoop.Command.Exit
import ClosedLoop.Proofs.Engine.Finishing

namespace ClosedLoop

/-!
# What the exit status tells

A run that comes to its end always hands its report over and prints it. Whatever keeps a run from
beginning ends the command without a report, and the exit status does not tell the difference: it is
zero in either case.

* `RunOptions.begins_ready` — what comes before a run refuses it or makes it ready;
* `RunOptions.carryOut_ended` — a run that comes to its end prints its report;
* `Exit.ofArguments_run` — **the exit status of a run** for all arguments;
* `Exit.zero_without_report` — a status of zero without a report.
-/

/-! ### The command -/

/-- The command ends before there is a run: it prints nothing, and no report is handed over. -/
structure Execution.IsRefusal (x : Execution) : Prop where
  output : x.output = []
  report : x.report = none
  ending : (∃ cause, x.ending = .failed cause) ∨ ∃ fault, x.ending = .crashed fault

namespace ReadyRun

/-- Nothing has happened in the run. -/
def IsFresh (r : ReadyRun) : Prop :=
  ∃ config profiles, r.simulation = Simulation.start r.behaviour config profiles

/-- The simulation at the end of a run that nobody interrupts, if it comes to its end. -/
def ended? (r : ReadyRun) : Option (Simulation r.behaviour) :=
  r.last?.bind fun t => (r.simulation.sleepUntil? t).bind Simulation.stop?

/-- The run has an end, but more happens before it, or while the run is told to end, than
`Simulation.patience` happenings. Instances that take no time for a round do that: the instant of
their first round never ends. -/
def Outlasts (r : ReadyRun) : Prop :=
  ∃ t, r.last? = some t ∧ (r.simulation.sleepUntil? t).bind Simulation.stop? = none

/-- A run that does not come to its end has none, or outlasts the patience of the simulation. -/
theorem ended?_eq_none_iff {r : ReadyRun} : r.ended? = none ↔ r.last? = none ∨ r.Outlasts := by
  unfold ended? Outlasts
  cases r.last? with
  | none => simp
  | some t => simp

/-- A run lasts for thirty years at most. -/
theorem last?_le {r : ReadyRun} {t : Nat} (h : r.last? = some t) :
    t ≤ Clock.longestWait + Clock.tick := by
  obtain ⟨d, -, rfl⟩ := Option.map_eq_some_iff.mp h
  unfold Clock.wake
  split
  · exact Nat.zero_le _
  · have hceil := Clock.ceilTick_lt (0 + min d.nanos Clock.longestWait)
    have hmin : min d.nanos Clock.longestWait ≤ Clock.longestWait := Nat.min_le_right _ _
    omega

/-- **A run that comes to its end is finished**, and what it shows can be printed in any format. -/
theorem ended?_report {r : ReadyRun} (hfresh : r.IsFresh) {s : Simulation r.behaviour}
    (h : r.ended? = some s) : ∃ report, s.engine.report? = some report ∧
      report.snapshots = s.engine.board ∧
      ∀ format : ReportFormat, ∃ lines, format.lines s.engine.board (some report) = .ok lines := by
  obtain ⟨t, hlast, h⟩ := Option.bind_eq_some_iff.mp h
  obtain ⟨slept, hslept, hstop⟩ := Option.bind_eq_some_iff.mp h
  obtain ⟨config, profiles, hstart⟩ := hfresh
  have hdated : slept.engine.Dated (Clock.longestWait + Clock.tick) := by
    refine (Simulation.proceeds_runUntil hslept).dated (last?_le hlast) ?_
    rw [hstart]
    exact Engine.dated_start config profiles _
  have hrun : slept.engine.isRunning = true := by
    refine Simulation.isRunning_sleepUntil? hslept ?_
    rw [hstart]
    rfl
  -- The owner stops the run, and nothing that comes before can fail it.
  obtain ⟨hdated', clean, elapsed, hfinished⟩ := Simulation.stop?_finished hstop hrun hdated
  refine ⟨s.engine.reportAt clean elapsed, by rw [Engine.report?, hfinished], rfl, fun format => ?_⟩
  exact hdated'.lines_ok (by decide) hfinished format

end ReadyRun

namespace RunOptions

variable {o : RunOptions} {r : ReadyRun} {read : String → Except FileError String}
  {entropy : UInt64}

/-- An endpoint that cannot be set up ends the run as failed or as crashed. -/
theorem behaviour_error {ending : Ending} (h : o.behaviour entropy = .error ending) :
    (∃ cause, ending = .failed cause) ∨ ∃ fault, ending = .crashed fault := by
  unfold behaviour at h
  split at h
  · split at h
    · cases h
    · cases h
      exact .inl ⟨_, rfl⟩
  · split at h
    · cases h
    · cases h
      exact .inl ⟨_, rfl⟩
    · cases h
      exact .inr ⟨_, rfl⟩

/-- What comes before a run refuses it, or makes it ready. -/
def Begins : Except Execution ReadyRun → Prop
  | .error refusal => refusal.IsRefusal
  | .ok r => r.IsFresh

/-- Whether a run is ready or refused, nothing has been printed before. -/
theorem begins_readyWith (o : RunOptions) (profiles : List Profile) (entropy : UInt64)
    (warnings : List String) : Begins (o.readyWith profiles entropy warnings) := by
  unfold readyWith
  -- The checks come one after the other, and each refuses in its own way.
  split
  · exact ⟨rfl, rfl, .inr ⟨_, rfl⟩⟩
  · split
    · exact ⟨rfl, rfl, .inl ⟨_, rfl⟩⟩
    · simp only
      split
      next hbehaviour => exact ⟨rfl, rfl, behaviour_error hbehaviour⟩
      next =>
        split
        · exact ⟨rfl, rfl, .inr ⟨_, rfl⟩⟩
        · exact ⟨_, _, rfl⟩

/-- A run is refused or made ready with the profiles that are read, and prints nothing before. -/
theorem begins_ready (o : RunOptions) (read : String → Except FileError String)
    (entropy : UInt64) : Begins (o.ready read entropy) := by
  unfold ready
  split
  · exact ⟨rfl, rfl, .inl ⟨_, rfl⟩⟩
  · exact begins_readyWith o _ _ _

/-- A run that nobody interrupts and that does not come to its end is told as one without an end,
whether it has none or outlasts the patience of the simulation. -/
theorem carryOut_endless (h : r.ended? = none) :
    o.carryOut r none = .silent .endless r.warnings := by
  have hlast : Traffic.earlier? r.last? none = r.last? := by cases r.last? <;> rfl
  rw [ReadyRun.ended?] at h
  simp only [carryOut, hlast, h]

/-- A run that comes to its end hands its report over and prints it. -/
theorem carryOut_ended (hfresh : r.IsFresh) {s : Simulation r.behaviour} (h : r.ended? = some s) :
    ∃ report, s.engine.report? = some report ∧
      o.carryOut r none = ⟨.completed, o.outputOf s.engine, r.warnings, some report⟩ ∧
      o.format.lines report.snapshots (some report) = .ok (o.outputOf s.engine) := by
  have hlast : Traffic.earlier? r.last? none = r.last? := by cases r.last? <;> rfl
  obtain ⟨report, hreport, hboard, hlines⟩ := ReadyRun.ended?_report hfresh h
  obtain ⟨lines, hlines⟩ := hlines o.format
  refine ⟨report, hreport, ?_, ?_⟩
  · rw [ReadyRun.ended?] at h
    simp only [carryOut, hlast, h, hreport]
    cases hstatus : s.engine.status with
    | failed fault => rw [Engine.report?, hstatus] at hreport; cases hreport
    | _ => rfl
  · rw [hboard, outputOf, hreport, hlines]

end RunOptions

namespace Exit

variable {args : List String} {i : Invocation} {o : RunOptions}

/-- What the exit tells of a run that nobody interrupts. Only the log file and the time to wait at
the end, which are looked at before the command is, can make the status another one than zero. It is
zero if the run comes to its end, and then the report is printed; but it is also zero if there is no
run at all, for whatever reason.

A run that does not come to its end has no status. Either it was given no end, or it outlasts the
patience of the simulation: this tells nothing about a run that takes more happenings than that, not
even that it goes on for ever. -/
def TellsOf (w : Surroundings) (i : Invocation) (o : RunOptions) (e : Exit) : Prop :=
  if i.options.output.all w.canLogTo then
    match gracefulFault? i.options.graceful with
    | some _ => e.status = some 101
    | none =>
      match o.ready w.read w.entropy with
      | .error refusal => e.status = some 0 ∧ e.output = [] ∧ refusal.report = none ∧
          ((∃ cause, refusal.ending = .failed cause ∧ e.fatal = some cause.message) ∨
            ∃ fault, refusal.ending = .crashed fault ∧ e.fatal = none)
      | .ok r =>
        match r.ended? with
        | some s => e.status = some 0 ∧ e.fatal = none ∧ ∃ report,
            s.engine.report? = some report ∧
            o.format.lines report.snapshots (some report) = .ok e.output
        | none => e.status = none ∧ (r.last? = none ∨ r.Outlasts)
  else e.status = some 1

/-- **The exit status of a run that nobody interrupts** tells whether the run is over, but not
whether there was one: its report is printed at the end of every run, and of no other command that
is over with the same status. -/
theorem ofArguments_run (hargs : Invocation.ofArguments args = .ok i) (hrun : i.command = .run o)
    (w : Surroundings) (hfree : w.interrupt = none) : TellsOf w i o (ofArguments args w) := by
  -- The log comes first, then the graceful limit, then the set-up, and then the run itself.
  have he : ofArguments args w = ofInvocation i w := by rw [ofArguments, hargs]
  rw [he, ofInvocation, hrun, TellsOf]
  by_cases hlog : i.options.output.all w.canLogTo
  · rw [if_pos hlog, if_pos hlog]
    cases hgraceful : gracefulFault? i.options.graceful with
    | some fault => rfl
    | none =>
      have hbegins := o.begins_ready w.read w.entropy
      simp only [Command.execute, hfree, RunOptions.execute]
      cases hready : o.ready w.read w.entropy with
      | error refusal =>
        rw [hready] at hbegins
        obtain ⟨houtput, hreport, ⟨cause, hcause⟩ | ⟨fault, hfault⟩⟩ := hbegins
        · simp only [ofExecution, hcause]
          exact ⟨trivial, houtput, hreport, .inl ⟨cause, rfl, rfl⟩⟩
        · simp only [ofExecution, hfault]
          exact ⟨trivial, houtput, hreport, .inr ⟨fault, rfl, trivial⟩⟩
      | ok r =>
        rw [hready] at hbegins
        cases hended : r.ended? with
        | none =>
          simp only [hended, RunOptions.carryOut_endless hended]
          exact ⟨rfl, ReadyRun.ended?_eq_none_iff.mp hended⟩
        | some s =>
          obtain ⟨report, hreport, hcarried, hlines⟩ :=
            RunOptions.carryOut_ended (o := o) hbegins hended
          simp only [hended, hcarried]
          exact ⟨rfl, rfl, report, hreport, hlines⟩
  · rw [if_neg hlog, if_neg hlog]
    rfl

/-- Every file configures one client: two instances with a think time of a hundredth of a second. -/
def getterFiles : Surroundings where
  read _ := .ok <|
    "\x7b\"hbase_client\":\x7b\"client_id\":4,\"client_name\":\"get\",\"num_instances\":2," ++
    "\"rpc_size\":1,\"reply_size\":2,\"rpc_time\":0,\"mem_update_size\":0," ++
    "\"log_append_size\":0,\"namenode_lookup_time\":0,\"datanode_read_size\":0," ++
    "\"short_circuit_ratio\":0,\"think_time\":0.01\x7d\x7d"
  canLogTo _ := true
  entropy := 0
  interrupt := none

/-- A run for a twentieth of a second against an endpoint that answers after a hundredth. -/
def briefRun : List String :=
  ["run", "--duration", "0.05", "--endpoint", "mock", "--base-latency", "0.01",
    "--profiles", "getters.json"]

/-- Two instances issue three requests each, and then the run comes to its end. -/
theorem ofArguments_run_brief : ∃ i o, Invocation.ofArguments briefRun = .ok i ∧
    i.command = .run o ∧ getterFiles.interrupt = none ∧
    TellsOf getterFiles i o (ofArguments briefRun getterFiles) ∧
    (ofArguments briefRun getterFiles).output.tail =
      ["client=4 total=6 ok=6 fail=0 timeout=0 mb=18.000 max=10.00ms windows=1",
        "done elapsed=0.05s snapshots=1 clean_shutdown=true"] := by
  have hread : ∃ i o, Invocation.ofArguments briefRun = .ok i ∧ i.command = .run o :=
    ⟨_, _, rfl, rfl⟩
  have houtput : (ofArguments briefRun getterFiles).output.tail =
      ["client=4 total=6 ok=6 fail=0 timeout=0 mb=18.000 max=10.00ms windows=1",
        "done elapsed=0.05s snapshots=1 clean_shutdown=true"] := by decide +kernel
  obtain ⟨i, o, hargs, hrun⟩ := hread
  exact ⟨i, o, hargs, hrun, rfl, ofArguments_run hargs hrun getterFiles rfl, houtput⟩

/-- Every file holds an empty record, and every file can take the log. -/
def emptyFiles : Surroundings := ⟨fun _ => .ok "\x7b\x7d", fun _ => true, 0, none⟩

/-- A run whose profiles are refused. -/
def refusedRun : List String := ["run", "--short-circuit-ratio", "2"]

/-- A run whose duration is no span of time. -/
def crashedRun : List String := ["run", "--duration", "inf"]

/-- **A status of zero without a report**: a run that is refused and one that crashes have the
status of a run that was carried through. -/
theorem zero_without_report :
    (∃ i, Invocation.ofArguments refusedRun = .ok i ∧
      (i.command.execute emptyFiles.read emptyFiles.entropy none).report.isNone ∧
      (ofArguments refusedRun emptyFiles).status = some 0) ∧
    ∃ i, Invocation.ofArguments crashedRun = .ok i ∧
      (i.command.execute emptyFiles.read emptyFiles.entropy none).report.isNone ∧
      (ofArguments crashedRun emptyFiles).status = some 0 :=
  ⟨⟨_, rfl, by decide +kernel⟩, ⟨_, rfl, by decide +kernel⟩⟩

end Exit

end ClosedLoop
