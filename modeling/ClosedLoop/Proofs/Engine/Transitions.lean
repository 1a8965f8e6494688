import ClosedLoop.Proofs.Engine.Turns
import Mathlib.Data.List.Chain

namespace ClosedLoop

/-!
# The states that an instance passes through

An instance goes round its states by the allowed moves only, whatever its calls return and wherever
it is told to end. It can be told so at two places: while a request is in flight, which is then
abandoned, and while the instance rests.

* `Lifecycle.Walk` — states that follow each other by allowed moves, `Lifecycle.Walk.enter`;
* `Instance.Takes`, `Instance.turn?_eq_some_iff` — all that an instance can do in a turn;
* `Instance.Takes.walk`, `Instance.Takes.recorded` — **a turn makes allowed moves, and it balances
  the visits of `Recording` with the records that are handed over**;
* `Instance.turns?_walk`, `Instance.turns?_recorded` — so does every sequence of turns;
* `Instance.course` — the turns of an instance through given calls until it is told to end, and
  `Instance.turns?_course`: they are all possible;
* `Instance.transitions_legal` — **an instance only makes legal transitions**;
* `Engine.run?_walk` — the same of every instance in every run.
-/

/-! ### Walks -/

namespace Lifecycle

/-- These states follow each other by allowed moves up to the last one, and only the last one can be
the end. -/
structure Walk (path : List Lifecycle) (last : Lifecycle) : Prop where
  moves : path.IsChain fun s next => s.canMoveTo next = true
  ends : path.getLast? = some last
  notStopped : stopped ∉ path.dropLast

namespace Walk

variable {path : List Lifecycle} {last s : Lifecycle}

/-- A single state has been reached without any move. -/
theorem single (s : Lifecycle) : Walk [s] s := ⟨List.isChain_singleton s, rfl, List.not_mem_nil⟩

/-- A walk goes on by an allowed move. -/
theorem enter (h : Walk path last) (hmove : last.canMoveTo s = true) : Walk (path ++ [s]) s where
  moves := by
    apply h.moves.append (List.isChain_singleton s)
    intro before hbefore next hnext
    rw [h.ends, Option.mem_some_iff] at hbefore
    rw [List.head?_cons, Option.mem_some_iff] at hnext
    rw [← hbefore, ← hnext]
    exact hmove
  ends := List.getLast?_concat
  notStopped := by
    rw [List.dropLast_concat]
    -- The state that is left is not the end either: nothing leaves the end.
    intro hmem
    obtain ⟨before, rfl⟩ := List.getLast?_eq_some_iff.mp h.ends
    rcases List.mem_append.mp hmem with hbefore | hlast
    · apply h.notStopped
      rwa [List.dropLast_concat]
    · rw [← List.mem_singleton.mp hlast, stopped_canMoveTo] at hmove
      cases hmove

/-- The end is entered once if the walk is there, and else not at all. -/
theorem count_stopped (h : Walk path last) :
    path.count stopped = if last = stopped then 1 else 0 := by
  obtain ⟨before, rfl⟩ := List.getLast?_eq_some_iff.mp h.ends
  have hbefore : before.count stopped = 0 := by
    have hnot := h.notStopped
    rw [List.dropLast_concat] at hnot
    exact List.count_eq_zero.mpr hnot
  rw [List.count_append, hbefore, Nat.zero_add, List.count_singleton]
  simp only [beq_iff_eq]

end Walk

end Lifecycle

open Lifecycle (Walk)

/-! ### One turn -/

/-- How many records are still to be handed over: one while the instance records. -/
def Phase.owed : Phase → Nat
  | recording _ => 1
  | _ => 0

namespace Instance

/-- What an instance can do in a turn, with the record it hands over. -/
inductive Takes (i : Instance) : Turn → Instance → Option Record → Prop where
  | issue {now wake : Nat} {cost : Cost} {words : Xoshiro} (waits : i.phase.wake? = some wake)
      (due : wake ≤ now) (drawn : i.profile.drawCost i.words = (cost, words)) :
      Takes i (.issue now) { i with words, phase := .awaiting now cost } none
  | receive (now : Nat) (reply : Reply) {issued : Nat} {cost : Cost}
      (awaits : i.phase = .awaiting issued cost) :
      Takes i (.receive now reply)
        { i with phase := .recording (i.recordOf issued now cost reply) } none
  | handOver (now : Nat) {record : Record} (holds : i.phase = .recording record) :
      Takes i (.handOver now)
        { i with phase := .resting (Clock.wake now i.profile.thinkPeriod) } (some record)
  | abandon {issued : Nat} {cost : Cost} (awaits : i.phase = .awaiting issued cost) :
      Takes i .quit { i with phase := .stopped } none
  | leave {wake : Nat} (rests : i.phase = .resting wake) :
      Takes i .quit { i with phase := .stopped } none

variable {i next last : Instance} {t : Turn} {record : Option Record}

/-- The turns of an instance are exactly these. -/
theorem turn?_eq_some_iff : i.turn? t = some (next, record) ↔ i.Takes t next record := by
  -- One case for each turn. The moves of an instance have been named already.
  constructor
  · intro h
    cases t with
    | issue now =>
      obtain ⟨⟨after, cost⟩, hissue, heq⟩ := Option.map_eq_some_iff.mp h
      cases heq
      cases moves_of_issue? (i := 0) hissue with
      | issues waits due drawn => exact .issue waits due drawn
    | receive now reply =>
      obtain ⟨after, hreceive, heq⟩ := Option.map_eq_some_iff.mp h
      cases heq
      cases moves_of_receive? (i := 0) hreceive with
      | returns awaits => exact .receive now reply awaits
    | handOver now =>
      obtain ⟨⟨after, held⟩, hhands, heq⟩ := Option.map_eq_some_iff.mp h
      cases heq
      obtain ⟨holds, rfl⟩ := handOver?_eq_some hhands
      exact .handOver now holds
    | quit =>
      obtain ⟨after, hquit, heq⟩ := Option.map_eq_some_iff.mp h
      cases heq
      obtain ⟨⟨issued, cost, awaits⟩ | ⟨wake, rests⟩, rfl⟩ := quit?_eq_some hquit
      · exact .abandon awaits
      · exact .leave rests
  · intro h
    cases h with
    | @issue now wake cost words waits due drawn =>
      have hcan : i.canIssue now = true := canIssue_iff.mpr ⟨wake, waits, due⟩
      simp only [turn?, issue?, hcan, if_true, drawn, Option.map_some]
    | receive _ _ awaits => simp only [turn?, receive?, awaits, Option.map_some]
    | handOver _ holds => simp only [turn?, handOver?, holds, Option.map_some]
    | abandon awaits => simp only [turn?, quit?, awaits, Option.map_some]
    | leave rests => simp only [turn?, quit?, rests, Option.map_some]

/-- An instance that waits to issue is idle. -/
theorem lifecycle_of_wake? {phase : Phase} {wake : Nat} (h : phase.wake? = some wake) :
    phase.lifecycle = .idle ∧ phase.owed = 0 := by
  cases phase with
  | fresh | resting _ => exact ⟨rfl, rfl⟩
  | _ => cases h

/-- **A turn makes allowed moves**, and ends where the instance is then. -/
theorem Takes.walk (h : i.Takes t next record) {path : List Lifecycle}
    (hwalk : Walk path i.phase.lifecycle) : Walk (path ++ t.visits) next.phase.lifecycle := by
  -- A request passes two states, and every other turn one.
  cases h with
  | issue waits =>
    rw [(lifecycle_of_wake? waits).1] at hwalk
    have hissuing : Walk (path ++ [.issuing]) .issuing := hwalk.enter rfl
    have hawaiting := hissuing.enter (s := .awaitingCompletion) rfl
    rwa [List.append_assoc] at hawaiting
  | receive _ _ awaits =>
    rw [awaits] at hwalk
    exact hwalk.enter rfl
  | handOver _ holds =>
    rw [holds] at hwalk
    exact hwalk.enter rfl
  | abandon awaits =>
    rw [awaits] at hwalk
    exact hwalk.enter rfl
  | leave rests =>
    rw [rests] at hwalk
    exact hwalk.enter rfl

/-- **A turn hands over the record of a visit of `Recording`, or leaves it to be handed over.** -/
theorem Takes.recorded (h : i.Takes t next record) :
    i.phase.owed + t.visits.count .recording = record.toList.length + next.phase.owed := by
  -- Only the return of a call makes a record to be handed over.
  cases h with
  | issue waits =>
    rw [(lifecycle_of_wake? waits).2]
    rfl
  | receive _ _ awaits | abandon awaits =>
    rw [awaits]
    rfl
  | handOver _ holds =>
    rw [holds]
    rfl
  | leave rests =>
    rw [rests]
    rfl

/-- Nothing follows the end. -/
theorem Takes.notStopped (h : i.Takes t next record) : i.phase ≠ .stopped := by
  intro hstopped
  cases h with
  | issue waits =>
    rw [hstopped] at waits
    cases waits
  | receive _ _ awaits | abandon awaits =>
    rw [hstopped] at awaits
    cases awaits
  | handOver _ holds =>
    rw [hstopped] at holds
    cases holds
  | leave rests =>
    rw [hstopped] at rests
    cases rests

/-! ### All turns -/

variable {ts more : List Turn} {records : List Record}

/-- The states that an instance passes through in some turns, from the one it is in. -/
def path (i : Instance) (ts : List Turn) : List Lifecycle :=
  i.phase.lifecycle :: ts.flatMap Turn.visits

/-- The first turn and the others. -/
theorem turns?_cons_iff : i.turns? (t :: ts) = some (last, records) ↔
    ∃ next record later, i.Takes t next record ∧ next.turns? ts = some (last, later) ∧
      records = record.toList ++ later := by
  simp only [turns?, bind, Option.bind_eq_some_iff, ← turn?_eq_some_iff, Prod.exists, pure,
    Option.some.injEq, Prod.mk.injEq]
  constructor
  · rintro ⟨next, record, hturn, last', later, hrest, rfl, rfl⟩
    exact ⟨next, record, later, hturn, hrest, rfl⟩
  · rintro ⟨next, record, later, hturn, hrest, rfl⟩
    exact ⟨next, record, hturn, last, later, hrest, rfl, rfl⟩

/-- A turn in front of others. -/
theorem turns?_cons {later : List Record} (h : i.Takes t next record)
    (hrest : next.turns? ts = some (last, later)) :
    i.turns? (t :: ts) = some (last, record.toList ++ later) :=
  turns?_cons_iff.mpr ⟨next, record, later, h, hrest, rfl⟩

/-- Turns and later turns. -/
theorem turns?_append_iff : i.turns? (ts ++ more) = some (last, records) ↔
    ∃ mid before after, i.turns? ts = some (mid, before) ∧ mid.turns? more = some (last, after) ∧
      records = before ++ after := by
  induction ts generalizing i records with
  | nil =>
    rw [List.nil_append]
    constructor
    · intro h
      exact ⟨i, [], records, rfl, h, rfl⟩
    · rintro ⟨mid, before, after, hnone, hmore, rfl⟩
      cases hnone
      exact hmore
  | cons t rest ih =>
    simp only [List.cons_append, turns?_cons_iff, ih]
    constructor
    · rintro ⟨next, record, _, hturn, ⟨mid, before, after, hrest, hmore, rfl⟩, rfl⟩
      exact ⟨mid, _, after, ⟨next, record, before, hturn, hrest, rfl⟩, hmore,
        (List.append_assoc _ _ _).symm⟩
    -- The record of the first turn comes before all others on both sides.
    · rintro ⟨mid, _, after, ⟨next, record, before, hturn, hrest, rfl⟩, hmore, rfl⟩
      exact ⟨next, record, _, hturn, ⟨mid, before, after, hrest, hmore, rfl⟩,
        List.append_assoc _ _ _⟩

/-- However many turns an instance takes, it makes allowed moves only. -/
theorem turns?_walk (h : i.turns? ts = some (last, records)) {path : List Lifecycle}
    (hwalk : Walk path i.phase.lifecycle) :
    Walk (path ++ ts.flatMap Turn.visits) last.phase.lifecycle := by
  -- Any walk may lie before the turns, so that the first of them can be added to it.
  induction ts generalizing i path records with
  | nil =>
    cases h
    rwa [List.flatMap_nil, List.append_nil]
  | cons t rest ih =>
    obtain ⟨next, record, later, htakes, hrest, -⟩ := turns?_cons_iff.mp h
    rw [List.flatMap_cons, ← List.append_assoc]
    exact ih hrest (htakes.walk hwalk)

/-- However many turns an instance takes, it hands over one record for each visit of `Recording`,
unless it is still there. -/
theorem turns?_recorded (h : i.turns? ts = some (last, records)) :
    i.phase.owed + (ts.flatMap Turn.visits).count .recording =
      records.length + last.phase.owed := by
  induction ts generalizing i records with
  | nil =>
    cases h
    exact Nat.add_comm _ _
  | cons t rest ih =>
    obtain ⟨next, record, later, htakes, hrest, rfl⟩ := turns?_cons_iff.mp h
    have hturn := htakes.recorded
    have hlater := ih hrest
    rw [List.flatMap_cons, List.count_append, List.length_append]
    omega

/-- An instance that was told to end takes no turn after that one, and has handed over only the
records of the turns before it. -/
theorem turns?_quit (h : i.turns? (ts ++ .quit :: more) = some (last, records)) :
    more = [] ∧ last.phase = .stopped ∧ ∃ mid, i.turns? ts = some (mid, records) ∧
      (mid.phase.lifecycle = .awaitingCompletion ∨ mid.phase.lifecycle = .idle) := by
  obtain ⟨mid, before, after, hbefore, hquit, rfl⟩ := turns?_append_iff.mp h
  obtain ⟨next, record, later, htakes, hmore, rfl⟩ := turns?_cons_iff.mp hquit
  -- Only an instance that waits, for an answer or for its timer, can be told to end.
  have hends : next.phase = .stopped ∧ record = none ∧
      (mid.phase.lifecycle = .awaitingCompletion ∨ mid.phase.lifecycle = .idle) := by
    cases htakes with
    | abandon awaits => exact ⟨rfl, rfl, .inl (by rw [awaits]; rfl)⟩
    | leave rests => exact ⟨rfl, rfl, .inr (by rw [rests]; rfl)⟩
  obtain ⟨hstopped, rfl, hplace⟩ := hends
  cases more with
  | nil =>
    cases hmore
    exact ⟨rfl, hstopped, mid, by rwa [Option.toList_none, List.nil_append, List.append_nil],
      hplace⟩
  | cons t rest =>
    -- Another turn would be one of an instance that has stopped.
    obtain ⟨_, _, _, hnext, -⟩ := turns?_cons_iff.mp hmore
    exact absurd hstopped hnext.notStopped

end Instance

/-! ### Calls and the end -/

/-- What happens to one request: how long after it may be issued it is, how long the call takes, and
what it returns. -/
structure Lap where
  delay : Nat
  latency : Nat
  reply : Reply

namespace Lap

/-- When the call returns whose request may be issued at `wake`. -/
def returned (lap : Lap) (wake : Nat) : Nat := wake + lap.delay + lap.latency

/-- The turns of one round. -/
def turns (lap : Lap) (wake : Nat) : List Turn :=
  [.issue (wake + lap.delay), .receive (lap.returned wake) lap.reply, .handOver (lap.returned wake)]

end Lap

/-- Where an instance is told to end: while a request is in flight that was issued so long after it
might have been, or while the instance rests. -/
inductive Interruption where
  | inFlight (delay : Nat)
  | resting
  deriving DecidableEq

/-- The last turns of an instance that may issue its next request at `wake`. -/
def Interruption.turns (wake : Nat) : Interruption → List Turn
  | inFlight delay => [.issue (wake + delay), .quit]
  | resting => [.quit]

namespace Instance

variable {i : Instance} {wake : Nat}

/-- The turns of an instance that may issue its next request at `wake`: through all laps, up to the
interruption. -/
def course (think : Span) (stop : Interruption) (wake : Nat) : List Lap → List Turn
  | [] => stop.turns wake
  | lap :: rest => lap.turns wake ++ course think stop (Clock.wake (lap.returned wake) think) rest

/-- A round is always possible, and leaves the instance at rest. -/
theorem turns?_lap (h : i.phase.wake? = some wake) (lap : Lap) :
    ∃ next record, i.turns? (lap.turns wake) = some (next, [record]) ∧
      next.profile = i.profile ∧
        next.phase = .resting (Clock.wake (lap.returned wake) i.profile.thinkPeriod) ∧
          record.outcome = lap.reply.outcome := by
  let issued := wake + lap.delay
  let returned := lap.returned wake
  -- The round in three steps, each from the phase that the step before it has left.
  obtain ⟨awaiting, hissue, hsame, cost, hawaits⟩ :
      ∃ next, i.Takes (.issue issued) next none ∧ next.profile = i.profile ∧
        ∃ cost, next.phase = .awaiting issued cost :=
    ⟨_, .issue h (Nat.le_add_right _ _) rfl, rfl, _, rfl⟩
  obtain ⟨recording, hreceive, hsame', record, hholds, houtcome⟩ :
      ∃ next, awaiting.Takes (.receive returned lap.reply) next none ∧
        next.profile = awaiting.profile ∧
          ∃ record, next.phase = .recording record ∧ record.outcome = lap.reply.outcome :=
    ⟨_, .receive returned lap.reply hawaits, rfl, _, rfl, rfl⟩
  have hhands := Takes.handOver returned hholds
  refine ⟨_, record, turns?_cons hissue (turns?_cons hreceive (turns?_cons hhands rfl)),
    hsame'.trans hsame, ?_, houtcome⟩
  rw [hsame', hsame]

/-- An instance takes all turns of a course. It ends, and its records are those of the laps. Only an
instance that has not begun cannot be told to end where it is. -/
theorem turns?_course {stop : Interruption} {laps : List Lap} (h : i.phase.wake? = some wake)
    (hbegun : stop = .resting → laps = [] → i.phase = .resting wake) :
    ∃ last records, i.turns? (course i.profile.thinkPeriod stop wake laps) = some (last, records) ∧
      last.phase = .stopped ∧
        records.map Record.outcome = laps.map fun lap => lap.reply.outcome := by
  induction laps generalizing i wake with
  | nil =>
    cases stop with
    | inFlight delay =>
      obtain ⟨awaiting, hissue, cost, hawaits⟩ :
          ∃ next, i.Takes (.issue (wake + delay)) next none ∧
            ∃ cost, next.phase = .awaiting (wake + delay) cost :=
        ⟨_, .issue h (Nat.le_add_right _ _) rfl, _, rfl⟩
      have hquit := Takes.abandon hawaits
      exact ⟨_, _, turns?_cons hissue (turns?_cons hquit rfl), rfl, rfl⟩
    | resting =>
      have hquit := Takes.leave (hbegun rfl rfl)
      exact ⟨_, _, turns?_cons hquit rfl, rfl, rfl⟩
  | cons lap rest ih =>
    obtain ⟨next, record, hlap, hprofile, hrests, houtcome⟩ := turns?_lap h lap
    -- After a round the instance rests, and can be told to end there.
    obtain ⟨last, records, hrest, hstopped, hrecords⟩ :=
      ih (congrArg Phase.wake? hrests) fun _ _ => hrests
    rw [hprofile] at hrest
    refine ⟨last, record :: records, turns?_append_iff.mpr ⟨next, [record], records, hlap, hrest,
      rfl⟩, hstopped, ?_⟩
    rw [List.map_cons, List.map_cons, houtcome, hrecords]

/-- **An instance only makes legal transitions.** Whatever turns it takes from its beginning, all
moves between the states on its path are allowed, nothing leaves `Stopped`, and each visit of
`Recording` has handed over one record, unless the instance is still there. Once it is told to end,
while a request is in flight or while it rests, it takes no turn and hands over no record any more.
And however long its calls take and whatever they return, it can be told to end at each of these
places: then it enters `Stopped` once, with one record for every call that has returned. -/
theorem transitions_legal (i : Instance) (h : i.phase = .fresh) :
    (∀ ts last records, i.turns? ts = some (last, records) →
      Walk (i.path ts) last.phase.lifecycle ∧
        (i.path ts).count .recording = records.length + last.phase.owed ∧
          ∀ before after, ts = before ++ .quit :: after →
            after = [] ∧ last.phase = .stopped ∧ ∃ mid, i.turns? before = some (mid, records) ∧
              (mid.phase.lifecycle = .awaitingCompletion ∨ mid.phase.lifecycle = .idle)) ∧
    (∀ (stop : Interruption) (laps : List Lap), (stop = .resting → laps ≠ []) →
      ∃ ts last records, ts = course i.profile.thinkPeriod stop 0 laps ∧
        i.turns? ts = some (last, records) ∧ last.phase = .stopped ∧
          (i.path ts).count .stopped = 1 ∧
            records.map Record.outcome = laps.map fun lap => lap.reply.outcome) := by
  have hidle : i.phase.lifecycle = .idle := by
    rw [h]
    rfl
  have hwalk {ts : List Turn} {last : Instance} {records : List Record}
      (hturns : i.turns? ts = some (last, records)) : Walk (i.path ts) last.phase.lifecycle :=
    turns?_walk hturns (Walk.single _)
  constructor
  · intro ts last records hturns
    refine ⟨hwalk hturns, ?_, ?_⟩
    -- At the start no record is owed, and the state there is none of recording.
    · have hnone : i.phase.owed = 0 := by
        rw [h]
        rfl
      have hrecorded := turns?_recorded hturns
      rw [hnone, Nat.zero_add] at hrecorded
      rw [path, hidle, List.count_cons_of_ne (by decide), hrecorded]
    · rintro before after rfl
      exact turns?_quit hturns
  · intro stop laps hbegun
    have hwake : i.phase.wake? = some 0 := by
      rw [h]
      rfl
    obtain ⟨last, records, hturns, hstopped, hrecords⟩ :=
      turns?_course hwake fun hrests hnone => absurd hnone (hbegun hrests)
    refine ⟨_, last, records, rfl, hturns, hstopped, ?_, hrecords⟩
    -- The path ends in the stopped state, so it has entered it once.
    rw [(hwalk hturns).count_stopped, hstopped]
    rfl

/-- An instance that has not begun. -/
def loner : Instance := ⟨.blank 1 "loner", 0, Xoshiro.ofSeed 1, .fresh⟩

/-- A call returns and one times out; the third is abandoned. -/
theorem transitions_legal_abandoned :
    loner.phase = .fresh ∧ ∃ ts last records, loner.turns? ts = some (last, records) ∧
      last.phase = .stopped ∧ records.map Record.outcome = [.success, .timeout] ∧
        loner.path ts = [.idle, .issuing, .awaitingCompletion, .recording, .idle, .issuing,
          .awaitingCompletion, .recording, .idle, .issuing, .awaitingCompletion, .stopped] := by
  obtain ⟨ts, last, records, rfl, hturns, hstopped, -, hrecords⟩ :=
    (transitions_legal loner rfl).2 (.inFlight 0)
      [⟨0, 5, .ok ⟨none⟩⟩, ⟨3, 0, .error (.timeout "late")⟩] (by decide)
  exact ⟨rfl, _, last, records, hturns, hstopped, hrecords, rfl⟩

end Instance

/-! ### Runs of the engine -/

/-- The states that an event tells of. A record that could not be counted leaves the instance where
it is. -/
def Event.visits : Event → List Lifecycle
  | .issued _ _ _ => [.issuing, .awaitingCompletion]
  | .returned _ _ _ => [.recording]
  | .recorded _ _ (.ok _) => [.idle]
  | .quit _ _ => [.stopped]
  | _ => []

/-- Was a record handed over? -/
def Event.isRecorded : Event → Bool
  | .recorded _ _ _ => true
  | _ => false

namespace Instance

variable {i now : Nat} {inst next : Instance} {new : List Event}

/-- The events of a move are allowed moves between the states. -/
theorem Moves.walk (h : inst.Moves i now next new) {path : List Lifecycle}
    (hwalk : Walk path inst.phase.lifecycle) :
    Walk (path ++ new.flatMap Event.visits) next.phase.lifecycle := by
  cases h with
  | stays => rwa [List.flatMap_nil, List.append_nil]
  | issues waits due drawn => exact (Takes.issue waits due drawn).walk hwalk
  | @returns _ _ answer awaits => exact (Takes.receive now answer awaits).walk hwalk
  | records holds => exact (Takes.handOver now holds).walk hwalk
  | abandons awaits => exact (Takes.abandon awaits).walk hwalk
  | ends rests => exact (Takes.leave rests).walk hwalk
  | crashes holds =>
    -- The instance is left where it is.
    rw [holds] at hwalk
    exact (List.append_nil path).symm ▸ hwalk

/-- Moves hand over the records that are owed. -/
theorem Moves.recorded (h : inst.Moves i now next new) :
    inst.phase.owed + (new.flatMap Event.visits).count .recording =
      new.countP Event.isRecorded + next.phase.owed := by
  cases h with
  | stays => exact Nat.add_comm _ _
  | issues waits due drawn => exact (Takes.issue waits due drawn).recorded
  | @returns _ _ answer awaits => exact (Takes.receive now answer awaits).recorded
  | records holds => exact (Takes.handOver now holds).recorded
  | abandons awaits => exact (Takes.abandon awaits).recorded
  | ends rests => exact (Takes.leave rests).recorded
  | crashes holds =>
    rw [holds]
    rfl

end Instance

namespace Engine

/-- **In every run every instance only makes legal transitions**, and hands over one record for each
visit of `Recording`, also if that record cannot be counted. -/
theorem run?_walk {config : EngineConfig} {profiles : List Profile} {as : List Action}
    {e' : Engine} {shown : List Event} (h : (start config profiles).run? as = some (e', shown))
    {i : Nat} {inst : Instance} (found : e'.instances[i]? = some inst) :
    Walk (.idle :: (eventsOf i shown).flatMap Event.visits) inst.phase.lifecycle ∧
      ((eventsOf i shown).flatMap Event.visits).count .recording =
        (eventsOf i shown).countP Event.isRecorded + inst.phase.owed := by
  refine run?_instance_of_start (motive := fun inst told _ =>
    Walk (.idle :: told.flatMap Event.visits) inst.phase.lifecycle ∧
      (told.flatMap Event.visits).count .recording =
        told.countP Event.isRecorded + inst.phase.owed) h found ?_ ?_
  · intro first hfresh
    -- A new instance is idle and owes nothing.
    rw [hfresh]
    exact ⟨Walk.single _, rfl⟩
  · rintro mid next told new now later ⟨hwalk, hrecorded⟩ hmoves -
    have hmoved := hmoves.recorded
    rw [List.flatMap_append, List.count_append, List.countP_append]
    exact ⟨hmoves.walk hwalk, by omega⟩

end Engine

end ClosedLoop
