import ClosedLoop.Proofs.Clock
import ClosedLoop.Proofs.Engine.Grid
import ClosedLoop.Proofs.Engine.Population

namespace ClosedLoop

/-!
# The pace of instances whose calls all take the same time

Where every call goes well after the same delay, all instances go round in step with the clock: the
request number `j` of an instance is issued at `j` rounds from the start, and its call returns when
the delay is over.

* `Engine.Serves` — an action suits an endpoint whose calls all go well after the same delay;
* `Phase.Paced` — what an instance does at an instant, after so many rounds;
* `Engine.run?_paced` — **all instances keep the pace** until the ledger is flushed.
-/

/-! ### Rounds in step with the clock -/

namespace Clock

/-- Rounds that consist of two pauses take whole milliseconds. -/
theorem tick_dvd_rounds (done : Nat) (d rest : Span) : tick ∣ done * (pause d + pause rest) :=
  Dvd.dvd.mul_left (Nat.dvd_add (tick_dvd_pause d) (tick_dvd_pause rest)) done

end Clock

namespace Engine

/-! ### Calls that all take the same time -/

/-- An action suits an endpoint whose calls all go well after the same delay: no call returns
    earlier, and while the run goes on time does not pass beyond the return of a call. Apart from
    that it passes when it may. -/
structure Serves (delay : Span) (e : Engine) (a : Action) : Prop where
  timely : e.Timely a
  returns : ∀ i reply, a = .reply i reply → reply.outcome = .success ∧
    ∀ inst issued cost, e.instances[i]? = some inst → inst.phase = .awaiting issued cost →
      Clock.wake issued delay ≤ e.now
  passes : ∀ target, a = .advance target → e.isRunning = true → ∀ inst ∈ e.instances,
    ∀ issued cost, inst.phase = .awaiting issued cost → target ≤ Clock.wake issued delay

end Engine

/-! ### The pace of an instance -/

/-- What an instance does at an instant after it has gone round `done` times, if its calls take
    `latency` and it rests for `rest`. -/
def Phase.Paced (latency rest done now : Nat) : Phase → Prop
  | fresh => done = 0 ∧ now = 0
  | awaiting issued _ => issued = done * (latency + rest) ∧ issued ≤ now ∧ now ≤ issued + latency
  | recording record => now = done * (latency + rest) + latency ∧ record.outcome = .success ∧
      record.issued = Clock.reading (done * (latency + rest)) ∧ record.completed = Clock.reading now
  | resting wake => wake = done * (latency + rest) ∧ wake ≤ now + rest ∧ now ≤ wake
  | stopped => done * (latency + rest) ≤ now + rest ∧ now ≤ done * (latency + rest) + latency
  | crashed => True

/-- How many records the events tell of. -/
def recordsIn (events : List Event) : Nat := (events.map (Event.onRecord fun _ => 1)).sum

@[simp] theorem recordsIn_nil : recordsIn [] = 0 := rfl

@[simp] theorem recordsIn_append (before after : List Event) :
    recordsIn (before ++ after) = recordsIn before + recordsIn after := by
  rw [recordsIn, List.map_append, List.sum_append]
  rfl

namespace Phase

variable {phase : Phase} {latency rest done now : Nat}

/-- An instance that has gone round `done` times is not before the last return, and not after the
    next one. -/
theorem Paced.between (h : phase.Paced latency rest done now) (hgoes : phase.isCrashed = false) :
    done * (latency + rest) ≤ now + rest ∧ now ≤ done * (latency + rest) + latency := by
  -- Awaiting, the last return is a think time ago. Resting, it is the next one that is to come.
  cases phase with
  | fresh =>
    obtain ⟨rfl, rfl⟩ := h
    omega
  | awaiting issued cost =>
    obtain ⟨rfl, hfrom, hto⟩ := h
    omega
  | recording record =>
    obtain ⟨hnow, -⟩ := h
    omega
  | resting wake =>
    obtain ⟨rfl, hfrom, hto⟩ := h
    omega
  | stopped => exact h
  | crashed => cases hgoes

/-- **The number of rounds is the number of returns before the present**, unless one is due now. -/
theorem Paced.lt_iff (h : phase.Paced latency rest done now) (hgoes : phase.isCrashed = false)
    (hoff : ∀ j, now ≠ j * (latency + rest) + latency) (j : Nat) :
    j * (latency + rest) + latency < now ↔ j < done := by
  obtain ⟨hfrom, hto⟩ := h.between hgoes
  constructor
  · intro hreturned
    -- A round more or less is a whole latency and think time more or less.
    refine Nat.lt_of_not_le fun hle => ?_
    have hmul := Nat.mul_le_mul_right (latency + rest) hle
    omega
  · intro hlt
    have hmul := Nat.mul_le_mul_right (latency + rest) (Nat.succ_le_of_lt hlt)
    have hne := hoff j
    rw [Nat.succ_mul] at hmul
    omega

/-- The pace allows time to pass up to the next timer. -/
theorem Paced.later (h : phase.Paced latency rest done now) {target : Nat} (hlater : now ≤ target)
    (hwake : ∀ wake, phase.wake? = some wake → target ≤ wake)
    (hreturn : ∀ issued cost, phase = .awaiting issued cost → target ≤ issued + latency)
    (hhanded : ∀ record, phase ≠ .recording record) (hgoes : phase ≠ .stopped) :
    phase.Paced latency rest done target := by
  -- Each phase has an instant that time must not pass, unless the instance has ended.
  cases phase with
  | fresh =>
    have hzero := hwake 0 rfl
    exact ⟨h.1, by omega⟩
  | awaiting issued cost => exact ⟨h.1, Nat.le_trans h.2.1 hlater, hreturn issued cost rfl⟩
  | recording record => exact absurd rfl (hhanded record)
  | resting wake =>
    exact ⟨h.1, Nat.le_trans h.2.1 (Nat.add_le_add_right hlater rest), hwake wake rfl⟩
  | stopped => exact absurd rfl hgoes
  | crashed => trivial

end Phase

/-- A record of a call that took so long ends where it is handed over. -/
theorem latency_of_pace {record : Record} {issued latency now : Nat} (hnow : now = issued + latency)
    (hrange : now ≤ Clock.range) (hissued : record.issued = Clock.reading issued)
    (hcompleted : record.completed = Clock.reading now) :
    (record.completedBy (Clock.reading now)).latency.nanos = latency := by
  have hearlier : issued ≤ Clock.range := by omega
  rw [Record.latency, Record.completedBy, Span.nanos_since, Span.nanos_max, hissued, hcompleted,
    Engine.nanos_reading hearlier, Engine.nanos_reading hrange, Nat.max_self]
  omega

namespace Instance

variable {delay : Span} {i now done : Nat} {inst next : Instance} {new : List Event}

/-- **Every move keeps the pace**, if no call returns too early and none fails. -/
theorem Moves.paced (move : inst.Moves i now next new) (hrange : now ≤ Clock.range)
    (hreturns : ∀ t reply, .returned i t reply ∈ new → reply.outcome = .success ∧
      ∀ issued cost, inst.phase = .awaiting issued cost → Clock.wake issued delay ≤ now)
    (h : inst.phase.Paced (Clock.pause delay) (Clock.pause inst.profile.thinkPeriod) done now) :
    next.phase.Paced (Clock.pause delay) (Clock.pause inst.profile.thinkPeriod)
        (done + recordsIn new) now ∧
      ∀ record result, .recorded i record result ∈ new →
        record.outcome = .success ∧ record.latency.nanos = Clock.pause delay := by
  -- Requests are issued at whole milliseconds.
  have hround := Clock.tick_dvd_rounds done delay inst.profile.thinkPeriod
  cases move with
  | stays => exact ⟨h, fun _ _ hmem => by cases hmem⟩
  | @issues wake cost words waits due drawn =>
    refine ⟨?_, fun _ _ hmem => by simp at hmem⟩
    cases hphase : inst.phase with
    | fresh =>
      rw [hphase] at h
      obtain ⟨rfl, rfl⟩ := h
      exact ⟨(Nat.zero_mul _).symm, Nat.le_refl _, Nat.zero_le _⟩
    | resting other =>
      rw [hphase] at h waits
      obtain ⟨rfl, -, hto⟩ := h
      cases waits
      exact ⟨Nat.le_antisymm hto due, Nat.le_refl _, Nat.le_add_right _ _⟩
    | awaiting | recording | stopped | crashed => rw [hphase] at waits; cases waits
  | @returns issued cost answer awaits =>
    refine ⟨?_, fun _ _ hmem => by simp at hmem⟩
    obtain ⟨hsuccess, hdue⟩ := hreturns now answer List.mem_cons_self
    rw [awaits] at h
    obtain ⟨rfl, -, hto⟩ := h
    have hwake := hdue _ cost awaits
    rw [Clock.wake_eq_add_pause hround] at hwake
    exact ⟨Nat.le_antisymm hto hwake, hsuccess, rfl, rfl⟩
  | @records record taken holds =>
    rw [holds] at h
    obtain ⟨hnow, hsuccess, hissued, hcompleted⟩ := h
    have htick : Clock.tick ∣ now := by
      rw [hnow]
      exact Nat.dvd_add hround (Clock.tick_dvd_pause _)
    refine ⟨?_, fun other result hmem => ?_⟩
    · -- The rest ends when one more round is over.
      have hone : done + recordsIn [Event.recorded i (record.completedBy (Clock.reading now))
          (.ok taken)] = done + 1 := rfl
      rw [hone]
      show Phase.Paced _ _ _ _ (.resting (Clock.wake now inst.profile.thinkPeriod))
      rw [Clock.wake_eq_add_pause htick]
      refine ⟨?_, Nat.le_refl _, Nat.le_add_right _ _⟩
      rw [hnow, Nat.succ_mul, Nat.add_assoc]
    · cases List.mem_singleton.mp hmem
      exact ⟨hsuccess, latency_of_pace hnow hrange hissued hcompleted⟩
  | crashes holds =>
    rw [holds] at h
    obtain ⟨hnow, hsuccess, hissued, hcompleted⟩ := h
    refine ⟨trivial, fun other result hmem => ?_⟩
    cases List.mem_singleton.mp hmem
    exact ⟨hsuccess, latency_of_pace hnow hrange hissued hcompleted⟩
  | abandons awaits =>
    refine ⟨h.between (by rw [awaits]; rfl), fun _ _ hmem => by simp at hmem⟩
  | ends rests =>
    refine ⟨h.between (by rw [rests]; rfl), fun _ _ hmem => by simp at hmem⟩

end Instance

/-! ### The pace of a run -/

/-- Is the ledger still to be flushed? -/
def Status.isOpen : Status → Bool
  | .running => true
  | .draining flushes _ => flushes
  | _ => false

namespace Engine

variable {delay : Span} {e e' : Engine} {a : Action} {told new : List Event}

/-- A run that is open was open all along. -/
theorem Steps.isOpen (h : Steps e a e' new) (hopen : e'.status.isOpen = true) :
    e.status.isOpen = true := by
  cases h with
  | stop runs => rw [runs]; rfl
  | flush | flushFails | sendFlushed | finish => cases hopen
  | _ => exact hopen

/-- Only a reply makes a request return. -/
theorem Steps.eq_reply (h : Steps e a e' new) {i t : Nat} {reply : Reply}
    (hmem : .returned i t reply ∈ new) : a = .reply i reply := by
  cases h with
  | reply =>
    cases List.mem_singleton.mp hmem
    rfl
  | _ => simp at hmem

/-- All instances keep the pace, and so do their records. -/
structure Paced (delay : Span) (e : Engine) (told : List Event) : Prop where
  instances : ∀ (i : Nat) (inst : Instance), e.instances[i]? = some inst →
    inst.phase.Paced (Clock.pause delay) (Clock.pause inst.profile.thinkPeriod)
      (recordsIn (eventsOf i told)) e.now
  records : ∀ i record result, .recorded i record result ∈ told →
    record.outcome = .success ∧ record.latency.nanos = Clock.pause delay

/-- Time that may pass keeps the pace. -/
theorem Paced.advance (h : e.Paced delay told) {target : Nat} (later : e.now ≤ target)
    (hserves : e.Serves delay (.advance target)) (hruns : e.isRunning = true)
    (hunstopped : e.Unstopped) : ({ e with now := target } : Engine).Paced delay told where
  instances i inst found := by
    have hpass := hserves.timely target rfl
    have hmem : inst ∈ e.instances := List.mem_of_getElem? found
    have hpresent := h.instances i inst found
    -- The call is awaited until its delay is over, which is a whole number of ticks.
    have hreturn : ∀ issued cost, inst.phase = .awaiting issued cost →
        target ≤ issued + Clock.pause delay := by
      intro issued cost awaits
      have hwake := hserves.passes target rfl hruns inst hmem issued cost awaits
      rw [awaits] at hpresent
      have hround : Clock.tick ∣ issued := by
        rw [hpresent.1]
        exact Clock.tick_dvd_rounds _ _ _
      rwa [Clock.wake_eq_add_pause hround] at hwake
    have hhanded : ∀ record, inst.phase ≠ .recording record := by
      intro record holds
      have hsome := record?_isSome (e := e) found holds
      rw [hpass.waits (.record i) rfl] at hsome
      cases hsome
    exact hpresent.later later (hpass.instances inst hmem) hreturn hhanded (hunstopped inst hmem)
  records := h.records

/-- **Every step that suits keeps the pace.** -/
theorem Steps.paced (h : Steps e a e' new) (hserves : e.Serves delay a)
    (hrange : e.now ≤ Clock.range)
    (hpasses : ∀ target, a = .advance target → e.isRunning = true ∧ e.Unstopped)
    (hpaced : e.Paced delay told) : e'.Paced delay (told ++ new) := by
  by_cases hadvance : ∃ target, a = .advance target
  · obtain ⟨target, rfl⟩ := hadvance
    obtain ⟨hruns, hunstopped⟩ := hpasses target rfl
    cases h with
    | advance later range =>
      rw [List.append_nil]
      exact hpaced.advance later hserves hruns hunstopped
  have hnow : e'.now = e.now := by
    cases h with
    | advance => exact absurd ⟨_, rfl⟩ hadvance
    | _ => rfl
  -- What a step does to an instance at the present keeps its pace.
  have hmove : ∀ {i : Nat} {inst next : Instance}, e.instances[i]? = some inst →
      inst.Moves i e.now next (eventsOf i new) →
        next.phase.Paced (Clock.pause delay) (Clock.pause inst.profile.thinkPeriod)
            (recordsIn (eventsOf i told) + recordsIn (eventsOf i new)) e.now ∧
          ∀ record result, .recorded i record result ∈ eventsOf i new →
            record.outcome = .success ∧ record.latency.nanos = Clock.pause delay := by
    intro i inst next found move
    refine move.paced hrange (fun t reply hmem => ?_) (hpaced.instances i inst found)
    obtain ⟨hsuccess, hdue⟩ := hserves.returns i reply (h.eq_reply (List.mem_of_mem_filter hmem))
    exact ⟨hsuccess, fun issued cost => hdue inst issued cost found⟩
  refine ⟨fun i inst found => ?_, fun i record result hmem => ?_⟩
  · obtain ⟨earlier, hearlier, move⟩ := h.moved found
    rw [eventsOf_append, recordsIn_append, move.frame.1, hnow]
    exact (hmove hearlier move).1
  · rcases List.mem_append.mp hmem with hold | hnew
    · exact hpaced.records i record result hold
    · have hof : .recorded i record result ∈ eventsOf i new :=
        List.mem_filter.mpr ⟨hnew, by simp [Event.instance?]⟩
      -- An event of a place without an instance does not occur.
      cases hfound : e.instances[i]? with
      | some inst =>
        obtain ⟨⟨next, -, move⟩, -⟩ := h.moves hfound
        exact (hmove hfound move).2 record result hof
      | none =>
        rw [h.eventsOf_eq_nil hfound] at hof
        cases hof

/-- **All instances keep the pace** until the ledger is flushed. -/
theorem run?_paced {config : EngineConfig} {profiles : List Profile} {as : List Action}
    (h : (start config profiles).run? as = some (e, told))
    (hserves : (start config profiles).Throughout (Serves delay) as)
    (hopen : e.status.isOpen = true) : e.Paced delay told := by
  refine run?_induction_throughout (motive := fun mid told => mid.status.isOpen = true →
    mid.Paced delay told) h hserves (fun _ => ⟨fun i inst found => ?_, fun _ _ _ hmem => ?_⟩) ?_
    hopen
  · rw [phase_of_instancesFrom (List.mem_of_getElem? found)]
    exact ⟨rfl, rfl⟩
  · cases hmem
  · intro before mid next a told new hbefore _ hmid hstep hsuits hopen
    have hearlier := hstep.isOpen hopen
    refine hstep.paced hsuits (run?_books hbefore).now_le (fun target ha => ?_) (hmid hearlier)
    -- Time passes only before the run is told to end.
    have hruns : mid.isRunning = true := by
      cases hstatus : mid.status with
      | running => rw [isRunning, hstatus]
      | draining flushes since =>
        rw [hstatus] at hearlier
        obtain rfl : flushes = true := hearlier
        exact absurd (hsuits.timely target ha) (not_mayPass_of_draining hbefore hstatus)
      | flushing | finished | failed => rw [hstatus] at hearlier; cases hearlier
    exact ⟨hruns, run?_unstopped hbefore hruns⟩

end Engine

end ClosedLoop
