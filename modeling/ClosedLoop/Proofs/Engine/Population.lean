import ClosedLoop.Proofs.Engine.Settlement

namespace ClosedLoop

/-!
# The instances of a run that goes on

* `Engine.Begun` — every instance has begun;
* `Engine.run?_unstopped` — no instance ends on order before the run is told to end;
* `Engine.size_le_of_crashed` — an instance ends by itself only if the calls of its client took too
  long together;
* `Engine.Populated`, `Engine.run?_populated` — from the time that all instances have begun until
  the run is told to end, every profile has all of its instances, and the engine counts them so.
-/

/-- Did the instance end because its record could not be counted? -/
def Phase.isCrashed : Phase → Bool
  | crashed => true
  | _ => false

/-- An instance that ended by itself lost a record. -/
theorem Instance.Moves.crashed {i now : Nat} {inst next : Instance} {told new : List Event}
    (move : inst.Moves i now next new)
    (h : inst.phase.isCrashed → 0 < told.countP Event.isLoss) (hnext : next.phase.isCrashed) :
    0 < (told ++ new).countP Event.isLoss := by
  rw [List.countP_append]
  cases move with
  | stays =>
    have hearlier := h hnext
    omega
  | crashes holds => simp [Event.isLoss]
  | issues | returns | records | abandons | ends => cases hnext

namespace Engine

variable {e e' : Engine} {a : Action} {new : List Event}

/-- Every instance has begun. -/
def Begun (e : Engine) : Prop := ∀ inst ∈ e.instances, inst.phase ≠ .fresh

/-- No instance has ended on order. -/
def Unstopped (e : Engine) : Prop := ∀ inst ∈ e.instances, inst.phase ≠ .stopped

/-- An instance that has not stopped takes the place of another. -/
theorem Unstopped.setInstance (h : e.Unstopped) {i : Nat} {next : Instance}
    (hnext : next.phase ≠ .stopped) : (e.setInstance i next).Unstopped := by
  intro inst hinst
  rcases List.mem_or_eq_of_mem_set hinst with hold | rfl
  · exact h inst hold
  · exact hnext

/-- No instance ends on order while the run goes on. -/
theorem Steps.unstopped (h : Steps e a e' new) (hruns : e'.isRunning = true)
    (hall : e.Unstopped) : e'.Unstopped := by
  -- Only quitting stops an instance, and nobody quits while the run goes on.
  cases h with
  | issue found turn =>
    refine hall.setInstance fun hphase => ?_
    cases Instance.moves_of_issue? (i := 0) turn with
    | issues => cases hphase
  | @reply i answer inst next found turn =>
    refine hall.setInstance fun hphase => ?_
    unfold Instance.receive? at turn
    split at turn
    · cases turn
      cases hphase
    · cases turn
  | record found turn kept =>
    obtain ⟨-, rfl⟩ := Instance.handOver?_eq_some turn
    exact Unstopped.setInstance (e := { e with ledger := _ }) hall fun hphase => by cases hphase
  | crash found turn kept =>
    exact Unstopped.setInstance (e := { e with ledger := _ }) hall fun hphase => by cases hphase
  | quit told found turn =>
    have hrunning : e.isRunning = true := hruns
    rw [told] at hrunning
    cases hrunning
  | _ => exact hall

section Runs

variable {config : EngineConfig} {profiles : List Profile} {as : List Action} {events : List Event}

/-- While a run goes on nobody has stopped. -/
theorem run?_unstopped (h : (start config profiles).run? as = some (e, events))
    (hruns : e.isRunning = true) : e.Unstopped := by
  refine run?_induction (motive := fun mid _ => mid.isRunning = true → mid.Unstopped) h
    (fun _ inst hinst hphase => ?_) ?_ hruns
  · rw [phase_of_instancesFrom hinst] at hphase
    cases hphase
  · intro mid next a told new hmid hstep hruns
    -- A run that goes on after a step went on before it.
    have hstatus : next.status = .running := by
      unfold isRunning at hruns
      split at hruns
      · assumption
      · cases hruns
    have hearlier : mid.isRunning = true := by
      rw [isRunning, (hstep.running hstatus).1]
    exact hstep.unstopped hruns (hmid hearlier)

/-- An instance ends by itself only if the calls of its client took longer together than any
    span. -/
theorem size_le_of_crashed (accepted : Engine.check profiles = .ok ())
    (h : (start config profiles).run? as = some (e, events)) (hclean : e.status.isClean)
    {p : Profile} (hp : p ∈ profiles) {inst : Instance} (hinst : inst ∈ e.instances)
    (hclient : inst.client = p.id) (hcrashed : inst.phase.isCrashed) :
    UInt64.size * 1000000000 ≤ p.instances.toNat * e.now := by
  obtain ⟨i, found⟩ := List.mem_iff_getElem?.mp hinst
  have hloss : 0 < (eventsOf i events).countP Event.isLoss := by
    refine run?_instance_of_start (motive := fun inst told _ => inst.phase.isCrashed →
      0 < told.countP Event.isLoss) h found (fun first hfresh hcrashed => ?_)
      (fun hmid move _ => move.crashed hmid) hcrashed
    rw [hfresh] at hcrashed
    cases hcrashed
  refine size_le_of_lost accepted h hclean hp fun hnone => ?_
  -- The loss of the instance is one of its client.
  have hplace : i ∈ e.placesOf p.id := by
    rw [mem_placesOf, clientAt?, List.getElem?_map, found, ← hclient]
    rfl
  have hcount := countP_isLoss (e := e) p.id fun i record result hmem =>
    client_of_recorded h hmem
  rw [show ((journalOf events).of p.id).lost = [] from hnone, List.length_nil,
    countP_eventsFor] at hcount
  have hzero := Finset.sum_eq_zero_iff.mp hcount i hplace
  omega

end Runs

/-! ### Counting -/

/-- An instance that has begun and not been told to end is active unless it ended by itself. -/
private theorem countP_active_add (l : List Instance) (hbegun : ∀ inst ∈ l, inst.phase ≠ .fresh)
    (hunstopped : ∀ inst ∈ l, inst.phase ≠ .stopped) (c : ClientId) :
    (l.countP fun i => i.client = c && i.phase.isActive) +
      (l.countP fun i => i.client = c && i.phase.isCrashed) = (l.map Instance.client).count c := by
  induction l with
  | nil => rfl
  | cons inst rest ih =>
    obtain ⟨hfirst, hbegun⟩ := List.forall_mem_cons.mp hbegun
    obtain ⟨hhead, hunstopped⟩ := List.forall_mem_cons.mp hunstopped
    have hrest := ih hbegun hunstopped
    rw [List.countP_cons, List.countP_cons, List.map_cons, List.count_cons]
    -- Exactly one of the two counts takes an instance of the client in.
    have hone : inst.phase.isActive = !inst.phase.isCrashed := by
      cases hphase : inst.phase with
      | fresh => exact absurd hphase hfirst
      | stopped => exact absurd hphase hhead
      | resting | awaiting | recording | crashed => rfl
    by_cases hclient : inst.client = c
    · cases hcrashed : inst.phase.isCrashed <;> simp [hclient, hone, hcrashed] <;> omega
    · simp [hclient]
      omega

/-- Distinct ids share the items among them. -/
private theorem countP_eq_sum {ids : List ClientId} (hnodup : ids.Nodup) (l : List Instance)
    (hall : ∀ inst ∈ l, inst.client ∈ ids) (P : Instance → Bool) :
    l.countP P = (ids.map fun c => l.countP fun i => i.client = c && P i).sum := by
  induction l with
  | nil => simp
  | cons inst rest ih =>
    obtain ⟨hfirst, hrest⟩ := List.forall_mem_cons.mp hall
    -- The first item is counted for its own client, which is one of the ids and occurs once.
    have hone :
        (ids.map fun c => if (decide (inst.client = c) && P inst) = true then 1 else 0).sum =
          if P inst = true then 1 else 0 := by
      cases hP : P inst with
      | false => simp
      | true =>
        have hcount : ∀ l : List ClientId,
            (l.map fun c => if inst.client = c then 1 else 0).sum = l.count inst.client := by
          intro l
          induction l with
          | nil => rfl
          | cons c rest ih =>
            rw [List.map_cons, List.sum_cons, ih, List.count_cons, Nat.add_comm]
            by_cases hc : inst.client = c
            · simp [hc]
            · have hne : ¬c = inst.client := fun heq => hc heq.symm
              simp [hc, hne]
        simpa [hcount] using List.count_eq_one_of_mem hnodup hfirst
    simp only [List.countP_cons, List.sum_map_add, hone, ih hrest]

/-- What the engine tells of its instances while the run goes on. -/
structure Populated (profiles : List Profile) (e : Engine) : Prop where
  /-- All instances of a profile are active, as long as their latencies can be added up. -/
  active : ∀ p ∈ profiles, p.FitsUntil e.now → e.active? p.id = some p.instances.toNat
  /-- There are never more. -/
  known : ∀ p ∈ profiles, ∃ n ≤ p.instances.toNat, e.active? p.id = some n
  /-- Of any other client nothing is told. -/
  unknown : ∀ c, c ∉ profiles.map Profile.id → e.active? c = none
  /-- Together they are all that is active. -/
  total : e.totalActive = (profiles.map fun p => (e.active? p.id).getD 0).sum

/-- **Every profile has its instances** as soon as they have begun and until the run is told to
    end, whatever the calls return or whether they do. -/
theorem run?_populated {config : EngineConfig} {profiles : List Profile} {as : List Action}
    {events : List Event} (accepted : Engine.check profiles = .ok ())
    (h : (start config profiles).run? as = some (e, events)) (hruns : e.isRunning = true)
    (hbegun : e.Begun) : e.Populated profiles := by
  have hunstopped := run?_unstopped h hruns
  have hids := run?_monitors_of_start h
  have hknown : ∀ c, e.monitors.any (·.client = c) = true ↔ c ∈ profiles.map Profile.id := by
    intro c
    rw [← hids]
    simp [List.any_eq_true]
  have hactive : ∀ p ∈ profiles, e.active? p.id =
      some (e.instances.countP fun i => i.client = p.id && i.phase.isActive) := by
    intro p hp
    rw [active?, if_pos ((hknown p.id).mpr (List.mem_map_of_mem hp))]
  have hclean : e.status.isClean := by
    unfold isRunning at hruns
    split at hruns
    next hstatus => rw [hstatus]; rfl
    next => cases hruns
  have hsum : ∀ p ∈ profiles, (e.instances.countP fun i => i.client = p.id && i.phase.isActive) +
      (e.instances.countP fun i => i.client = p.id && i.phase.isCrashed) = p.instances.toNat := by
    intro p hp
    rw [countP_active_add e.instances hbegun hunstopped p.id, ← card_placesOf_eq_count,
      placesOf_run? h, card_placesOf accepted hp]
  refine ⟨fun p hp hfits => ?_, fun p hp => ?_, fun c hc => ?_, ?_⟩
  · have hnone : (e.instances.countP fun i => i.client = p.id && i.phase.isCrashed) = 0 := by
      rw [List.countP_eq_zero]
      intro inst hinst hgone
      rw [Bool.and_eq_true, decide_eq_true_eq] at hgone
      -- An instance that ended by itself would have been there for too long.
      have hlong := size_le_of_crashed accepted h hclean hp hinst hgone.1 hgone.2
      exact Nat.not_lt.mpr hlong hfits
    have hall := hsum p hp
    rw [hnone, Nat.add_zero] at hall
    rw [hactive p hp, hall]
  · have hall := hsum p hp
    exact ⟨_, by omega, hactive p hp⟩
  · rw [active?, if_neg]
    rw [hknown c]
    exact hc
  · have hclients : ∀ inst ∈ e.instances, inst.client ∈ profiles.map Profile.id := by
      intro inst hinst
      obtain ⟨i, found⟩ := List.mem_iff_getElem?.mp hinst
      exact List.mem_map_of_mem (profile_of_run? h found).1
    have hnodup := ((validateAll_ok_iff profiles).mp accepted).2
    rw [totalActive, countP_eq_sum hnodup e.instances hclients, List.map_map]
    refine congrArg List.sum (List.map_congr_left fun p hp => ?_)
    rw [hactive p hp]
    rfl

end Engine

end ClosedLoop
