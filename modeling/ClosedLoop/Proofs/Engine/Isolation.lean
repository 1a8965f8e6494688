import ClosedLoop.Proofs.Engine.Finishing
import ClosedLoop.Proofs.Engine.Part
import ClosedLoop.Proofs.Engine.Uniform

namespace ClosedLoop

/-!
# Clients keep to themselves

Against an endpoint that answers all calls alike, the clients of a run notice nothing of each other.
What happens in a run over two lists of profiles happens in the run over the first list alone when
it concerns that list, and passes that run by when it does not.

* `Engine.reaches_part` — the part of every run is a run of the first profiles alone;
* `Simulation.PartOf` — a simulation is the part of another one, with its calls in service;
* `Simulation.PartOf.next?`, `Simulation.PartOf.goesAlong` — the part does the same next, or what
  happens leaves it as it is;
* `Simulation.goes_of_advance` — time may pass in pieces;
* `Simulation.Goes.part` — **everything up to an instant happens in the part alone**.
-/

/-! ### Lists -/

/-- What is found first is found first among fewer, if it is one of them. -/
theorem find?_filter_of_find? {α : Type} {l : List α} {p q : α → Bool} {x : α}
    (h : l.find? p = some x) (hx : q x = true) : (l.filter q).find? p = some x := by
  obtain ⟨hp, before, after, rfl, hnot⟩ := List.find?_eq_some_iff_append.mp h
  rw [List.filter_append, List.filter_cons_of_pos hx, List.find?_append,
    List.find?_cons_of_pos hp, List.find?_eq_none.mpr fun y hy => ?_, Option.none_or]
  simpa using hnot y (List.mem_of_mem_filter hy)

/-- Erasing an element that is filtered out changes nothing. -/
theorem filter_eraseP_of_not {α : Type} {p q : α → Bool} (h : ∀ x, p x = true → q x = false)
    (l : List α) : (l.eraseP p).filter q = l.filter q := by
  induction l with
  | nil => rfl
  | cons x rest ih =>
    cases hp : p x with
    | true =>
      rw [List.eraseP_cons_of_pos hp,
        List.filter_cons_of_neg (by rw [h x hp]; exact Bool.noConfusion)]
    | false =>
      rw [List.eraseP_cons_of_neg (by rw [hp]; exact Bool.noConfusion), List.filter_cons, ih,
        List.filter_cons]

/-- Erasing the first of some elements that are all kept commutes with filtering. -/
theorem filter_eraseP {α : Type} {p q : α → Bool} (h : ∀ x, p x = true → q x = true)
    (l : List α) : (l.eraseP p).filter q = (l.filter q).eraseP p := by
  have hboth : (fun x => p x && q x) = p := by
    funext x
    cases hp : p x with
    | true => rw [h x hp]; rfl
    | false => rfl
  rw [List.eraseP_filter, hboth]

/-! ### What the part of an engine can do -/

namespace Engine

variable {t : Part} {e : Engine} {a : Action}

/-- The first instance of a kind in the part is that of the whole, if it is in the part. -/
theorem findIdx?_instances_part (p : Instance → Bool) :
    (e.part t).instances.findIdx? p =
      (e.instances.findIdx? p).bind (Option.guard fun i => decide (i < t.instances)) :=
  List.findIdx?_take

/-- The first monitor of a kind likewise. -/
theorem findIdx?_monitors_part (p : Monitor → Bool) :
    (e.part t).monitors.findIdx? p =
      (e.monitors.findIdx? p).bind (Option.guard fun m => decide (m < t.monitors)) :=
  List.findIdx?_take

/-- The first instance that may issue a request likewise. -/
theorem issuer?_part (t : Part) (e : Engine) : (e.part t).issuer? =
    e.issuer?.bind (Option.guard fun i => decide (i < t.instances)) :=
  findIdx?_instances_part _

/-- The first monitor whose tick has fired likewise. -/
theorem dueMonitor?_part (t : Part) (e : Engine) : (e.part t).dueMonitor? =
    e.dueMonitor?.bind (Option.guard fun m => decide (m < t.monitors)) :=
  findIdx?_monitors_part _

/-- What is found in the whole engine and belongs to the part is found in it. -/
theorem guard_of_lt {o : Option Nat} {i n : Nat} (h : o = some i) (hi : i < n) :
    o.bind (Option.guard fun j => decide (j < n)) = some i := by
  rw [h, Option.bind_some, Option.guard, if_pos (decide_eq_true hi)]

/-- A snapshot of the part that is delivered next is delivered next in the part. -/
theorem delivery?_part (h : e.delivery? = some a) (hfor : e.isFor t a = true) :
    (e.part t).delivery? = some a := by
  unfold delivery? at h ⊢
  split at h
  · rename_i s rest hchannel
    cases h
    have hown : t.own s.client = true := by simpa [isFor, hchannel] using hfor
    simp [part, hchannel, hown]
  · rename_i hchannel
    obtain ⟨m, hfind, rfl⟩ := Option.map_eq_some_iff.mp h
    have hnone : (e.part t).channel = [] := by rw [part, hchannel]; rfl
    rw [hnone, findIdx?_monitors_part, guard_of_lt hfind (of_decide_eq_true hfor)]
    rfl

/-- Where nothing is to be delivered, nothing is in the part. -/
theorem delivery?_part_of_none (h : e.delivery? = none) : (e.part t).delivery? = none := by
  unfold delivery? at h ⊢
  split at h
  · cases h
  · rename_i hchannel
    have hnone : (e.part t).channel = [] := by rw [part, hchannel]; rfl
    rw [hnone, findIdx?_monitors_part, Option.map_eq_none_iff.mp h]
    rfl

/-- What the end of the run asks of the part next is what the part asks of itself. -/
theorem closing?_part (h : e.closing? = some a) (hfor : e.isFor t a = true) :
    (e.part t).closing? = some a := by
  unfold closing? at h ⊢
  rw [isRunning_part]
  by_cases hruns : e.isRunning = true
  · rw [if_pos hruns] at h
    cases h
  rw [if_neg hruns] at h ⊢
  rw [findIdx?_instances_part, findIdx?_monitors_part]
  cases hinstance : e.instances.findIdx? (!·.phase.isEnded) with
  | some i =>
    simp only [hinstance] at h
    obtain ⟨inst, found, rfl⟩ := Option.map_eq_some_iff.mp h
    -- Whatever an instance does at its end, it is for the part.
    have hi : i < t.instances := by
      unfold ending at hfor
      split at hfor <;> exact of_decide_eq_true hfor
    simp only [guard_of_lt rfl hi, getElem?_instances_part hi, found, Option.map_some]
  | none =>
    simp only [hinstance] at h
    cases hmonitor : e.monitors.findIdx? (!·.isStopped) with
    | some m =>
      simp only [hmonitor, Option.some.injEq] at h
      subst h
      simp only [Option.bind_none, guard_of_lt rfl (of_decide_eq_true hfor)]
    | none =>
      simp only [hmonitor] at h
      simp only [Option.bind_none, part]
      cases hstatus : e.status with
      | draining flushes since =>
        cases flushes with
        | true => simpa [hstatus, Status.part] using h
        | false => rw [hstatus] at h; cases h
      | flushing clean elapsed left =>
        cases left with
        | nil => simpa [hstatus, Status.part] using h
        | cons s rest =>
          simp only [hstatus, Option.some.injEq] at h
          subst h
          have hown : t.own s.client = true := by simpa [isFor, hstatus, Status.left] using hfor
          simp [Status.part, hown]
      | running | finished | failed => rw [hstatus] at h; cases h

/-- Where nothing is left to do at the end, nothing is in the part. -/
theorem closing?_part_of_none (h : e.closing? = none) : (e.part t).closing? = none := by
  by_cases hruns : e.isRunning = true
  · rw [closing?, isRunning_part, if_pos hruns]
  -- All instances and monitors have ended, so those of the part have.
  · obtain ⟨hended, hstopped, hdraining, hflushing⟩ :=
      ended_of_closing? (Bool.eq_false_iff.mpr hruns) h
    have hinstances : e.instances.findIdx? (!·.phase.isEnded) = none :=
      List.findIdx?_eq_none_iff.mpr fun inst hinst => by rw [hended inst hinst]; rfl
    have hmonitors : e.monitors.findIdx? (!·.isStopped) = none :=
      List.findIdx?_eq_none_iff.mpr fun m hm => by rw [hstopped m hm]; rfl
    rw [closing?, isRunning_part, if_neg hruns, findIdx?_instances_part, findIdx?_monitors_part,
      hinstances, hmonitors]
    simp only [Option.bind_none, part]
    cases hstatus : e.status with
    | draining flushes since =>
      cases flushes with
      | true => exact absurd hstatus (hdraining since)
      | false => rfl
    | flushing clean elapsed left => exact absurd hstatus (hflushing clean elapsed left)
    | running | finished | failed => rfl

/-- Is it up to an instance, the clock and the owner of the run alone whether the action is
    possible? -/
def isFree : Action → Bool
  | .reply _ _ => true
  | .record _ => true
  | .advance _ => true
  | .stop _ => true
  | _ => false

/-- What is not possible for the whole engine is then not possible for its part. -/
theorem step?_part_of_none (hfree : isFree a = true) (hfor : e.isFor t a = true)
    (h : e.step? a = none) : (e.part t).step? a = none := by
  refine Option.eq_none_iff_forall_ne_some.mpr fun ⟨next, shown⟩ hresult => ?_
  -- A free action of the part depends on an instance of it, on the clock or on nothing.
  have hpossible : (e.step? a).isSome := by
    cases steps_of_step? hresult with
    | @reply i answer inst next found turn =>
      rw [getElem?_instances_part (of_decide_eq_true hfor)] at found
      rw [step?_of_steps (.reply found turn)]
      rfl
    | @record i inst next record taken found turn | @crash i inst next record fault found turn =>
      rw [getElem?_instances_part (of_decide_eq_true hfor)] at found
      exact record?_isSome found (Instance.handOver?_eq_some turn).1
    | advance later range =>
      rw [step?_of_steps (e := e) (.advance later range)]
      rfl
    | stop runs =>
      have hruns : e.isRunning = true := by rw [← isRunning_part (t := t), isRunning, runs]
      rw [step?_of_steps (.stop (status_of_isRunning hruns))]
      rfl
    | _ => cases hfree
  rw [h] at hpossible
  cases hpossible

variable {config : EngineConfig} {ps qs : List Profile}

/-- An action of the part does to the part of a run what it does to the run. -/
theorem step?_part (accepted : Engine.check (ps ++ qs) = .ok ())
    (h : (start config (ps ++ qs)).Reaches e) {e' : Engine} {shown : List Event}
    (hstep : e.step? a = some (e', shown)) (hfor : e.isFor (Part.of ps) a = true) :
    ∃ told, (e.part (Part.of ps)).step? a = some (e'.part (Part.of ps), told) := by
  obtain ⟨as, events, hrun⟩ := h
  obtain ⟨told, hpart⟩ := part_step (steps_of_step? hstep) (run?_parted accepted hrun)
    (run?_books hrun) hfor
  exact ⟨told, step?_of_steps hpart⟩

/-- Any other action leaves the part of a run as it is. -/
theorem part_of_step? (accepted : Engine.check (ps ++ qs) = .ok ())
    (h : (start config (ps ++ qs)).Reaches e) {e' : Engine} {shown : List Event}
    (hstep : e.step? a = some (e', shown)) (hfor : e.isFor (Part.of ps) a = false) :
    e'.part (Part.of ps) = e.part (Part.of ps) := by
  obtain ⟨as, events, hrun⟩ := h
  exact part_of_not (steps_of_step? hstep) (run?_parted accepted hrun) hfor

/-- **The part of every run is a run of the first profiles alone**, whatever the calls return and
    in whatever order things happen. -/
theorem reaches_part (accepted : Engine.check (ps ++ qs) = .ok ())
    (h : (start config (ps ++ qs)).Reaches e) :
    (start config ps).Reaches (e.part (Part.of ps)) := by
  obtain ⟨as, events, hrun⟩ := h
  refine run?_induction_along
    (motive := fun mid _ => (start config ps).Reaches (mid.part (Part.of ps))) hrun ?_ ?_
  · rw [part_start accepted]
    exact .refl _
  -- A step of the part is one of it alone, and any other one leaves it where it is.
  · intro before mid next a told new hbefore hmid hsteps
    have hreach : (start config (ps ++ qs)).Reaches mid := ⟨before, told, hbefore⟩
    have hstep := step?_of_steps hsteps
    cases hfor : mid.isFor (Part.of ps) a with
    | true =>
      obtain ⟨events, hpart⟩ := step?_part accepted hreach hstep hfor
      exact hmid.trans (reaches_of_step? hpart)
    | false =>
      rw [part_of_step? accepted hreach hstep hfor]
      exact hmid

/-- An action of the part is taken by the part alone, if it is impossible for it where it is
    impossible for the whole. -/
theorem part_after (accepted : Engine.check (ps ++ qs) = .ok ())
    (h : (start config (ps ++ qs)).Reaches e) (hfor : e.isFor (Part.of ps) a = true)
    (hnone : e.step? a = none → (e.part (Part.of ps)).step? a = none) :
    (e.after a).part (Part.of ps) = (e.part (Part.of ps)).after a := by
  cases hstep : e.step? a with
  | none => rw [after_of_none hstep, after_of_none (hnone hstep)]
  | some result =>
    obtain ⟨told, hpart⟩ := step?_part accepted h hstep hfor
    rw [after_of_step? hstep, after_of_step? hpart]

/-- An action of the others does not change the part. -/
theorem part_after_of_not (accepted : Engine.check (ps ++ qs) = .ok ())
    (h : (start config (ps ++ qs)).Reaches e) (hfor : e.isFor (Part.of ps) a = false) :
    (e.after a).part (Part.of ps) = e.part (Part.of ps) := by
  cases hstep : e.step? a with
  | none => rw [after_of_none hstep]
  | some result => rw [after_of_step? hstep, part_of_step? accepted h hstep hfor]

/-- The return of a call and the record of it, likewise. -/
theorem part_afterReturn (accepted : Engine.check (ps ++ qs) = .ok ())
    (h : (start config (ps ++ qs)).Reaches e) {i : Nat} (hi : i < (Part.of ps).instances)
    (reply : Reply) :
    (e.afterReturn i reply).part (Part.of ps) = (e.part (Part.of ps)).afterReturn i reply := by
  have hfor : decide (i < (Part.of ps).instances) = true := decide_eq_true hi
  have hmid := h.trans (e.reaches_after (.reply i reply))
  rw [afterReturn, afterReturn,
    part_after (a := .record i) accepted hmid hfor (step?_part_of_none rfl hfor),
    part_after (a := .reply i reply) accepted h hfor (step?_part_of_none rfl hfor)]

/-- The return of a call of the others does not change the part. -/
theorem part_afterReturn_of_not (accepted : Engine.check (ps ++ qs) = .ok ())
    (h : (start config (ps ++ qs)).Reaches e) {i : Nat} (hi : ¬i < (Part.of ps).instances)
    (reply : Reply) : (e.afterReturn i reply).part (Part.of ps) = e.part (Part.of ps) := by
  have hfor : decide (i < (Part.of ps).instances) = false := decide_eq_false hi
  have hmid := h.trans (e.reaches_after (.reply i reply))
  rw [afterReturn, part_after_of_not (a := .record i) accepted hmid hfor,
    part_after_of_not (a := .reply i reply) accepted h hfor]

end Engine

/-! ### What a report tells of some clients -/

/-- What a report tells of some clients. -/
def RunReport.part (own : ClientId → Bool) (r : RunReport) : RunReport :=
  { r with
    snapshots := r.snapshots.filter fun s => own s.client
    totals := r.totals.filter fun entry => own entry.1 }

/-- The report of a part is what the report of the whole engine tells of its clients. -/
theorem Engine.report?_part (t : Part) (e : Engine) :
    (e.part t).report? = e.report?.map (RunReport.part t.own) := by
  unfold report?
  cases hstatus : e.status with
  | finished clean elapsed =>
    simp only [part, hstatus, Status.part, Option.map_some, RunReport.part, reportAt,
      Ledger.totals_part]
  | _ => simp only [part, hstatus, Status.part, Option.map_none]

/-! ### Simulations -/

/-! ### The calls of a part -/

/-- Is this a call of the part? -/
def Call.isFor (t : Part) (c : Call) : Bool := c.id < t.instances

/-- The calls of the part, in their order. -/
def Traffic.part (t : Part) (traffic : Traffic) : List Call := traffic.calls.filter (·.isFor t)

namespace Traffic

variable {t : Part} {traffic : Traffic} {i wake : Nat} {reply : Reply}

/-- A call of the part sets out in the part. -/
theorem part_append (hi : i < t.instances) :
    (traffic.append (Call.plain i wake reply)).part t =
      traffic.part t ++ [Call.plain i wake reply] := by
  rw [part, append, List.filter_append, part]
  simp [Call.isFor, Call.plain, hi]

/-- A call of the others does not. -/
theorem part_append_of_not (hi : ¬i < t.instances) :
    (traffic.append (Call.plain i wake reply)).part t = traffic.part t := by
  rw [part, append, List.filter_append, part]
  simpa [Call.isFor, Call.plain] using hi

/-- A call of the part that is over is removed from the part. -/
theorem part_without (hi : i < t.instances) :
    (traffic.without i).part t = (traffic.part t).eraseP (·.id = i) :=
  filter_eraseP (fun _ hc => decide_eq_true (of_decide_eq_true hc ▸ hi)) _

/-- A call of the others that is over was not in the part. -/
theorem part_without_of_not (hi : ¬i < t.instances) :
    (traffic.without i).part t = traffic.part t :=
  filter_eraseP_of_not (fun _ hc => decide_eq_false (of_decide_eq_true hc ▸ hi)) _

end Traffic

/-- Is this something that happens to the part? -/
def Happening.isFor (t : Part) (e : Engine) : Happening → Bool
  | .action a => e.isFor t a
  | .call i => i < t.instances
  | .move c => c.isFor t

namespace Simulation

variable {b : Behaviour} {whole whole' alone s s' : Simulation b} {t : Part} {target : Nat}

/-- The second simulation is a part of the first one, with its calls in service. -/
structure PartOf (t : Part) (whole alone : Simulation b) : Prop where
  engine : alone.engine = whole.engine.part t
  calls : alone.traffic.calls = whole.traffic.part t

namespace PartOf

/-- The part is told to end when the whole is. -/
theorem isRunning (h : PartOf t whole alone) :
    alone.engine.isRunning = whole.engine.isRunning := by
  rw [h.engine, Engine.isRunning_part]

/-- Where the whole has nothing to deliver the part has nothing. -/
theorem delivery?_of_none (h : PartOf t whole alone) (hnone : whole.engine.delivery? = none) :
    alone.engine.delivery? = none := by
  rw [h.engine]
  exact Engine.delivery?_part_of_none hnone

/-- Where no call of the whole is due none of the part is. -/
theorem due?_of_none (h : PartOf t whole alone)
    (hnone : whole.traffic.due? whole.engine.now = none) :
    alone.traffic.due? alone.engine.now = none := by
  rw [Traffic.due?, h.calls, h.engine]
  exact List.find?_eq_none.mpr fun c hc =>
    List.find?_eq_none.mp hnone c (List.mem_of_mem_filter hc)

/-- Where no instance of the whole may issue a request none of the part may. -/
theorem issuer?_of_none (h : PartOf t whole alone) (hnone : whole.engine.issuer? = none) :
    alone.engine.issuer? = none := by
  rw [h.engine, Engine.issuer?_part, hnone, Option.bind_none]

/-- **What happens next to the part happens next in it.** -/
theorem next? (h : PartOf t whole alone) {happening : Happening}
    (hnext : whole.next? = some happening) (hfor : happening.isFor t whole.engine = true) :
    alone.next? = some happening := by
  refine next?_eq_some_iff.mpr ?_
  -- Whatever comes before it in the whole is not there, so it is not there in the part.
  cases next?_eq_some_iff.mp hnext with
  | delivers delivery =>
    exact .delivers (by rw [h.engine]; exact Engine.delivery?_part delivery hfor)
  | closes quiet closing =>
    exact .closes (h.delivery?_of_none quiet)
      (by rw [h.engine]; exact Engine.closing?_part closing hfor)
  | @moves c quiet runs due =>
    refine .moves (h.delivery?_of_none quiet) (h.isRunning.trans runs) ?_
    rw [Traffic.due?, h.calls, h.engine]
    exact find?_filter_of_find? due hfor
  | calls quiet runs still issuer =>
    refine .calls (h.delivery?_of_none quiet) (h.isRunning.trans runs) (h.due?_of_none still) ?_
    rw [h.engine, Engine.issuer?_part]
    exact Engine.guard_of_lt issuer (of_decide_eq_true hfor)
  | cuts quiet runs still idle due =>
    refine .cuts (h.delivery?_of_none quiet) (h.isRunning.trans runs) (h.due?_of_none still)
      (h.issuer?_of_none idle) ?_
    rw [h.engine, Engine.dueMonitor?_part]
    exact Engine.guard_of_lt due (of_decide_eq_true hfor)

/-- Nothing happens in the part if nothing happens at all. -/
theorem next?_of_none (h : PartOf t whole alone) (hnext : whole.next? = none) :
    alone.next? = none := by
  obtain ⟨hdelivery, hclosing, hruns⟩ := next?_eq_none_iff.mp hnext
  refine next?_eq_none_iff.mpr ⟨h.delivery?_of_none hdelivery, ?_, fun hrunning => ?_⟩
  · rw [h.engine]
    exact Engine.closing?_part_of_none hclosing
  · obtain ⟨hdue, hissuer, hmonitor⟩ := hruns (h.isRunning.symm.trans hrunning)
    refine ⟨h.due?_of_none hdue, h.issuer?_of_none hissuer, ?_⟩
    rw [h.engine, Engine.dueMonitor?_part, hmonitor, Option.bind_none]

end PartOf

section Runs

variable {config : EngineConfig} {ps qs : List Profile} {delay : Span} {reply : Reply}

/-- What happens leaves the part as it is, or happens next in it, too. -/
def GoesAlong (t : Part) (whole alone : Simulation b) (h : Happening) : Prop :=
  PartOf t (whole.perform h) alone ∨
    alone.next? = some h ∧ PartOf t (whole.perform h) (alone.perform h)

/-- An action that no call has to do with. -/
theorem PartOf.goesAlong_action (accepted : Engine.check (ps ++ qs) = .ok ())
    (hreach : (Engine.start config (ps ++ qs)).Reaches whole.engine)
    (h : PartOf (Part.of ps) whole alone) {a : Action} (hnext : whole.next? = some (.action a)) :
    GoesAlong (Part.of ps) whole alone (.action a) := by
  simp only [GoesAlong, perform, act_eq]
  -- An action of the others leaves the part behind; one of the part is taken by it alone.
  cases hfor : whole.engine.isFor (Part.of ps) a with
  | false =>
    have hsame := Engine.part_after_of_not accepted hreach hfor
    exact .inl ⟨h.engine.trans hsame.symm, h.calls⟩
  | true =>
    cases hstep : whole.engine.step? a with
    | none =>
      rw [Engine.after_of_none hstep]
      exact .inl h
    | some result =>
      have hsame := Engine.part_after accepted hreach hfor fun hnone => by
        rw [hstep] at hnone
        cases hnone
      refine .inr ⟨h.next? hnext hfor, ?_, h.calls⟩
      show alone.engine.after a = (whole.engine.after a).part (Part.of ps)
      rw [h.engine, hsame]

/-- A request and its call. -/
theorem PartOf.goesAlong_call (accepted : Engine.check (ps ++ qs) = .ok ())
    (uniform : b.Uniform delay reply)
    (hreach : (Engine.start config (ps ++ qs)).Reaches whole.engine)
    (h : PartOf (Part.of ps) whole alone) {i : Nat} (hnext : whole.next? = some (.call i)) :
    GoesAlong (Part.of ps) whole alone (.call i) := by
  simp only [GoesAlong, perform]
  cases hstep : whole.engine.step? (.issue i) with
  | none =>
    rw [call_of_none hstep]
    exact .inl h
  | some result =>
    obtain ⟨e, shown⟩ := result
    obtain ⟨endpoint, hcall⟩ := call_of_issue uniform hstep
    rw [hcall]
    by_cases hi : i < (Part.of ps).instances
    · -- The same call sets out in the part.
      obtain ⟨told, hpart⟩ := Engine.step?_part accepted hreach hstep (decide_eq_true hi)
      rw [← h.engine] at hpart
      obtain ⟨endpoint', hcall'⟩ := call_of_issue uniform hpart
      refine .inr ⟨h.next? hnext (decide_eq_true hi), ?_⟩
      rw [hcall']
      refine ⟨rfl, ?_⟩
      rw [Traffic.part_append hi, h.engine, Traffic.append, h.calls]
      rfl
    -- A call of the others does not show in the part.
    · refine .inl ⟨?_, ?_⟩
      · rw [Engine.part_of_step? accepted hreach hstep (decide_eq_false hi)]
        exact h.engine
      · rw [Traffic.part_append_of_not hi]
        exact h.calls

/-- The return of a call. -/
theorem PartOf.goesAlong_move (accepted : Engine.check (ps ++ qs) = .ok ())
    (hreach : (Engine.start config (ps ++ qs)).Reaches whole.engine)
    (hplain : whole.traffic.Plain reply) (h : PartOf (Part.of ps) whole alone) {c : Call}
    (hnext : whole.next? = some (.move c)) : GoesAlong (Part.of ps) whole alone (.move c) := by
  -- The call that moves is a plain one, which returns when it moves.
  have hdue : c ∈ whole.traffic.calls := by
    cases next?_eq_some_iff.mp hnext with
    | moves quiet runs due => exact mem_of_due? due
  obtain ⟨wake, hc⟩ := hplain c hdue
  by_cases hi : c.id < (Part.of ps).instances
  · refine .inr ⟨h.next? hnext (decide_eq_true hi), ?_⟩
    rw [hc, expired, expired]
    refine ⟨?_, ?_⟩
    · show alone.engine.afterReturn c.id reply = _
      rw [h.engine, Engine.part_afterReturn accepted hreach hi]
    · rw [Traffic.part_without hi, Traffic.without, h.calls]
  · rw [hc, GoesAlong, expired]
    refine .inl ⟨?_, ?_⟩
    · show _ = (whole.engine.afterReturn c.id reply).part _
      rw [Engine.part_afterReturn_of_not accepted hreach hi]
      exact h.engine
    · rw [Traffic.part_without_of_not hi]
      exact h.calls

/-- **Whatever happens, the part goes along.** -/
theorem PartOf.goesAlong (accepted : Engine.check (ps ++ qs) = .ok ())
    (uniform : b.Uniform delay reply)
    (hreach : (Engine.start config (ps ++ qs)).Reaches whole.engine)
    (hplain : whole.traffic.Plain reply) (h : PartOf (Part.of ps) whole alone)
    {happening : Happening} (hnext : whole.next? = some happening) :
    GoesAlong (Part.of ps) whole alone happening := by
  cases happening with
  | action a => exact h.goesAlong_action accepted hreach hnext
  | call i => exact h.goesAlong_call accepted uniform hreach hnext
  | move c => exact h.goesAlong_move accepted hreach hplain hnext

/-! ### Time -/

/-- Time passes in the part as it does in the whole. -/
theorem PartOf.advance (h : PartOf t whole alone) (target : Nat) :
    PartOf t (whole.act (.advance target)) (alone.act (.advance target)) := by
  simp only [act_eq]
  refine ⟨?_, h.calls⟩
  show alone.engine.after _ = (whole.engine.after _).part t
  have hnow : (whole.engine.part t).now = whole.engine.now := rfl
  rw [h.engine, Engine.after_advance, Engine.after_advance, hnow]
  by_cases hpasses : whole.engine.now ≤ target ∧ target ≤ Clock.range
  · rw [if_pos hpasses, if_pos hpasses]
    rfl
  · rw [if_neg hpasses, if_neg hpasses]

/-- The owner of the run tells the part to end, too. -/
theorem PartOf.told (h : PartOf t whole alone) (flushes : Bool) :
    PartOf t (whole.told flushes) (alone.told flushes) := by
  simp only [Simulation.told, act_eq]
  refine ⟨?_, rfl⟩
  show alone.engine.after _ = (whole.engine.after _).part t
  rw [h.engine, Engine.after_stop, Engine.after_stop, Engine.isRunning_part]
  by_cases hruns : whole.engine.isRunning = true
  · rw [if_pos hruns, if_pos hruns]
    rfl
  · rw [if_neg hruns, if_neg hruns]

/-- The part waits for no other timers than the whole. -/
theorem PartOf.le_wake (target : Nat) (h : PartOf t whole alone)
    (hwake : ∀ wake, whole.nextWake? = some wake → target ≤ wake) :
    ∀ wake, alone.nextWake? = some wake → target ≤ wake := by
  cases hruns : whole.engine.isRunning with
  | false =>
    -- A run that was told to end waits for no timers.
    intro wake hw
    rw [nextWake?, h.isRunning, hruns] at hw
    cases hw
  | true =>
    obtain ⟨hcalls, hinstances, hmonitors⟩ := (le_nextWake?_iff target hruns).mp hwake
    refine (le_nextWake?_iff target (h.isRunning.trans hruns)).mpr ⟨?_, ?_, ?_⟩
    · rw [h.calls]
      exact fun c hc => hcalls c (List.mem_of_mem_filter hc)
    · rw [h.engine]
      exact fun inst hinst => hinstances inst (List.mem_of_mem_take hinst)
    · rw [h.engine]
      exact fun m hm => hmonitors m (List.mem_of_mem_take hm)

/-- No timer depends on what the time is. -/
theorem nextWake?_advance (s : Simulation b) (now : Nat) :
    (s.act (.advance now)).nextWake? = s.nextWake? := by
  rw [act_eq, Engine.after_advance]
  split <;> rfl

/-- Time that passes twice passes. -/
theorem act_advance_advance {now : Nat} (hpasses : s.engine.now ≤ now) (hnow : now ≤ target)
    (hrange : target ≤ Clock.range) :
    (s.act (.advance now)).act (.advance target) = s.act (.advance target) := by
  have hfirst : s.engine.after (.advance now) = { s.engine with now } := by
    rw [Engine.after_advance, if_pos ⟨hpasses, Nat.le_trans hnow hrange⟩]
  have hsecond : s.engine.after (.advance target) = { s.engine with now := target } := by
    rw [Engine.after_advance, if_pos ⟨Nat.le_trans hpasses hnow, hrange⟩]
  simp only [act_eq, hfirst, hsecond]
  rw [Engine.after_advance, if_pos ⟨hnow, hrange⟩]

/-- **Time may pass in pieces**, up to any instant before the next timer. -/
theorem goes_of_advance {now : Nat} (quiet : s.next? = none)
    (hwake : ∀ wake, s.nextWake? = some wake → now ≤ wake) (hnow : now ≤ target)
    (hrange : target ≤ Clock.range) (h : Goes target (s.act (.advance now)) s') :
    Goes target s s' := by
  by_cases hpasses : s.engine.now ≤ now
  · by_cases htimer : s.nextWake? = some now
    · exact .passes quiet htimer hnow h
    · -- Nothing happens at this instant, so time goes on from it to where it would have gone.
      have hlater : ∀ wake, s.nextWake? = some wake → now < wake := fun wake hw =>
        Nat.lt_of_le_of_ne (hwake wake hw) fun heq => htimer (heq ▸ hw)
      have hquiet := next?_advance quiet hlater
      cases h with
      | happens next rest => rw [hquiet] at next; cases next
      | passes _ wake within rest =>
        rw [nextWake?_advance] at wake
        rw [act_advance_advance hpasses (hwake _ wake) (Nat.le_trans within hrange)] at rest
        exact .passes quiet wake within rest
      | arrives _ beyond =>
        rw [nextWake?_advance] at beyond
        rw [act_advance_advance hpasses hnow hrange]
        exact .arrives quiet beyond
  · -- Time does not go back.
    have hsame : s.act (.advance now) = s := by
      rw [act_eq, Engine.after_advance, if_neg fun hboth => hpasses hboth.1]
    rwa [hsame] at h

/-- What happens next leads to a state that can be reached. -/
theorem reaches_perform {e : Engine} (hreach : e.Reaches s.engine) {happening : Happening}
    (hnext : s.next? = some happening) : e.Reaches (s.perform happening).engine :=
  hreach.trans (prompt_perform s hnext).reaches

/-- **Everything up to an instant happens in the part alone**, too. -/
theorem Goes.part (accepted : Engine.check (ps ++ qs) = .ok ()) (uniform : b.Uniform delay reply)
    (hrange : target ≤ Clock.range) (h : Goes target whole whole')
    (hreach : (Engine.start config (ps ++ qs)).Reaches whole.engine)
    (hplain : whole.traffic.Plain reply) (hpart : PartOf (Part.of ps) whole alone) :
    ∃ alone', Goes target alone alone' ∧ PartOf (Part.of ps) whole' alone' := by
  induction h generalizing alone with
  | happens next rest ih =>
    have hplain' := plain_perform uniform hplain next
    -- What happens belongs to the part, which does the same, or to the others, and the part waits.
    rcases hpart.goesAlong accepted uniform hreach hplain next with hsame | ⟨hnext, hboth⟩
    · exact ih (reaches_perform hreach next) hplain' hsame
    · obtain ⟨alone', hgoes, hlast⟩ := ih (reaches_perform hreach next) hplain' hboth
      exact ⟨alone', .happens hnext hgoes, hlast⟩
  | @passes whole _ now quiet wake within rest ih =>
    -- The part may have no timer at this instant, but it has none before it.
    have hle : ∀ wake, whole.nextWake? = some wake → now ≤ wake := fun w hw => by
      rw [wake] at hw
      exact Nat.le_of_eq (Option.some.inj hw)
    obtain ⟨alone', hgoes, hlast⟩ := ih (hreach.trans (reaches_act whole _)) (by
      rw [act_eq]
      exact hplain) (hpart.advance now)
    exact ⟨alone', goes_of_advance (hpart.next?_of_none quiet) (hpart.le_wake _ hle) within hrange
      hgoes, hlast⟩
  | @arrives whole quiet beyond =>
    refine ⟨_, .arrives (hpart.next?_of_none quiet) ?_, hpart.advance target⟩
    exact hpart.le_wake (target + 1) beyond

end Runs

end Simulation

end ClosedLoop
