import ClosedLoop.Proofs.Clock
import ClosedLoop.Proofs.Service.Custody

namespace ClosedLoop

/-!
# When calls return

A call that is not held up any more returns when the times that are still to come are over. Moves
never bring that moment closer, and neither does waiting; so a call never returns earlier than it
would if it were alone.

* `Itinerary.wait_le_finishOf`, `Itinerary.finishOf_eq` — how long times take one after the other;
* `Call.finish` — when the call returns if it is not held up any more;
* `Arrival.Covers`, `Arrivals.Punctual` — the calls in service and the returns are those of the
  arrivals, and none is early;
* `Arrivals.Leads.punctual` — **no call returns earlier than alone**, in any schedule.
-/

/-! ### Times that follow each other -/

namespace Itinerary

variable {now t : Nat}

/-- Stages take time. -/
theorem le_finishOf (now : Nat) (times : List Span) : now ≤ finishOf now times := by
  induction times generalizing now with
  | nil => exact Nat.le_refl now
  | cons d rest ih => exact Nat.le_trans (Clock.le_wake now d) (ih _)

/-- Who starts later finishes no earlier. -/
theorem finishOf_mono (h : now ≤ t) (times : List Span) :
    finishOf now times ≤ finishOf t times := by
  induction times generalizing now t with
  | nil => exact h
  | cons d rest ih => exact ih (Clock.wake_mono h d)

/-- Times that follow each other take their sum at least, apart from the limit to a single wait. -/
theorem wait_le_finishOf (now : Nat) (times : List Span) :
    now + (times.map fun d => min d.nanos Clock.longestWait).sum ≤ finishOf now times := by
  induction times generalizing now with
  | nil => exact Nat.le_refl now
  | cons d rest ih =>
    have hfirst := Clock.wait_le_wake now d
    have hrest := ih (Clock.wake now d)
    rw [List.map_cons, List.sum_cons, finishOf]
    omega

/-- From a whole millisecond on they take the sum of their pauses. -/
theorem finishOf_eq (h : Clock.tick ∣ now) (times : List Span) :
    finishOf now times = now + (times.map Clock.pause).sum := by
  induction times generalizing now with
  | nil => rfl
  | cons d rest ih =>
    rw [finishOf, ih (Clock.tick_dvd_wake h d), Clock.wake_eq_add_pause h, List.map_cons,
      List.sum_cons, Nat.add_assoc]

end Itinerary

/-! ### When a call returns -/

/-- The times that follow at a position. -/
def Position.holds : Position → List Span
  | .queued _ holds => holds
  | .timed _ _ holds => holds
  | .unanswered => []

namespace Call

/-- The times that are still to come after the present timer. -/
def toCome (c : Call) : List Span := c.position.holds ++ c.later.flatMap (·.holds)

/-- When the call returns if it is not held up from now on. -/
def finish (now : Nat) (c : Call) : Nat := Itinerary.finishOf (c.wake?.getD now) c.toCome

variable {now id : Nat} {reply : Option Reply} {stages : List Stage} {c d : Call}

/-- A call has the reply of its itinerary. -/
theorem Placed.reply_eq (h : Placed now id reply stages d) : d.reply = reply := by
  cases h with
  | stays hreply => exact hreply.symm
  | _ => rfl

/-- A call that is admitted keeps its reply. -/
theorem Admitted.reply_eq (h : c.Admitted now d) : d.reply = c.reply := by
  cases h <;> rfl

/-- A call that goes on keeps its reply. -/
theorem Goes.reply_eq (h : c.Goes now d) : d.reply = c.reply := by
  cases h with
  | renews => rfl
  | passes _ _ hd => exact hd.reply_eq

/-- A call that stays for ever has no reply. -/
theorem Placed.silent (h : Placed now id reply stages d) (hd : d.position = .unanswered) :
    d.reply = none := by
  cases h with
  | enters s later =>
    obtain ⟨wake, rest, henter⟩ := Traffic.position_enter now s.pool s.holds
    rw [henter] at hd
    cases hd
  | waits => cases hd
  | stays => rfl

/-- A call that is admitted and stays for ever has no reply. -/
theorem Admitted.silent (h : c.Admitted now d) (hc : c.position = .unanswered → c.reply = none)
    (hd : d.position = .unanswered) : d.reply = none := by
  cases h with
  | stays => exact hc hd
  | @enters pool holds =>
    obtain ⟨wake, rest, henter⟩ := Traffic.position_enter now (some pool) holds
    rw [henter] at hd
    cases hd

/-- A call that goes on and stays for ever has no reply. -/
theorem Goes.silent (h : c.Goes now d) (hd : d.position = .unanswered) : d.reply = none := by
  cases h with
  | renews => cases hd
  | passes _ _ hplaced => exact hplaced.silent hd

/-- Inside a stage that a call enters, its times begin at once. -/
theorem finish_enter (id : Nat) (pool : Option Pool) (holds : List Span) (later : List Stage)
    (reply : Option Reply) :
    finish now ⟨id, .enter now pool holds, later, reply⟩ =
      Itinerary.finishOf now (holds ++ later.flatMap (·.holds)) := by
  cases holds <;> rfl

/-- A call that is placed is to finish behind its stages. -/
theorem Placed.finish_eq (h : Placed now id reply stages d) :
    d.finish now = Itinerary.finishOf now (stages.flatMap (·.holds)) := by
  cases h with
  | enters s later =>
    rw [finish_enter]
    rfl
  | waits s later hpool => rfl
  | stays hreply => rfl

/-- To be admitted does not make a call finish earlier or later. -/
theorem Admitted.finish_eq (h : c.Admitted now d) : d.finish now = c.finish now := by
  cases h with
  | stays => rfl
  | enters hpos =>
    rw [finish_enter, finish, toCome, wake?, hpos]
    rfl

/-- A call that goes on after its timer does not return earlier than it seemed. -/
theorem Goes.finish_le (h : c.Goes now d) : c.finish now ≤ d.finish now := by
  cases h with
  | renews hpos hwake =>
    rw [finish, finish, toCome, wake?, hpos]
    exact Itinerary.finishOf_mono hwake _
  | passes hpos hwake hd =>
    rw [hd.finish_eq, finish, toCome, wake?, hpos]
    exact Itinerary.finishOf_mono hwake _

/-- If its timer has just fired, neither does it return later. -/
theorem Goes.finish_eq (h : c.Goes now d) (hontime : ∀ wake, c.wake? = some wake → now ≤ wake) :
    d.finish now = c.finish now := by
  cases h with
  | @renews _ wake _ _ hpos hwake =>
    obtain rfl : wake = now := Nat.le_antisymm hwake (hontime wake (by rw [wake?, hpos]))
    rw [finish, finish, toCome, wake?, wake?, toCome, hpos]
    rfl
  | @passes _ wake _ hpos hwake hd =>
    obtain rfl : wake = now := Nat.le_antisymm hwake (hontime wake (by rw [wake?, hpos]))
    rw [hd.finish_eq, finish, toCome, wake?, hpos]
    rfl

/-- A call that returns is not early. -/
theorem Ends.finish_le {r : Reply} (h : c.Ends now r) : c.finish now ≤ now := by
  obtain ⟨pool, wake, hpos, hwake⟩ := h.timed
  rw [finish, toCome, wake?, hpos, h.last]
  exact hwake

/-- A call that is looked at later finishes no earlier. -/
theorem finish_mono (c : Call) {t : Nat} (h : now ≤ t) : c.finish now ≤ c.finish t := by
  refine Itinerary.finishOf_mono ?_ _
  cases c.wake? with
  | none => exact h
  | some wake => exact Nat.le_refl wake

end Call

/-! ### The calls of arrivals -/

/-- A call in service is that of an arrival, and it will not return earlier than alone. -/
structure Arrival.Covers (a : Arrival) (now : Nat) (c : Call) : Prop where
  arrived : a.instant ≤ now
  id : c.id = a.id
  reply : c.reply = a.itinerary.reply
  /-- Only a call without a reply stays for ever. -/
  silent : c.position = .unanswered → c.reply = none
  finish : Itinerary.finishOf a.instant a.itinerary.holds ≤ c.finish now

namespace Arrival.Covers

variable {a : Arrival} {now t : Nat} {c d : Call}

/-- A call that arrives is covered by its arrival. -/
theorem placed (hdue : a.instant ≤ now)
    (hd : Call.Placed now a.id a.itinerary.reply a.itinerary.stages d) : a.Covers now d where
  arrived := hdue
  id := hd.id_eq
  reply := hd.reply_eq
  silent := hd.silent
  finish := by
    rw [hd.finish_eq]
    exact Itinerary.finishOf_mono hdue _

/-- A call that is admitted stays covered. -/
theorem admitted (h : a.Covers now c) (hd : c.Admitted now d) : a.Covers now d where
  arrived := h.arrived
  id := hd.id_eq.trans h.id
  reply := hd.reply_eq.trans h.reply
  silent := hd.silent h.silent
  finish := by
    rw [hd.finish_eq]
    exact h.finish

/-- A call that goes on stays covered. -/
theorem goes (h : a.Covers now c) (hd : c.Goes now d) : a.Covers now d where
  arrived := h.arrived
  id := hd.id_eq.trans h.id
  reply := hd.reply_eq.trans h.reply
  silent := hd.silent
  finish := Nat.le_trans h.finish hd.finish_le

/-- Time does not uncover a call. -/
theorem later (h : a.Covers now c) (ht : now ≤ t) : a.Covers t c where
  arrived := Nat.le_trans h.arrived ht
  id := h.id
  reply := h.reply
  silent := h.silent
  finish := Nat.le_trans h.finish (c.finish_mono ht)

end Arrival.Covers

namespace Arrivals

/-- A return is that of an arrival, with its reply, and not earlier than alone. -/
structure Settles (a : Arrival) (now t id : Nat) (reply : Reply) : Prop where
  id : id = a.id
  reply : a.itinerary.reply = some reply
  finish : Itinerary.finishOf a.instant a.itinerary.holds ≤ t
  past : t ≤ now

/-- The calls that are to arrive, those in service and the returns are those of the arrivals, and
    none is early. -/
structure Punctual (arrivals : List Arrival) (s : Arrivals) : Prop where
  pending : ∀ a ∈ s.pending, a ∈ arrivals
  calls : ∀ c ∈ s.traffic.calls, ∃ a ∈ arrivals, a.Covers s.now c
  returns : ∀ t id reply, (t, id, reply) ∈ s.returns → ∃ a ∈ arrivals, Settles a s.now t id reply

variable {arrivals : List Arrival} {s s' first : Arrivals} {n : Nat}

/-- At first every call is still to arrive. -/
theorem punctual_start (capacity : Pool → Nat) (arrivals : List Arrival) :
    (start capacity arrivals).Punctual arrivals where
  pending _ ha := (pending_start capacity arrivals).mem_iff.mp ha
  calls _ hc := absurd hc List.not_mem_nil
  returns _ _ _ h := absurd h List.not_mem_nil

namespace Punctual

/-- Of a call that was covered and the others, the others are covered when some are admitted. -/
theorem admitted (hs : s.Punctual arrivals) {c : Call} {others admitted : List Call}
    (hcalls : s.traffic.calls.Perm (c :: others))
    (hadmitted : List.Forall₂ (Call.Admitted s.now) others admitted) :
    ∀ d ∈ admitted, ∃ a ∈ arrivals, a.Covers s.now d := by
  intro d hd
  obtain ⟨x, hx, hone⟩ := exists_of_mem_admitted hadmitted hd
  obtain ⟨a, ha, hcovers⟩ := hs.calls x (hcalls.mem_iff.mpr (List.mem_cons_of_mem _ hx))
  exact ⟨a, ha, hcovers.admitted hone⟩

/-- A call that arrives was to arrive, and so were the others. -/
theorem arriving (hs : s.Punctual arrivals) {a : Arrival} {rest : List Arrival}
    (hpending : s.pending.Perm (a :: rest)) : a ∈ arrivals ∧ ∀ b ∈ rest, b ∈ arrivals :=
  ⟨hs.pending a (hpending.mem_iff.mpr List.mem_cons_self),
    fun b hb => hs.pending b (hpending.mem_iff.mpr (List.mem_cons_of_mem a hb))⟩

/-- One more return. -/
theorem returning (hs : s.Punctual arrivals) {a : Arrival} {id : Nat} {reply : Reply}
    (ha : a ∈ arrivals) (hsettles : Settles a s.now s.now id reply) :
    ∀ t i r, (t, i, r) ∈ (s.now, id, reply) :: s.returns →
      ∃ b ∈ arrivals, Settles b s.now t i r := by
  intro t i r hmem
  rcases List.mem_cons.mp hmem with hnew | hold
  · cases hnew
    exact ⟨a, ha, hsettles⟩
  · exact hs.returns t i r hold

end Punctual

/-- Every step is punctual. -/
theorem Changes.punctual (h : s.Changes s') (hs : s.Punctual arrivals) : s'.Punctual arrivals := by
  cases h with
  | goes hnow hpending hcalls hadmitted hgoes hcalls' hreturns =>
    refine ⟨by rw [hpending]; exact hs.pending, ?_, by rw [hreturns, hnow]; exact hs.returns⟩
    rw [hnow]
    intro e he
    -- The call that goes on stays covered, and the others at most are admitted.
    rcases List.mem_cons.mp (hcalls'.mem_iff.mp he) with rfl | hother
    · obtain ⟨a, ha, hcovers⟩ := hs.calls _ (hcalls.mem_iff.mpr List.mem_cons_self)
      exact ⟨a, ha, hcovers.goes hgoes⟩
    · exact hs.admitted hcalls hadmitted e hother
  | @ends c r _ _ hnow hpending hcalls hadmitted hends hcalls' hreturns =>
    obtain ⟨a, ha, hcovers⟩ := hs.calls c (hcalls.mem_iff.mpr List.mem_cons_self)
    refine ⟨by rw [hpending]; exact hs.pending, ?_, ?_⟩
    · rw [hnow]
      intro e he
      exact hs.admitted hcalls hadmitted e (hcalls'.mem_iff.mp he)
    · rw [hnow, hreturns]
      -- It returns when its last stage is over, which is not before its itinerary ends.
      exact hs.returning ha ⟨hcovers.id, hcovers.reply.symm.trans hends.reply,
        Nat.le_trans hcovers.finish hends.finish_le, Nat.le_refl _⟩
  | @arrives a _ hnow hdue hpending hd hcalls' hreturns =>
    obtain ⟨ha, hrest⟩ := hs.arriving hpending
    refine ⟨hrest, ?_, by rw [hreturns, hnow]; exact hs.returns⟩
    rw [hnow]
    intro e he
    rcases List.mem_cons.mp (hcalls'.mem_iff.mp he) with rfl | hold
    · exact ⟨a, ha, .placed hdue hd⟩
    · exact hs.calls e hold
  | @turns a r hnow hdue hpending hstages hreply hcalls' hreturns =>
    obtain ⟨ha, hrest⟩ := hs.arriving hpending
    -- Without stages the itinerary takes no time.
    have hholds : a.itinerary.holds = [] := by rw [Itinerary.holds, hstages]; rfl
    refine ⟨hrest, by rw [hcalls', hnow]; exact hs.calls, ?_⟩
    rw [hnow, hreturns]
    exact hs.returning ha ⟨rfl, hreply, by rw [hholds]; exact hdue, Nat.le_refl _⟩
  | waits hlater hnext hs' =>
    subst hs'
    have hle := Nat.le_of_lt hlater
    refine ⟨hs.pending, fun c hc => ?_, fun u id reply hmem => ?_⟩
    · obtain ⟨a, ha, hcovers⟩ := hs.calls c hc
      exact ⟨a, ha, hcovers.later hle⟩
    · obtain ⟨a, ha, hsettles⟩ := hs.returns u id reply hmem
      exact ⟨a, ha, { hsettles with past := Nat.le_trans hsettles.past hle }⟩

/-- **No call returns earlier than it would alone**, and each returns with its own reply, in any
schedule. -/
theorem Leads.punctual {capacity : Pool → Nat} (h : Leads (start capacity arrivals) n s)
    (hids : (arrivals.map Arrival.id).Nodup) : s.Punctual arrivals :=
  h.invariant ((known_start capacity arrivals).nodup_iff.mpr hids)
    (punctual_start capacity arrivals) fun _ _ _ _ hchanges => hchanges.punctual

end Arrivals

end ClosedLoop
