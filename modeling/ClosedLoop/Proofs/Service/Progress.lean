import ClosedLoop.Proofs.Service.Moves
import Mathlib.Data.List.Forall2

namespace ClosedLoop

/-!
# What a move does to each call

A call that is placed goes inside its next stage or waits for it. When its timer fires it goes on
inside its stage, or to the next one, or returns; meanwhile a call that waits may be admitted, and
all others stay where they are.

* `Call.Placed`, `Call.Admitted`, `Call.Goes` — the new places of a call;
* `Traffic.submit_cases`, `Traffic.expire_cases` — **all that a move does**, call by call.
-/

/-- The call that a passage shows returning, with its reply. -/
def Passage.returned? : Passage → Option (Nat × Reply)
  | .returns call reply => some (call, reply)
  | _ => none

/-- A return is known by its call and its reply. -/
theorem Passage.returned?_eq_some_iff {p : Passage} {call : Nat} {reply : Reply} :
    p.returned? = some (call, reply) ↔ p = .returns call reply := by
  cases p <;> simp [returned?]

namespace Call

/-- The places of a call that has such stages ahead and is sent to the first of them. -/
inductive Placed (now id : Nat) (reply : Option Reply) : List Stage → Call → Prop
  | enters (s : Stage) (later : List Stage) :
    Placed now id reply (s :: later) ⟨id, .enter now s.pool s.holds, later, reply⟩
  | waits (s : Stage) (later : List Stage) {pool : Pool} (hpool : s.pool = some pool) :
    Placed now id reply (s :: later) ⟨id, .queued pool s.holds, later, reply⟩
  | stays (hreply : reply = none) : Placed now id reply [] ⟨id, .unanswered, [], none⟩

/-- A call stays where it is, or is admitted to the stage that it waits for. -/
inductive Admitted (now : Nat) (c : Call) : Call → Prop
  | stays : Admitted now c c
  | enters {pool : Pool} {holds : List Span} (h : c.position = .queued pool holds) :
    Admitted now c { c with position := .enter now (some pool) holds }

/-- The next place of a call whose timer has fired: it goes on inside its stage or to the next. -/
inductive Goes (now : Nat) (c : Call) : Call → Prop
  | renews {pool : Option Pool} {wake : Nat} {d : Span} {holds : List Span}
    (h : c.position = .timed pool wake (d :: holds)) (hwake : wake ≤ now) :
    Goes now c { c with position := .timed pool (Clock.wake now d) holds }
  | passes {pool : Option Pool} {wake : Nat} {d : Call} (h : c.position = .timed pool wake [])
    (hwake : wake ≤ now) (hd : Placed now c.id c.reply c.later d) : Goes now c d

/-- The call returns: its timer has fired at the end of its last stage. -/
structure Ends (now : Nat) (c : Call) (reply : Reply) : Prop where
  timed : ∃ pool wake, c.position = .timed pool wake [] ∧ wake ≤ now
  last : c.later = []
  reply : c.reply = some reply

variable {now id : Nat} {reply : Option Reply} {stages : List Stage} {c d : Call}

/-- A call keeps its id when it is placed. -/
theorem Placed.id_eq (h : Placed now id reply stages d) : d.id = id := by
  cases h <;> rfl

/-- A call keeps its id when it is admitted. -/
theorem Admitted.id_eq (h : c.Admitted now d) : d.id = c.id := by
  cases h <;> rfl

/-- A call keeps its id when it goes on. -/
theorem Goes.id_eq (h : c.Goes now d) : d.id = c.id := by
  cases h with
  | renews => rfl
  | passes _ _ hd => exact hd.id_eq

end Call

namespace Traffic

variable {t : Traffic} {now : Nat} {c : Call}

/-- **A call that is placed** takes up a new position, or returns if no stage is left. -/
theorem place_cases (t : Traffic) (now id : Nat) (reply : Option Reply) (stages : List Stage) :
    (∃ d, Call.Placed now id reply stages d ∧
      (t.place now id reply stages).1.calls = t.calls ++ [d] ∧
      (t.place now id reply stages).2.filterMap Passage.returned? = []) ∨
    (∃ r, stages = [] ∧ reply = some r ∧
      (t.place now id reply stages).1.calls = t.calls ∧
      (t.place now id reply stages).2.filterMap Passage.returned? = [(id, r)]) := by
  cases stages with
  | nil =>
    cases reply with
    | some r => exact .inr ⟨r, rfl, rfl, rfl, rfl⟩
    | none => exact .inl ⟨_, .stays rfl, rfl, rfl⟩
  | cons s later =>
    refine .inl ?_
    have henters : Call.Placed now id reply (s :: later)
        ⟨id, .enter now s.pool s.holds, later, reply⟩ := .enters s later
    -- With a stage left there is always a new position, inside the stage or in its queue.
    rw [place]
    cases hpool : s.pool with
    | none =>
      rw [hpool] at henters
      exact ⟨_, henters, rfl, rfl⟩
    | some pool =>
      rw [hpool] at henters
      simp only
      split
      · exact ⟨_, henters, rfl, rfl⟩
      · exact ⟨_, .waits s later hpool, rfl, rfl⟩

/-- A released place admits one call at most, and nobody returns. -/
theorem release_cases (hnodup : t.ids.Nodup) (now : Nat) (pool : Option Pool) :
    ∃ calls, (t.release now pool).1.calls.Perm calls ∧
      List.Forall₂ (Call.Admitted now) t.calls calls ∧
      (t.release now pool).2.filterMap Passage.returned? = [] := by
  have hstay (calls : List Call) : List.Forall₂ (Call.Admitted now) calls calls :=
    List.forall₂_same.mpr fun _ _ => .stays
  cases pool with
  | none => exact ⟨t.calls, List.Perm.refl _, hstay _, rfl⟩
  | some p =>
    rw [release, grant]
    cases hfirst : t.calls.find? (·.waitsFor p) with
    | none => exact ⟨t.calls, List.Perm.refl _, hstay _, rfl⟩
    | some c =>
      obtain ⟨holds, hpos⟩ := position_of_waitsFor (by simpa using List.find?_some hfirst)
      -- The one who is let in stays at its place among the calls, up to order.
      obtain ⟨before, behind, hcalls, hwithout⟩ :=
        calls_without hnodup (List.mem_of_find?_eq_some hfirst)
      simp only [hpos]
      refine ⟨before ++ { c with position := .enter now (some p) holds } :: behind, ?_, ?_, rfl⟩
      · rw [append, hwithout, List.append_assoc]
        exact (List.perm_append_singleton _ _).append_left before
      · rw [hcalls]
        exact List.rel_append (hstay before) (.cons (.enters hpos) (hstay behind))

/-- **All that the next move of a call does**: it goes on or returns, and of the others some may be
admitted to the stages that they wait for. -/
theorem expire_cases (hnodup : t.ids.Nodup) (hc : c ∈ t.calls) (hdue : c.isDue now = true) :
    ∃ others admitted, t.calls.Perm (c :: others) ∧
      List.Forall₂ (Call.Admitted now) others admitted ∧
      ((∃ d, c.Goes now d ∧ (t.expire now c).1.calls.Perm (d :: admitted) ∧
          (t.expire now c).2.filterMap Passage.returned? = []) ∨
        ∃ r, c.Ends now r ∧ (t.expire now c).1.calls.Perm admitted ∧
          (t.expire now c).2.filterMap Passage.returned? = [(c.id, r)]) := by
  obtain ⟨before, behind, hcalls, hwithout⟩ := calls_without hnodup hc
  have hperm : t.calls.Perm (c :: (t.without c.id).calls) := by
    rw [hcalls, hwithout]
    exact List.perm_middle
  have hrest : (t.without c.id).ids.Nodup := by
    rw [ids_without hnodup hc]
    exact hnodup.erase c.id
  -- Only inside a stage a timer can fire.
  rw [expire]
  cases hpos : c.position with
  | queued p holds => simp [Call.isDue, Call.wake?, hpos] at hdue
  | unanswered => simp [Call.isDue, Call.wake?, hpos] at hdue
  | timed pool wake holds =>
    have hwake : wake ≤ now := by simpa [Call.isDue, Call.wake?, hpos] using hdue
    cases holds with
    | cons d rest =>
      refine ⟨(t.without c.id).calls, _, hperm, List.forall₂_same.mpr fun _ _ => .stays,
        .inl ⟨_, .renews hpos hwake, List.perm_append_singleton _ _, rfl⟩⟩
    | nil =>
      obtain ⟨admitted, hreleased, hadmitted, hgranted⟩ := release_cases hrest now pool
      -- The stage is over: its place goes to the next call, and this one goes on.
      refine ⟨(t.without c.id).calls, admitted, hperm, hadmitted, ?_⟩
      have hleaves : Passage.returned? (.leaves c.id pool) = none := rfl
      simp only [List.filterMap_cons_none hleaves, List.filterMap_append, hgranted,
        List.nil_append]
      rcases place_cases ((t.without c.id).release now pool).1 now c.id c.reply c.later with
        ⟨d, hd, hplaced, hpassages⟩ | ⟨r, hlast, hreply, hplaced, hpassages⟩
      · refine .inl ⟨d, .passes hpos hwake hd, ?_, hpassages⟩
        rw [hplaced]
        exact (List.perm_append_singleton _ _).trans (hreleased.cons d)
      · refine .inr ⟨r, ⟨⟨pool, wake, hpos, hwake⟩, hlast, hreply⟩, ?_, hpassages⟩
        rw [hplaced]
        exact hreleased

end Traffic

end ClosedLoop
