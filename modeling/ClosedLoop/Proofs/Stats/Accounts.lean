import ClosedLoop.Stats.Ledger
import Mathlib.Tactic.Tauto

namespace ClosedLoop

/-!
# The accounts of a ledger as a finite map

A ledger keeps its accounts in a list that ascends strictly in the client ids.

* `Accounts.Ascending` — that order; `Ascending.insert`, `Ascending.modify` keep it;
* `lookup_insert`, `lookup_modify`, `lookup_map` — the list is a map from clients to accounts;
* `modify_modify`, `modify_comm`, `modify_congr` — accounts are replaced one by one.
-/

namespace Accounts

/-- The client ids of the accounts ascend strictly. -/
def Ascending (as : Accounts) : Prop := (as.map Prod.fst).Pairwise (· < ·)

/-- The accounts behind an account are in order. -/
theorem Ascending.tail {id : ClientId} {a : Account} {as : Accounts}
    (h : Ascending ((id, a) :: as)) : Ascending as := by
  rw [Ascending, List.map_cons, List.pairwise_cons] at h
  exact h.2

/-- The ids behind the first account are larger. -/
theorem Ascending.head_lt {id : ClientId} {a : Account} {as : Accounts}
    (h : Ascending ((id, a) :: as)) : ∀ entry ∈ as, id < entry.1 := by
  rw [Ascending, List.map_cons, List.pairwise_cons] at h
  intro entry hentry
  exact h.1 entry.1 (List.mem_map_of_mem hentry)

/-! ### Look-up -/

/-- The first account decides for its own client only. -/
theorem lookup_cons_eq {β : Type} (c other : ClientId) (a : β) (as : List (ClientId × β)) :
    List.lookup c ((other, a) :: as) = if c = other then some a else as.lookup c := by
  by_cases h : c = other
  · simp [h]
  · have hb : (c == other) = false := by simpa using h
    simp only [List.lookup_cons, hb, if_neg h]

/-- A client is found in the new account, or where it was before. -/
theorem lookup_insert (id c : ClientId) (a : Account) (as : Accounts) :
    (insert id a as).lookup c = if c = id then some a else as.lookup c := by
  induction as with
  | nil => simp only [insert, lookup_cons_eq]
  | cons entry rest ih =>
    obtain ⟨other, b⟩ := entry
    -- The new account replaces the one of the same client, or it is put before the first larger id.
    by_cases hsame : id = other
    · subst hsame
      by_cases h : c = id <;> simp [insert, lookup_cons_eq, h]
    · by_cases hlt : id < other
      · simp only [insert, hsame, hlt, if_false, if_true, lookup_cons_eq]
      · simp only [insert, hsame, hlt, if_false, lookup_cons_eq, ih]
        by_cases h : c = id
        · subst h; simp [hsame]
        · simp [h]

/-- A change is seen by its own client only. -/
theorem lookup_modify (id c : ClientId) (f : Account → Account) (as : Accounts) :
    (modify id f as).lookup c = if c = id then (as.lookup c).map f else as.lookup c := by
  induction as with
  | nil => simp [modify]
  | cons entry rest ih =>
    obtain ⟨other, a⟩ := entry
    by_cases hsame : id = other
    · subst hsame
      by_cases h : c = id <;> simp [modify, lookup_cons_eq, h]
    · simp only [modify, hsame, if_false, lookup_cons_eq, ih]
      by_cases h : c = id
      · subst h; simp [hsame]
      · simp [h]

/-- What is made of the accounts one by one is found under the same clients. -/
theorem lookup_map {β : Type} (c : ClientId) (f : ClientId → Account → β) (as : Accounts) :
    List.lookup c (as.map fun entry => (entry.1, f entry.1 entry.2)) = (as.lookup c).map (f c) := by
  induction as with
  | nil => rfl
  | cons entry rest ih =>
    obtain ⟨other, a⟩ := entry
    rw [List.map_cons, lookup_cons_eq, lookup_cons_eq, ih]
    by_cases h : c = other
    · subst h; rw [if_pos rfl, if_pos rfl, Option.map_some]
    · rw [if_neg h, if_neg h]

/-- An account that is found is one of the accounts. -/
theorem mem_of_lookup {c : ClientId} {a : Account} {as : Accounts}
    (h : as.lookup c = some a) : (c, a) ∈ as := by
  induction as with
  | nil => simp at h
  | cons entry rest ih =>
    obtain ⟨other, b⟩ := entry
    rw [lookup_cons_eq] at h
    by_cases hc : c = other
    · subst hc
      rw [if_pos rfl, Option.some.injEq] at h
      rw [h]; exact List.mem_cons_self
    · rw [if_neg hc] at h
      exact List.mem_cons_of_mem _ (ih h)

/-- In ascending accounts every member is found under its id. -/
theorem Ascending.lookup_eq {c : ClientId} {a : Account} {as : Accounts} (asc : Ascending as)
    (h : (c, a) ∈ as) : as.lookup c = some a := by
  induction as with
  | nil => simp at h
  | cons entry rest ih =>
    obtain ⟨other, b⟩ := entry
    rw [lookup_cons_eq]
    rcases List.mem_cons.mp h with heq | hrest
    · cases heq; rw [if_pos rfl]
    · have hlt : other < c := asc.head_lt (c, a) hrest
      rw [if_neg (UInt32.ne_of_lt hlt).symm]
      exact ih asc.tail hrest

/-! ### Order -/

/-- A change keeps the clients. -/
theorem map_fst_modify (id : ClientId) (f : Account → Account) (as : Accounts) :
    (modify id f as).map Prod.fst = as.map Prod.fst := by
  induction as with
  | nil => rfl
  | cons entry rest ih =>
    obtain ⟨other, a⟩ := entry
    by_cases h : id = other <;> simp [modify, h, ih]

/-- A change keeps the order. -/
theorem Ascending.modify {as : Accounts} (h : Ascending as) (id : ClientId)
    (f : Account → Account) : Ascending (as.modify id f) := by
  rw [Ascending, map_fst_modify]; exact h

/-- The clients after an insertion. -/
theorem mem_map_fst_insert {id c : ClientId} {a : Account} {as : Accounts} :
    c ∈ (insert id a as).map Prod.fst ↔ c = id ∨ c ∈ as.map Prod.fst := by
  induction as with
  | nil => simp [insert]
  | cons entry rest ih =>
    obtain ⟨other, b⟩ := entry
    by_cases hsame : id = other
    · subst hsame; simp [insert]
    · by_cases hlt : id < other
      · simp [insert, hsame, hlt]
      · simp only [insert, hsame, hlt, if_false, List.map_cons, List.mem_cons, ih]
        tauto

/-- An insertion keeps the order. -/
theorem Ascending.insert {as : Accounts} (h : Ascending as) (id : ClientId) (a : Account) :
    Ascending (as.insert id a) := by
  induction as with
  | nil => simp [Accounts.insert, Ascending]
  | cons entry rest ih =>
    obtain ⟨other, b⟩ := entry
    by_cases hsame : id = other
    · subst hsame
      simpa [Accounts.insert, Ascending] using h
    · -- A new account comes before the first larger id.
      by_cases hlt : id < other
      · simp only [Accounts.insert, hsame, hlt, if_false, if_true]
        refine List.pairwise_cons.mpr ⟨?_, h⟩
        intro c hc
        simp only [List.map_cons, List.mem_cons] at hc
        rcases hc with rfl | hc
        · exact hlt
        · obtain ⟨entry, hentry, rfl⟩ := List.mem_map.mp hc
          exact UInt32.lt_trans hlt (h.head_lt entry hentry)
      · simp only [Accounts.insert, hsame, hlt, if_false]
        refine List.pairwise_cons.mpr ⟨?_, ih h.tail⟩
        intro c hc
        rcases mem_map_fst_insert.mp hc with rfl | hc
        · exact UInt32.lt_of_le_of_ne (UInt32.not_lt.mp hlt) (Ne.symm hsame)
        · obtain ⟨entry, hentry, rfl⟩ := List.mem_map.mp hc
          exact h.head_lt entry hentry

/-! ### Replacing accounts -/

/-- Two changes of one account are one change. -/
theorem modify_modify (id : ClientId) (f g : Account → Account) (as : Accounts) :
    (as.modify id f).modify id g = as.modify id fun a => g (f a) := by
  induction as with
  | nil => rfl
  | cons entry rest ih =>
    rw [modify, modify]
    split
    next hid => rw [modify, if_pos hid]
    next hid => rw [modify, if_neg hid, ih]

/-- Changes of two clients can be made in either order. -/
theorem modify_comm {id other : ClientId} (hne : id ≠ other) (f g : Account → Account)
    (as : Accounts) : (as.modify id f).modify other g = (as.modify other g).modify id f := by
  induction as with
  | nil => rfl
  | cons entry rest ih =>
    obtain ⟨c, a⟩ := entry
    by_cases hid : id = c
    · have hother : other ≠ c := fun h => hne (hid.trans h.symm)
      simp [modify, hid, hother]
    · by_cases hother : other = c
      · simp [modify, hid, hother]
      · simp [modify, hid, hother, ih]

/-- Only the account found under the id is replaced. -/
theorem modify_congr {id : ClientId} {f g : Account → Account} {as : Accounts}
    (h : ∀ a, as.lookup id = some a → f a = g a) : as.modify id f = as.modify id g := by
  induction as with
  | nil => rfl
  | cons entry rest ih =>
    obtain ⟨c, a⟩ := entry
    rw [modify, modify]
    simp only [lookup_cons_eq] at h
    by_cases hid : id = c
    · rw [if_pos hid, if_pos hid, h a (if_pos hid)]
    · rw [if_neg hid, if_neg hid, ih fun b hb => h b ((if_neg hid).trans hb)]

/-- Replacing one account keeps what holds in every account. -/
theorem forall_modify {as : Accounts} {P : Account → Prop} (h : ∀ entry ∈ as, P entry.2)
    (id : ClientId) {f : Account → Account} (hf : ∀ a, P (f a)) :
    ∀ entry ∈ as.modify id f, P entry.2 := by
  induction as with
  | nil => exact h
  | cons entry rest ih =>
    obtain ⟨hfirst, hrest⟩ := List.forall_mem_cons.mp h
    rw [modify]
    split
    · exact List.forall_mem_cons.mpr ⟨hf entry.2, hrest⟩
    · exact List.forall_mem_cons.mpr ⟨hfirst, ih hrest⟩

end Accounts

end ClosedLoop
