import ClosedLoop.Proofs.Stats.Apart

namespace ClosedLoop

/-!
# The part of a ledger

A ledger that keeps the accounts of some of its clients only does for these what the whole ledger
does, and nothing is done to it for the others.

* `Ledger.part` — the ledger with the accounts of some clients;
* `Ledger.record_part`, `Ledger.take_part`, `Ledger.flush_part` — every operation for these clients
  does and answers the same;
* `Ledger.part_record_of_not`, `Ledger.part_take_of_not` — an operation for another client does
  nothing to the part;
* `Ledger.part_openFor` — at the start the part is the ledger for the profiles of these clients.
-/

variable {own : ClientId → Bool}

/-! ### Accounts -/

namespace Accounts

/-- A client of the part is found in it. -/
theorem lookup_filter {c : ClientId} (hown : own c = true) {β : Type} (as : List (ClientId × β)) :
    (as.filter fun entry => own entry.1).lookup c = as.lookup c := by
  induction as with
  | nil => rfl
  | cons entry rest ih =>
    obtain ⟨other, a⟩ := entry
    rw [lookup_cons_eq]
    cases hother : own other with
    | true => simp only [List.filter_cons, hother, if_true, lookup_cons_eq, ih]
    | false =>
      -- The account that is left out is not the one that is looked up.
      have hne : c ≠ other := by
        rintro rfl
        rw [hown] at hother
        cases hother
      simp only [List.filter_cons, hother, if_neg hne, Bool.false_eq_true, if_false, ih]

/-- A change of a client of the part is a change of the part. -/
theorem filter_modify {c : ClientId} (hown : own c = true) (f : Account → Account)
    (as : Accounts) : (as.modify c f).filter (fun entry => own entry.1) =
      modify c f (as.filter fun entry => own entry.1) := by
  induction as with
  | nil => rfl
  | cons entry rest ih =>
    obtain ⟨other, a⟩ := entry
    by_cases hc : c = other
    · subst hc
      simp only [modify, if_true, List.filter_cons, hown]
    -- The change reaches a later account, which is in the part or not, like before.
    · cases hother : own other with
      | true => simp only [modify, if_neg hc, List.filter_cons, hother, if_true, ih]
      | false =>
        simp only [modify, if_neg hc, List.filter_cons, hother, Bool.false_eq_true, if_false, ih]

/-- A change of another client does not change the part. -/
theorem filter_modify_of_not {c : ClientId} (hother : own c = false) (f : Account → Account)
    (as : Accounts) : (as.modify c f).filter (fun entry => own entry.1) =
      as.filter fun entry => own entry.1 := by
  induction as with
  | nil => rfl
  | cons entry rest ih =>
    obtain ⟨other, a⟩ := entry
    by_cases hc : c = other
    · subst hc
      simp [modify, hother]
    · simp only [modify, if_neg hc, List.filter_cons, ih]

/-- A new account of another client does not, either. -/
theorem filter_insert_of_not {c : ClientId} (hother : own c = false) (a : Account)
    (as : Accounts) : (as.insert c a).filter (fun entry => own entry.1) =
      as.filter fun entry => own entry.1 := by
  induction as with
  | nil => simp [insert, hother]
  | cons entry rest ih =>
    obtain ⟨other, b⟩ := entry
    by_cases hc : c = other
    · subst hc
      simp [insert, hother]
    · by_cases hlt : c < other
      · simp [insert, hc, hlt, hother]
      · simp only [insert, if_neg hc, if_neg hlt, List.filter_cons, ih]

/-- Cutting the windows of some clients shows what cutting all of them shows of these. -/
theorem cutAll_filter (own : ClientId → Bool) {now : Span} {as : Accounts} {shown : List Snapshot}
    (h : (cutAll now as).2 = .ok shown) :
    cutAll now (as.filter fun entry => own entry.1) =
      ((cutAll now as).1.filter (fun entry => own entry.1),
        .ok (shown.filter fun s => own s.client)) := by
  induction as generalizing shown with
  | nil => cases h; rfl
  | cons entry rest ih =>
    obtain ⟨id, a⟩ := entry
    obtain ⟨-, -, hcuts⟩ := cutAll_ok h
    have hcut := hcuts (id, a) List.mem_cons_self
    rw [cutAll_cons_of_ok rest hcut] at h ⊢
    cases hrest : (cutAll now rest).2 with
    | error fault => rw [hrest] at h; cases h
    | ok others =>
      rw [hrest] at h
      cases h
      -- What a cut shows is of the client whose window was cut.
      have hclient : ∀ s ∈ (a.shownBy id now).toList, s.client = id := fun s hs =>
        Account.client_of_shownBy (Option.mem_toList.mp hs)
      rw [List.filter_append, List.filter_cons, List.filter_cons]
      cases hown : own id with
      | true =>
        have hall : (a.shownBy id now).toList.filter (fun s => own s.client) =
            (a.shownBy id now).toList :=
          List.filter_eq_self.mpr fun s hs => by rw [hclient s hs, hown]
        rw [if_pos rfl, if_pos rfl, cutAll_cons_of_ok _ hcut, ih hrest, hall]
        rfl
      | false =>
        have hnone : (a.shownBy id now).toList.filter (fun s => own s.client) = [] :=
          List.filter_eq_nil_iff.mpr fun s hs => by rw [hclient s hs, hown]; decide
        rw [if_neg Bool.false_ne_true, if_neg Bool.false_ne_true, ih hrest, hnone]
        rfl

end Accounts

/-! ### Ledgers -/

namespace Ledger

/-- The ledger with the accounts of some clients. -/
def part (own : ClientId → Bool) (l : Ledger) : Ledger :=
  { l with accounts := l.accounts.filter fun entry => own entry.1 }

variable {l : Ledger} {c : ClientId}

/-- The part has the accounts of its clients. -/
theorem account?_part (hown : own c = true) : (l.part own).account? c = l.account? c :=
  Accounts.lookup_filter hown l.accounts

/-- Changes of its clients are changes of the part. -/
theorem modify_part (hown : own c = true) (f : Account → Account) :
    (l.part own).modify c f = (l.modify c f).part own :=
  congrArg (Ledger.mk · l.closed) (Accounts.filter_modify hown f l.accounts).symm

/-- Changes of other clients are not. -/
theorem part_modify_of_not (hother : own c = false) (f : Account → Account) :
    (l.modify c f).part own = l.part own :=
  congrArg (Ledger.mk · l.closed) (Accounts.filter_modify_of_not hother f l.accounts)

/-- A record of one of the clients has the same effect and the same answer. -/
theorem record_part {r : Record} (hown : own r.client = true) :
    (l.part own).record r = ((l.record r).1.part own, (l.record r).2) := by
  have hclosed : (l.part own).closed = l.closed := rfl
  unfold record
  rw [account?_part hown, hclosed]
  by_cases hdone : l.closed
  · rw [if_pos hdone, if_pos hdone]
  · rw [if_neg hdone, if_neg hdone]
    cases l.account? r.client with
    | none => rfl
    | some a => exact congrArg (·, _) (modify_part hown _)

/-- A record of another client does not change the part. -/
theorem part_record_of_not {r : Record} (hother : own r.client = false) :
    (l.record r).1.part own = l.part own := by
  unfold record
  split
  · rfl
  · split
    · rfl
    · exact part_modify_of_not hother _

/-- A cut of the window of one of the clients shows the same. -/
theorem take_part (hown : own c = true) (now : Span) :
    (l.part own).take now c = ((l.take now c).1.part own, (l.take now c).2) := by
  unfold take
  rw [account?_part hown]
  cases l.account? c with
  | none => rfl
  | some a => exact congrArg (·, _) (modify_part hown _)

/-- The cut of another client does not. -/
theorem part_take_of_not (hother : own c = false) (now : Span) :
    (l.take now c).1.part own = l.part own := by
  unfold take
  split
  · rfl
  · exact part_modify_of_not hother _

/-- A flush without a fault shows of these clients what a flush of the part shows. -/
theorem flush_part (own : ClientId → Bool) {now : Span} {shown : List Snapshot}
    (hok : (l.flush now).2 = .ok shown) :
    (l.part own).flush now =
      ((l.flush now).1.part own, .ok (shown.filter fun s => own s.client)) := by
  have hcuts : (l.accounts.cutAll now).2 = .ok shown := hok
  have hpart := Accounts.cutAll_filter own hcuts
  simp only [flush, part, hpart]

/-- The totals of the part are the totals of its clients. -/
theorem totals_part (l : Ledger) :
    (l.part own).totals = l.totals.filter fun entry => own entry.1 := by
  rw [totals, totals, List.filter_map]
  rfl

/-- At the start the part is the ledger for the profiles of its clients, if these come first. -/
theorem part_openFor {ps qs : List Profile} (hps : ∀ p ∈ ps, own p.id = true)
    (hqs : ∀ q ∈ qs, own q.id = false) (now : Span) :
    (openFor (ps ++ qs) now).part own = openFor ps now := by
  -- Accounts of other clients that come later are left out one by one.
  have hall : ∀ (as : Accounts),
      (qs.foldl (fun as p => as.insert p.id (Account.openAt p.name now)) as).filter
        (fun entry => own entry.1) = as.filter fun entry => own entry.1 := by
    induction qs with
    | nil => exact fun _ => rfl
    | cons q rest ih =>
      obtain ⟨hfirst, hrest⟩ := List.forall_mem_cons.mp hqs
      intro as
      rw [List.foldl_cons, ih hrest, Accounts.filter_insert_of_not hfirst]
  refine congrArg (Ledger.mk · false) ?_
  rw [openFor, List.foldl_append, hall]
  refine List.filter_eq_self.mpr fun entry hentry => ?_
  have hknown : entry.1 ∈ (openFor ps now).clients := List.mem_map_of_mem hentry
  obtain ⟨p, hp, hid⟩ := List.mem_map.mp ((mem_clients_openFor ps now entry.1).mp hknown)
  rw [← hid]
  exact hps p hp

end Ledger

end ClosedLoop
