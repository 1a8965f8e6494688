import ClosedLoop.Proofs.Stats.Journal

namespace ClosedLoop

/-!
# The books of a ledger

Every operation on a ledger keeps it in agreement with a journal, with the entry for what the
operation answers.

* `Accounts.cutAll_ok`, `Accounts.cutAll_perm` — what cutting all windows gives when no cut fails,
  which does not depend on the order of the accounts;
* `Ledger.Keeps` — every account keeps the part of a journal that concerns its client;
* `Ledger.Keeps.record`, `Ledger.Keeps.take`, `Ledger.Keeps.flush` — every operation preserves that.
-/

/-! ### Cutting all windows -/

/-- The snapshot of a cut, none if the cut fails. -/
def Account.shownBy (a : Account) (client : ClientId) (now : Span) : Option Snapshot :=
  (a.cut client now).2.toOption.join

/-- What a cut shows is what the account shows. -/
theorem Account.shownBy_ok {a : Account} {client : ClientId} {now : Span}
    {shown : Option Snapshot} (h : (a.cut client now).2 = .ok shown) :
    a.shownBy client now = shown := by
  rw [Account.shownBy, h]
  rfl

/-- Only a window with activity that can be closed gives a snapshot. -/
theorem Account.close_of_shownBy {a : Account} {client : ClientId} {now : Span} {s : Snapshot}
    (h : s ∈ a.shownBy client now) :
    1 ≤ a.window.tally.requests ∧ a.window.close client a.name now = .ok s := by
  rw [Account.shownBy, Account.cut_eq] at h
  by_cases hempty : a.window.isEmpty
  · rw [if_pos hempty] at h
    cases h
  · rw [if_neg hempty] at h
    have hactive : a.window.tally.requests ≠ 0 := by simpa [Window.isEmpty] using hempty
    refine ⟨Nat.one_le_iff_ne_zero.mpr hactive, ?_⟩
    cases hclose : a.window.close client a.name now with
    | error fault => rw [hclose] at h; cases h
    | ok t => rw [hclose] at h; cases h; rfl

/-- A snapshot of a cut shows the window that was cut. -/
theorem Account.eq_of_shownBy {a : Account} {client : ClientId} {now : Span} {s : Snapshot}
    (h : s ∈ a.shownBy client now) :
    ∃ mean, s = a.window.shownWith client a.name now mean := by
  obtain ⟨mean, -, hs⟩ := Window.close_ok (Account.close_of_shownBy h).2
  exact ⟨mean, hs⟩

/-- A snapshot names the client whose window was cut. -/
theorem Account.client_of_shownBy {a : Account} {client : ClientId} {now : Span} {s : Snapshot}
    (h : s ∈ a.shownBy client now) : s.client = client := by
  obtain ⟨mean, rfl⟩ := Account.eq_of_shownBy h
  rfl

namespace Accounts

/-- A cut of all accounts keeps their ids. -/
theorem map_fst_cutAll (now : Span) (as : Accounts) :
    (cutAll now as).1.map Prod.fst = as.map Prod.fst := by
  induction as with
  | nil => rfl
  | cons entry rest ih =>
    obtain ⟨id, a⟩ := entry
    rw [cutAll]
    generalize a.cut id now = cut
    obtain ⟨b, fault | shown⟩ := cut
    · rfl
    · rw [List.map_cons, List.map_cons, ← ih]

section CutAll

variable {a : Account} {id : ClientId} {now : Span} (rest : Accounts)

/-- The first cut that fails is the last one. -/
theorem cutAll_cons_of_error {fault : Fault} (h : (a.cut id now).2 = .error fault) :
    cutAll now ((id, a) :: rest) = ((id, a.renew now) :: rest, .error fault) := by
  have hcut : a.cut id now = (a.renew now, .error fault) := Prod.ext rfl h
  rw [cutAll, hcut]

/-- The first account is cut first, if its cut does not fail. -/
theorem cutAll_cons_of_ok {shown : Option Snapshot} (h : (a.cut id now).2 = .ok shown) :
    cutAll now ((id, a) :: rest) = ((id, a.renew now) :: (cutAll now rest).1,
      (cutAll now rest).2.map fun others => shown.toList ++ others) := by
  have hcut : a.cut id now = (a.renew now, .ok shown) := Prod.ext rfl h
  rw [cutAll, hcut]

end CutAll

/-- When no cut fails, every account is renewed and the snapshots come in the order of the
    accounts. -/
theorem cutAll_ok {now : Span} {as : Accounts} {shown : List Snapshot}
    (h : (cutAll now as).2 = .ok shown) :
    (cutAll now as).1 = as.map (fun entry => (entry.1, entry.2.renew now)) ∧
      shown = as.flatMap (fun entry => (entry.2.shownBy entry.1 now).toList) ∧
      ∀ entry ∈ as, (entry.2.cut entry.1 now).2 = .ok (entry.2.shownBy entry.1 now) := by
  induction as generalizing shown with
  | nil => cases h; exact ⟨rfl, rfl, fun _ he => absurd he (by simp)⟩
  | cons entry rest ih =>
    obtain ⟨id, a⟩ := entry
    -- A cut that fails leaves the accounts behind it as they are.
    cases hcut : (a.cut id now).2 with
    | error fault =>
      rw [cutAll_cons_of_error rest hcut] at h
      cases h
    | ok snapshot =>
      rw [cutAll_cons_of_ok rest hcut] at h ⊢
      cases hrest : (cutAll now rest).2 with
      | error fault => rw [hrest] at h; cases h
      | ok others =>
        rw [hrest] at h
        cases h
        obtain ⟨haccounts, hshown, hoks⟩ := ih hrest
        have hby : a.shownBy id now = snapshot := Account.shownBy_ok hcut
        refine ⟨?_, ?_, ?_⟩
        · simp only [List.map_cons, haccounts]
        · simp only [List.flatMap_cons, hby, ← hshown]
        · intro entry hentry
          rcases List.mem_cons.mp hentry with rfl | hmem
          · simp only [hby, hcut]
          · exact hoks entry hmem

/-- All windows can be cut if each can. -/
theorem cutAll_of_cut_ok {now : Span} {as : Accounts}
    (h : ∀ entry ∈ as, ∃ shown, (entry.2.cut entry.1 now).2 = .ok shown) :
    ∃ shown, (cutAll now as).2 = .ok shown := by
  induction as with
  | nil => exact ⟨[], rfl⟩
  | cons entry rest ih =>
    obtain ⟨id, a⟩ := entry
    obtain ⟨⟨snapshot, hcut⟩, hrest⟩ := List.forall_mem_cons.mp h
    obtain ⟨others, hothers⟩ := ih hrest
    refine ⟨snapshot.toList ++ others, ?_⟩
    rw [cutAll_cons_of_ok rest hcut]
    simp only [hothers]
    rfl

/-- **The order of the accounts matters only after a fault.** When no cut fails, the same windows
    are cut in any order, and the same snapshots come out of it. -/
theorem cutAll_perm {now : Span} {as bs : Accounts} {shown : List Snapshot} (hperm : as.Perm bs)
    (h : (cutAll now as).2 = .ok shown) :
    ∃ shown', (cutAll now bs).2 = .ok shown' ∧ shown.Perm shown' ∧
      (cutAll now as).1.Perm (cutAll now bs).1 := by
  -- In either order every account is cut, so both lists come from the same cuts.
  obtain ⟨haccounts, hshown, hcuts⟩ := cutAll_ok h
  have hall : ∀ entry ∈ bs, ∃ shown, (entry.2.cut entry.1 now).2 = .ok shown :=
    fun entry hentry => ⟨_, hcuts entry (hperm.mem_iff.mpr hentry)⟩
  obtain ⟨shown', h'⟩ := cutAll_of_cut_ok hall
  obtain ⟨haccounts', hshown', -⟩ := cutAll_ok h'
  refine ⟨shown', h', ?_, ?_⟩
  · rw [hshown, hshown']
    exact hperm.flatMap_right _
  · rw [haccounts, haccounts']
    exact hperm.map _

/-- The snapshots of all accounts that concern one client are those of its account. -/
theorem filter_shownBy {now : Span} {as : Accounts} (asc : Ascending as) (c : ClientId) :
    (as.flatMap fun entry => (entry.2.shownBy entry.1 now).toList).filter (·.client = c) =
      match as.lookup c with
      | some a => (a.shownBy c now).toList
      | none => [] := by
  induction as with
  | nil => rfl
  | cons entry rest ih =>
    obtain ⟨id, a⟩ := entry
    rw [List.flatMap_cons, List.filter_append, ih asc.tail, lookup_cons_eq]
    -- Ids ascend strictly, so the first account is the only one with its id.
    by_cases hc : c = id
    · subst hc
      have hnone : List.lookup c rest = none := by
        cases hl : List.lookup c rest with
        | none => rfl
        | some b => exact absurd (asc.head_lt _ (mem_of_lookup hl)) (UInt32.lt_irrefl c)
      rw [hnone, if_pos rfl, List.append_nil]
      refine List.filter_eq_self.mpr ?_
      intro s hs
      exact decide_eq_true (Account.client_of_shownBy (Option.mem_toList.mp hs))
    · have hhead : ((a.shownBy id now).toList.filter fun s => decide (s.client = c)) = [] := by
        refine List.filter_eq_nil_iff.mpr ?_
        intro s hs hsc
        have hid := Account.client_of_shownBy (Option.mem_toList.mp hs)
        exact hc ((of_decide_eq_true hsc).symm.trans hid)
      rw [hhead, if_neg hc, List.nil_append]

/-- The clients of the snapshots of all accounts are among the ids, in their order. -/
theorem clients_shownBy_sublist (now : Span) (as : Accounts) :
    ((as.flatMap fun entry => (entry.2.shownBy entry.1 now).toList).map Snapshot.client).Sublist
      (as.map Prod.fst) := by
  induction as with
  | nil => exact List.Sublist.refl _
  | cons entry rest ih =>
    obtain ⟨id, a⟩ := entry
    simp only [List.flatMap_cons, List.map_append, List.map_cons]
    -- An account without activity shows nothing, and so its id is passed over.
    cases hs : a.shownBy id now with
    | none => exact List.Sublist.cons id ih
    | some s =>
      have hclient : s.client = id := Account.client_of_shownBy hs
      simp only [Option.toList_some, List.map_cons, List.map_nil, List.singleton_append, hclient]
      exact List.Sublist.cons_cons id ih

end Accounts

/-! ### Opening a ledger -/

namespace Ledger

/-- The accounts that a list of profiles adds to others. -/
private theorem lookup_foldl_insert (profiles : List Profile) (now : Span) (as : Accounts)
    (c : ClientId) :
    (profiles.foldl (fun as p => as.insert p.id (Account.openAt p.name now)) as).lookup c =
      match profiles.reverse.find? (·.id = c) with
      | some p => some (Account.openAt p.name now)
      | none => as.lookup c := by
  induction profiles generalizing as with
  | nil => rfl
  | cons p rest ih =>
    rw [List.foldl_cons, ih, List.reverse_cons, List.find?_append]
    -- The last profile with the id opens the account.
    cases hrest : rest.reverse.find? (·.id = c) with
    | some q => simp
    | none =>
      rw [Accounts.lookup_insert]
      by_cases hp : p.id = c
      · simp [hp]
      · have hne : ¬c = p.id := fun h => hp h.symm
        simp [hp, hne]

/-- A client has an account from the beginning if it has a profile, opened for the last one. -/
theorem account?_openFor (profiles : List Profile) (now : Span) (c : ClientId) :
    (openFor profiles now).account? c =
      (profiles.reverse.find? (·.id = c)).map fun p => Account.openAt p.name now := by
  rw [Ledger.account?, openFor, lookup_foldl_insert]
  cases profiles.reverse.find? (·.id = c) <;> rfl

/-- Opening accounts one by one keeps their order. -/
private theorem ascending_foldl_insert (profiles : List Profile) (now : Span) {as : Accounts}
    (asc : as.Ascending) :
    (profiles.foldl (fun as p => as.insert p.id (Account.openAt p.name now)) as).Ascending := by
  induction profiles generalizing as with
  | nil => exact asc
  | cons p rest ih => exact ih (asc.insert p.id _)

/-- The accounts of an open ledger are in order. -/
theorem ascending_openFor (profiles : List Profile) (now : Span) :
    (openFor profiles now).accounts.Ascending :=
  ascending_foldl_insert profiles now List.Pairwise.nil

/-! ### The clients of a ledger -/

/-- The clients with an account, in ascending order. -/
def clients (l : Ledger) : List ClientId := l.accounts.map Prod.fst

/-- The clients are those with an account. -/
theorem account?_isSome_iff (l : Ledger) (c : ClientId) :
    (l.account? c).isSome ↔ c ∈ l.clients := by
  unfold account? clients
  induction l.accounts with
  | nil => simp
  | cons entry rest ih =>
    obtain ⟨id, a⟩ := entry
    rw [Accounts.lookup_cons_eq, List.map_cons, List.mem_cons]
    by_cases hc : c = id
    · simp [hc]
    · rw [if_neg hc, ih]
      simp [hc]

/-- The clients are those of the profiles. -/
theorem mem_clients_openFor (profiles : List Profile) (now : Span) (c : ClientId) :
    c ∈ (openFor profiles now).clients ↔ c ∈ profiles.map Profile.id := by
  rw [← account?_isSome_iff, account?_openFor, Option.isSome_map, List.find?_isSome]
  simp [eq_comm]

/-- A record opens no accounts. -/
@[simp] theorem clients_record (l : Ledger) (r : Record) : (l.record r).1.clients = l.clients := by
  unfold record
  split
  · rfl
  · split
    · rfl
    · exact Accounts.map_fst_modify r.client _ l.accounts

/-- A cut opens no accounts. -/
@[simp] theorem clients_take (l : Ledger) (now : Span) (c : ClientId) :
    (l.take now c).1.clients = l.clients := by
  unfold take
  split
  · rfl
  · exact Accounts.map_fst_modify c _ l.accounts

/-- A flush opens no accounts. -/
@[simp] theorem clients_flush (l : Ledger) (now : Span) : (l.flush now).1.clients = l.clients :=
  Accounts.map_fst_cutAll now l.accounts

/-! ### What becomes of a record -/

/-- A record does not close the ledger. -/
@[simp] theorem closed_record (l : Ledger) (r : Record) : (l.record r).1.closed = l.closed := by
  unfold record
  split
  · rfl
  · split <;> rfl

/-- A cut does not close the ledger. -/
@[simp] theorem closed_take (l : Ledger) (now : Span) (c : ClientId) :
    (l.take now c).1.closed = l.closed := by
  unfold take
  split <;> rfl

/-- An open ledger refuses no record of a client it knows. -/
theorem record_taken {l : Ledger} {r : Record} {taken : Bool} (h : (l.record r).2 = .ok taken)
    (hopen : l.closed = false) (hknown : r.client ∈ l.clients) : taken = true := by
  obtain ⟨a, ha⟩ := Option.isSome_iff_exists.mp ((l.account?_isSome_iff r.client).mpr hknown)
  simp only [record, hopen, Bool.false_eq_true, if_false, ha] at h
  cases hadd : (a.add r).2 with
  | error fault => rw [hadd] at h; cases h
  | ok result => rw [hadd] at h; cases h; rfl

/-- A record is lost only if its latency breaks the sum of the window. -/
theorem record_lost {l : Ledger} {r : Record} {fault : Fault}
    (h : (l.record r).2 = .error fault) :
    ∃ a, l.account? r.client = some a ∧ a.window.latencySum.add? r.latency = none := by
  unfold record at h
  by_cases hclosed : l.closed
  · rw [if_pos hclosed] at h
    cases h
  · rw [if_neg hclosed] at h
    cases ha : l.account? r.client with
    | none => rw [ha] at h; cases h
    | some a =>
      refine ⟨a, rfl, ?_⟩
      -- The account counts the record but for a sum that cannot be formed.
      cases hsum : a.window.latencySum.add? r.latency with
      | none => rfl
      | some sum =>
        have hadd : (a.add r).2 = .ok () := by simp only [Account.add, Window.add, hsum]
        rw [ha] at h
        simp only [hadd] at h
        cases h

/-! ### Agreement with a journal -/

/-- The accounts agree with a journal: each keeps the part of its client, and the journal knows
    nothing of clients without an account. -/
structure Keeps (l : Ledger) (j : Journal) : Prop where
  ascending : l.accounts.Ascending
  known : ∀ c a, l.account? c = some a → a.Keeps (j.of c)
  unknown : ∀ c, l.account? c = none → j.of c = Journal.empty

/-- The journal knows snapshots of clients with an account only. -/
theorem Keeps.account_of_shown {l : Ledger} {j : Journal} (h : l.Keeps j) {s : Snapshot}
    (hs : s ∈ j.shown) : ∃ a, l.account? s.client = some a := by
  have hmem : s ∈ (j.of s.client).shown := List.mem_filter.mpr ⟨hs, by simp⟩
  cases hfound : l.account? s.client with
  | some a => exact ⟨a, rfl⟩
  | none =>
    rw [h.unknown s.client hfound] at hmem
    cases hmem

/-- An open ledger agrees with an empty journal. -/
theorem keeps_openFor (profiles : List Profile) (now : Span) :
    (openFor profiles now).Keeps Journal.empty where
  ascending := ascending_openFor profiles now
  known c a ha := by
    rw [account?_openFor] at ha
    obtain ⟨p, -, rfl⟩ := Option.map_eq_some_iff.mp ha
    exact Account.keeps_openAt p.name now
  unknown c _ := rfl

/-- A change of one account is seen at this account only. -/
theorem account?_modify (l : Ledger) (id c : ClientId) (f : Account → Account) :
    (l.modify id f).account? c = if c = id then (l.account? c).map f else l.account? c :=
  Accounts.lookup_modify id c f l.accounts

/-- Replacing one account keeps the books if it does so for that account. -/
theorem Keeps.modify {l : Ledger} {j k : Journal} (h : l.Keeps j) {id : ClientId}
    {f : Account → Account} (hk : ∀ c, c ≠ id → k.of c = Journal.empty)
    (hid : ∀ a, l.account? id = some a → (f a).Keeps (j.of id ++ k.of id))
    (hnone : l.account? id = none → k.of id = Journal.empty) :
    (l.modify id f).Keeps (j ++ k) where
  ascending := h.ascending.modify id f
  known c a ha := by
    rw [account?_modify] at ha
    rw [Journal.of_append]
    -- The entry is about the replaced account only.
    by_cases hc : c = id
    · subst hc
      rw [if_pos rfl] at ha
      obtain ⟨b, hb, rfl⟩ := Option.map_eq_some_iff.mp ha
      exact hid b hb
    · rw [if_neg hc] at ha
      rw [hk c hc, Journal.append_empty]
      exact h.known c a ha
  unknown c hc := by
    rw [account?_modify] at hc
    rw [Journal.of_append]
    by_cases heq : c = id
    · subst heq
      rw [if_pos rfl, Option.map_eq_none_iff] at hc
      rw [h.unknown c hc, hnone hc]
      rfl
    · rw [if_neg heq] at hc
      rw [h.unknown c hc, hk c heq]
      rfl

/-- A record adds its entry, whatever becomes of it. -/
theorem Keeps.record {l : Ledger} {j : Journal} (h : l.Keeps j) (r : Record) :
    (l.record r).1.Keeps (j ++ Journal.ofRecord r (l.record r).2) := by
  unfold Ledger.record
  by_cases hclosed : l.closed
  · rw [if_pos hclosed]
    simpa [Journal.ofRecord] using h
  -- Only the account of the record changes, and its entry concerns this client.
  · rw [if_neg hclosed]
    cases hfound : l.account? r.client with
    | none => simpa [Journal.ofRecord] using h
    | some a =>
      refine h.modify ?_ ?_ ?_
      · intro c hc
        rw [Journal.of_ofRecord, if_neg hc]
      · intro b hb
        rw [hfound, Option.some.injEq] at hb
        subst hb
        rw [Journal.of_ofRecord, if_pos rfl]
        exact (h.known _ a hfound).add r
      · intro hnone
        rw [hfound] at hnone
        cases hnone

/-- Cutting the window of a client adds its snapshot. -/
theorem Keeps.take {l : Ledger} {j : Journal} (h : l.Keeps j) {now : Span} {client : ClientId}
    {shown : Option Snapshot} (hok : (l.take now client).2 = .ok shown) :
    (l.take now client).1.Keeps (j ++ Journal.ofSnapshots shown.toList) := by
  unfold Ledger.take at hok ⊢
  cases hfound : l.account? client with
  | none =>
    rw [hfound] at hok
    cases hok
    simpa [Journal.ofSnapshots_nil] using h
  | some a =>
    rw [hfound] at hok
    -- The snapshot is one of the client, so the entry is about its account only.
    have hshown : ∀ s ∈ shown.toList, s.client = client := by
      intro s hs
      rw [← Account.shownBy_ok hok] at hs
      exact Account.client_of_shownBy (Option.mem_toList.mp hs)
    refine h.modify ?_ ?_ ?_
    · intro c hc
      rw [Journal.of_ofSnapshots, List.filter_eq_nil_iff.mpr, Journal.ofSnapshots_nil]
      intro s hs hsc
      exact hc ((of_decide_eq_true hsc).symm.trans (hshown s hs))
    · intro b hb
      rw [hfound, Option.some.injEq] at hb
      subst hb
      rw [Journal.of_ofSnapshots, List.filter_eq_self.mpr]
      · exact (h.known client a hfound).cut hok
      · intro s hs
        exact decide_eq_true (hshown s hs)
    · intro hnone
      rw [hfound] at hnone
      cases hnone

/-- The flush renews every account. -/
theorem accounts_flush {l : Ledger} {now : Span} {shown : List Snapshot}
    (hok : (l.flush now).2 = .ok shown) :
    (l.flush now).1.accounts = l.accounts.map fun entry => (entry.1, entry.2.renew now) :=
  (Accounts.cutAll_ok hok).1

/-- After a flush every account is renewed. -/
theorem account?_flush {l : Ledger} {now : Span} {shown : List Snapshot}
    (hok : (l.flush now).2 = .ok shown) (c : ClientId) :
    (l.flush now).1.account? c = (l.account? c).map (·.renew now) := by
  rw [account?, accounts_flush hok]
  exact Accounts.lookup_map c (fun _ a => a.renew now) l.accounts

/-- The flush adds the snapshots of all windows. -/
theorem Keeps.flush {l : Ledger} {j : Journal} (h : l.Keeps j) {now : Span}
    {shown : List Snapshot} (hok : (l.flush now).2 = .ok shown) :
    (l.flush now).1.Keeps (j ++ Journal.ofSnapshots shown) := by
  have hcut : (l.accounts.cutAll now).2 = .ok shown := hok
  obtain ⟨haccounts, hshown, hoks⟩ := Accounts.cutAll_ok hcut
  -- Each account takes its own snapshot from the flush.
  have hpart : ∀ c, shown.filter (·.client = c) =
      match l.account? c with
      | some a => (a.shownBy c now).toList
      | none => [] := by
    intro c
    rw [hshown]
    exact Accounts.filter_shownBy h.ascending c
  refine ⟨?_, ?_, ?_⟩
  · show Accounts.Ascending (l.accounts.cutAll now).1
    rw [haccounts, Accounts.Ascending, List.map_map]
    exact h.ascending
  · intro c a ha
    rw [account?_flush hok] at ha
    obtain ⟨b, hb, rfl⟩ := Option.map_eq_some_iff.mp ha
    rw [Journal.of_append, Journal.of_ofSnapshots, hpart, hb]
    exact (h.known c b hb).cut (hoks (c, b) (Accounts.mem_of_lookup hb))
  · intro c hc
    rw [account?_flush hok, Option.map_eq_none_iff] at hc
    rw [Journal.of_append, Journal.of_ofSnapshots, hpart, hc, h.unknown c hc]
    rfl

/-- The snapshots of a flush ascend strictly in their clients. -/
theorem flush_ascending {l : Ledger} (asc : l.accounts.Ascending) {now : Span}
    {shown : List Snapshot} (hok : (l.flush now).2 = .ok shown) :
    (shown.map Snapshot.client).Pairwise (· < ·) := by
  have hcut : (l.accounts.cutAll now).2 = .ok shown := hok
  obtain ⟨-, rfl, -⟩ := Accounts.cutAll_ok hcut
  exact List.Pairwise.sublist (Accounts.clients_shownBy_sublist now l.accounts) asc

end Ledger

end ClosedLoop
