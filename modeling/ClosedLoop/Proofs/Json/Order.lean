import ClosedLoop.Json.Reader
import Mathlib.Data.List.Nodup

namespace ClosedLoop.Json

/-!
# Members in the order of their names

A map of names has its members in the order of the bytes of their names, with no name twice. Strings
are compared character by character, and both orders are the same.

* `bytes`, `bytes_lt_of_lt` — the bytes of a smaller string are smaller;
* `Ordered`, `ordered_insertMember`, `Ordered.ext` — lists of members in the order of the names are
  determined by what they have as members;
* `lookup_sortMembers`, `perm_sortMembers` — **members that are put into order are found by their
  names**, and with different names they are the same members;
* `Value.InOrder`, `parse?_inOrder`, `parseObject_ordered` — whatever is read has its members in
  this order, at every depth.
-/

/-! ### The order of strings -/

/-- The bytes of a string. -/
def bytes (s : String) : List UInt8 := s.toUTF8.data.toList

/-- The bytes of a text are those of its characters. -/
theorem bytes_eq (s : String) : bytes s = s.toList.flatMap String.utf8EncodeChar := by
  show s.toByteArray.data.toList = _
  rw [← String.utf8Encode_toList, List.utf8Encode, List.data_toByteArray, List.toList_toArray]

/-- The bytes of a smaller character are smaller, whatever follows. Neither is a beginning of the
other. -/
theorem utf8EncodeChar_append_lt {c d : Char} (h : c < d) (l m : List UInt8) :
    String.utf8EncodeChar c ++ l < String.utf8EncodeChar d ++ m := by
  have hlt : c.val.toNat < d.val.toNat := h
  have hd : d.val.toNat < 0x110000 := by
    have := d.valid
    simp only [UInt32.isValidChar, Nat.isValidChar] at this
    omega
  rw [String.utf8EncodeChar, String.utf8EncodeChar]
  generalize c.val.toNat = v at *
  generalize d.val.toNat = w at *
  -- the digits to base 64 of both numbers, and what the bytes hold of them
  have hdigits (n : Nat) : n / 64 / 64 = n / 4096 ∧ n / 4096 / 64 = n / 262144 :=
    ⟨Nat.div_div_eq_div_mul .., Nat.div_div_eq_div_mul ..⟩
  have hlead {n : Nat} (hn : n < 0x110000) : n / 262144 % 8 = n / 262144 := by omega
  have hv := hdigits v
  have hw := hdigits w
  have hv' := hlead (Nat.lt_trans hlt hd)
  have hw' := hlead hd
  have htail (n : Nat) : (n % 64 + 128) % 256 = n % 64 + 128 := by omega
  have htwo (n : Nat) : (n % 32 + 192) % 256 = n % 32 + 192 := by omega
  have hthree (n : Nat) : (n % 16 + 224) % 256 = n % 16 + 224 := by omega
  have hfour (n : Nat) : (n % 8 + 240) % 256 = n % 8 + 240 := by omega
  repeat' split
  all_goals
    simp only [List.cons_append, List.nil_append, List.cons_lt_cons_iff, UInt8.lt_iff_toNat_lt,
      ← UInt8.toNat_inj, UInt8.toNat_ofNat', Nat.reducePow, htail, htwo, hthree, hfour]
  all_goals omega

/-- Texts are in the order of their bytes. -/
theorem flatMap_utf8EncodeChar_lt {cs ds : List Char} (h : cs < ds) :
    cs.flatMap String.utf8EncodeChar < ds.flatMap String.utf8EncodeChar := by
  induction cs generalizing ds with
  | nil =>
    obtain ⟨d, rest, rfl⟩ := List.exists_cons_of_ne_nil (l := ds) (by rintro rfl; cases h)
    obtain ⟨b, bs, hb⟩ := List.exists_cons_of_ne_nil (String.utf8EncodeChar_ne_nil (c := d))
    rw [List.flatMap_nil, List.flatMap_cons, hb]
    exact List.nil_lt_cons _ _
  | cons c cs ih =>
    obtain ⟨d, rest, rfl⟩ := List.exists_cons_of_ne_nil (l := ds) (by rintro rfl; cases h)
    rw [List.flatMap_cons, List.flatMap_cons]
    -- The first characters differ, or they agree and the rest decides.
    rcases List.cons_lt_cons_iff.mp h with hlt | ⟨rfl, hlt⟩
    · exact utf8EncodeChar_append_lt hlt _ _
    · exact List.append_left_lt (ih hlt)

/-- The bytes of a smaller string are smaller. -/
theorem bytes_lt_of_lt {s t : String} (h : s < t) : bytes s < bytes t := by
  rw [bytes_eq, bytes_eq]
  exact flatMap_utf8EncodeChar_lt h

/-! ### Members -/

/-- The members are in ascending order of the bytes of their names. -/
def Ordered (members : Members) : Prop := members.Pairwise fun m n => bytes m.1 < bytes n.1

instance (members : Members) : Decidable (Ordered members) :=
  inferInstanceAs (Decidable (members.Pairwise _))

/-- Ordered members are determined by what they are. -/
theorem Ordered.ext {members others : Members} (h : Ordered members) (hothers : Ordered others)
    (hmem : ∀ m, m ∈ members ↔ m ∈ others) : members = others := by
  have hnodup {l : Members} (hl : Ordered l) : l.Nodup := by
    refine List.Pairwise.imp ?_ hl
    rintro m n hlt rfl
    exact List.lt_irrefl _ hlt
  have hperm : members.Perm others :=
    (List.perm_ext_iff_of_nodup (hnodup h) (hnodup hothers)).mpr hmem
  exact hperm.eq_of_pairwise (fun m n _ _ hmn hnm => absurd hmn (List.lt_asymm hnm)) h hothers

/-- A member that is put into an object is the only new one. -/
theorem mem_insertMember {name : String} {v : Value} {members : Members} {m : String × Value}
    (h : m ∈ insertMember name v members) : m = (name, v) ∨ m ∈ members := by
  induction members with
  | nil => exact .inl (List.mem_singleton.mp h)
  | cons first rest ih =>
    -- The search ends at the first name that is equal or larger.
    rw [insertMember] at h
    split at h
    next => exact (List.mem_cons.mp h).imp_right (List.mem_cons_of_mem _)
    next =>
      split at h
      next => exact List.mem_cons.mp h
      next =>
        rcases List.mem_cons.mp h with rfl | hrest
        · exact .inr List.mem_cons_self
        · exact (ih hrest).imp_right (List.mem_cons_of_mem _)

/-- Putting a member at its place keeps the order. -/
theorem ordered_insertMember (name : String) (v : Value) {members : Members}
    (h : Ordered members) : Ordered (insertMember name v members) := by
  induction members with
  | nil => exact List.pairwise_singleton _ _
  | cons first rest ih =>
    obtain ⟨other, old⟩ := first
    obtain ⟨hfirst, hrest⟩ := List.pairwise_cons.mp h
    rw [insertMember]
    split
    -- The name is there, comes before the first one, or belongs further behind.
    next hsame => exact List.pairwise_cons.mpr ⟨hsame ▸ hfirst, hrest⟩
    next hdiff =>
      split
      next hlt =>
        refine List.pairwise_cons.mpr ⟨fun m hm => ?_, h⟩
        rcases List.mem_cons.mp hm with rfl | hm
        · exact bytes_lt_of_lt hlt
        · exact List.lt_trans (bytes_lt_of_lt hlt) (hfirst m hm)
      next hge =>
        have hlt : other < name :=
          String.not_le.mp fun hle => hdiff (String.le_antisymm hle (String.not_lt.mp hge))
        refine List.pairwise_cons.mpr ⟨fun m hm => ?_, ih hrest⟩
        rcases mem_insertMember hm with rfl | hm
        · exact bytes_lt_of_lt hlt
        · exact hfirst m hm

/-- A member that is put into an object is found there, and hides none of another name. -/
theorem lookup_insertMember (name other : String) (v : Value) (members : Members) :
    (insertMember name v members).lookup other =
      if other = name then some v else members.lookup other := by
  induction members with
  | nil =>
    by_cases h : other = name <;>
      simp [insertMember, List.lookup_cons, h, beq_eq_false_iff_ne.mpr]
  | cons m rest ih =>
    obtain ⟨first, old⟩ := m
    rw [insertMember]
    split
    -- The member replaces the first one, comes before it, or goes behind it.
    next hsame =>
      subst hsame
      by_cases h : other = name <;> simp [List.lookup_cons, h, beq_eq_false_iff_ne.mpr]
    next hdiff =>
      split
      · by_cases h : other = name <;> simp [List.lookup_cons, h, beq_eq_false_iff_ne.mpr]
      · rw [List.lookup_cons, List.lookup_cons, ih]
        by_cases h : other = first
        · subst h
          simp [Ne.symm hdiff]
        · simp [beq_eq_false_iff_ne.mpr h]

/-- A map has every name at most once. -/
theorem Ordered.nodup_names {members : Members} (h : Ordered members) :
    (members.map Prod.fst).Nodup := by
  rw [List.Nodup, List.pairwise_map]
  refine h.imp fun hlt hsame => ?_
  rw [hsame] at hlt
  exact List.lt_irrefl _ hlt

/-! ### Members put into order -/

/-- Putting members at their places, one after the other. -/
theorem ordered_foldl_insertMember {members sorted : Members} (h : Ordered sorted) :
    Ordered (members.foldl (fun sorted m => insertMember m.1 m.2 sorted) sorted) := by
  induction members generalizing sorted with
  | nil => exact h
  | cons m rest ih => exact ih (ordered_insertMember m.1 m.2 h)

/-- Sorted members are in order. -/
theorem ordered_sortMembers (members : Members) : Ordered (sortMembers members) :=
  ordered_foldl_insertMember .nil

/-- What is put into an object one by one was put in or was there. -/
theorem mem_foldl_insertMember {members sorted : Members} {m : String × Value}
    (h : m ∈ members.foldl (fun sorted m => insertMember m.1 m.2 sorted) sorted) :
    m ∈ members ∨ m ∈ sorted := by
  induction members generalizing sorted with
  | nil => exact .inr h
  | cons first rest ih =>
    rcases ih h with hrest | hinsert
    · exact .inl (List.mem_cons_of_mem _ hrest)
    · rcases mem_insertMember hinsert with rfl | hsorted
      · exact .inl List.mem_cons_self
      · exact .inr hsorted

/-- Sorting adds no members. -/
theorem mem_of_mem_sortMembers {members : Members} {m : String × Value}
    (h : m ∈ sortMembers members) : m ∈ members :=
  (mem_foldl_insertMember h).resolve_right List.not_mem_nil

/-- The last member of a name that is put in is found, if there is one. -/
theorem lookup_foldl_insertMember {members sorted : Members} {name : String} {v : Value}
    (h : ∀ m ∈ members, m.1 = name → m.2 = v)
    (hfound : name ∈ members.map Prod.fst ∨ sorted.lookup name = some v) :
    (members.foldl (fun sorted m => insertMember m.1 m.2 sorted) sorted).lookup name = some v := by
  induction members generalizing sorted with
  | nil => exact hfound.resolve_left List.not_mem_nil
  | cons m rest ih =>
    obtain ⟨hm, hrest⟩ := List.forall_mem_cons.mp h
    refine ih hrest ?_
    rw [lookup_insertMember]
    -- The first member may be the one, and otherwise it hides nothing.
    by_cases hname : name = m.1
    · exact .inr (by rw [if_pos hname, hm hname.symm])
    · rw [if_neg hname]
      refine hfound.imp_left fun hmem => ?_
      exact (List.mem_cons.mp hmem).resolve_left hname

/-- **A member whose name no other value has is found among the members in order.** -/
theorem lookup_sortMembers {members : Members} {name : String} {v : Value}
    (hmem : (name, v) ∈ members) (h : ∀ m ∈ members, m.1 = name → m.2 = v) :
    (sortMembers members).lookup name = some v :=
  lookup_foldl_insertMember h (.inl (List.mem_map_of_mem hmem))

/-- Members with different names have one value each. -/
theorem eq_of_nodup_names {members : Members} (h : (members.map Prod.fst).Nodup)
    {m n : String × Value} (hm : m ∈ members) (hn : n ∈ members) (hname : m.1 = n.1) : m = n :=
  List.inj_on_of_nodup_map h hm hn hname

/-- Where names are distinct every member is found after sorting. -/
theorem lookup_sortMembers_of_nodup {members : Members} (h : (members.map Prod.fst).Nodup)
    {name : String} {v : Value} (hmem : (name, v) ∈ members) :
    (sortMembers members).lookup name = some v :=
  lookup_sortMembers hmem fun _ hm hname =>
    congrArg Prod.snd (eq_of_nodup_names h hm hmem hname)

/-- What is found is a member. -/
theorem mem_of_lookup {members : Members} {name : String} {v : Value}
    (h : members.lookup name = some v) : (name, v) ∈ members := by
  obtain ⟨before, after, rfl, -⟩ := List.lookup_eq_some_iff.mp h
  exact List.mem_append_right _ List.mem_cons_self

/-- Members with different names are the same members in order. -/
theorem mem_sortMembers_iff {members : Members} (h : (members.map Prod.fst).Nodup)
    {m : String × Value} : m ∈ sortMembers members ↔ m ∈ members :=
  ⟨mem_of_mem_sortMembers, fun hm => mem_of_lookup (lookup_sortMembers_of_nodup h hm)⟩

/-- Where names are distinct sorting changes nothing but the order. -/
theorem perm_sortMembers {members : Members} (h : (members.map Prod.fst).Nodup) :
    (sortMembers members).Perm members :=
  (List.perm_ext_iff_of_nodup (ordered_sortMembers members).nodup_names.of_map h.of_map).mpr
    fun _ => mem_sortMembers_iff h

/-! ### What is read -/

/-- At every depth the members of objects are in the order of their names. -/
inductive Value.InOrder : Value → Prop where
  | null : InOrder .null
  | bool (b : Bool) : InOrder (.bool b)
  | number (n : Number) : InOrder (.number n)
  | text (s : String) : InOrder (.text s)
  | array {items : List Value} (h : ∀ v ∈ items, InOrder v) : InOrder (.array items)
  | object {members : Members} (hordered : Ordered members) (h : ∀ m ∈ members, InOrder m.2) :
    InOrder (.object members)

/-- In an object in order the members are in order, and so are their values. -/
theorem Value.InOrder.members {members : Members} (h : (Value.object members).InOrder) :
    Ordered members ∧ ∀ m ∈ members, m.2.InOrder := by
  cases h with
  | object hordered hinner => exact ⟨hordered, hinner⟩

/-- What was read inside an open bracket is in order. -/
def Open.InOrder : Open → Prop
  | .array items => ∀ v ∈ items, v.InOrder
  | .object members => (Value.object members).InOrder
  | .member members _ => (Value.object members).InOrder

/-- What a reader has read is in order. -/
def Reader.InOrder : Reader → Prop
  | .reading stack _ => ∀ bracket ∈ stack, bracket.InOrder
  | .finished v => v.InOrder

/-- The value of a scalar token is in order. -/
def Token.InOrder : Token → Prop
  | .scalar v => v.InOrder
  | _ => True

namespace Reader

variable {stack : List Open} {reader : Reader}

/-- A value in order leaves the bracket it goes to in order. -/
theorem inOrder_complete {v : Value} (hv : v.InOrder) (hstack : ∀ b ∈ stack, b.InOrder)
    (h : complete v stack = some reader) : reader.InOrder := by
  -- The value is the whole text, the next item or the value of the name that was read last.
  match stack with
  | [] =>
    cases h
    exact hv
  | .array items :: stack =>
    cases h
    obtain ⟨hitems, hstack⟩ := List.forall_mem_cons.mp hstack
    exact List.forall_mem_cons.mpr ⟨List.forall_mem_cons.mpr ⟨hv, hitems⟩, hstack⟩
  | .member members name :: stack =>
    cases h
    obtain ⟨hmembers, hstack⟩ := List.forall_mem_cons.mp hstack
    obtain ⟨hordered, hvalues⟩ := hmembers.members
    refine List.forall_mem_cons.mpr ⟨?_, hstack⟩
    refine .object (ordered_insertMember name v hordered) fun m hm => ?_
    rcases mem_insertMember hm with rfl | hm
    · exact hv
    · exact hvalues m hm
  | .object _ :: _ => cases h

/-- A bracket in order may be opened. -/
theorem inOrder_enter {bracket : Open} {want : Want} (hbracket : bracket.InOrder)
    (hstack : ∀ b ∈ stack, b.InOrder) (h : enter bracket want stack = some reader) :
    reader.InOrder := by
  rw [enter, Option.ite_none_right_eq_some] at h
  obtain ⟨-, h⟩ := h
  cases h
  exact List.forall_mem_cons.mpr ⟨hbracket, hstack⟩

/-- A token in place of a value keeps everything in order. -/
theorem inOrder_stepValue {token : Token} (htoken : token.InOrder)
    (hstack : ∀ b ∈ stack, b.InOrder) (h : stepValue stack token = some reader) :
    reader.InOrder := by
  match token with
  | .scalar v => exact inOrder_complete htoken hstack h
  | .openArray =>
    have hnone : (Open.array []).InOrder := List.forall_mem_nil _
    exact inOrder_enter hnone hstack h
  | .openObject =>
    have hnone : (Open.object []).InOrder := Value.InOrder.object .nil (List.forall_mem_nil _)
    exact inOrder_enter hnone hstack h
  | .closeArray | .closeObject | .comma | .colon => cases h

/-- After a name the reader waits for a colon, and the stack is as before. -/
theorem inOrder_stepName {token : Token} (hstack : ∀ b ∈ stack, b.InOrder)
    (h : stepName stack token = some reader) : reader.InOrder := by
  rw [stepName.eq_def] at h
  split at h
  next =>
    cases h
    obtain ⟨hmembers, hstack⟩ := List.forall_mem_cons.mp hstack
    exact List.forall_mem_cons.mpr ⟨hmembers, hstack⟩
  next => cases h

/-- The items of the array that ends have been read in order. -/
theorem inOrder_closeArray (hstack : ∀ b ∈ stack, b.InOrder)
    (h : closeArray stack = some reader) : reader.InOrder := by
  match stack with
  | .array items :: stack =>
    obtain ⟨hitems, hstack⟩ := List.forall_mem_cons.mp hstack
    exact inOrder_complete (.array fun v hv => hitems v (List.mem_reverse.mp hv)) hstack h
  | [] | .object _ :: _ | .member _ _ :: _ => cases h

/-- The members of the object that ends have been put in order one by one. -/
theorem inOrder_closeObject (hstack : ∀ b ∈ stack, b.InOrder)
    (h : closeObject stack = some reader) : reader.InOrder := by
  match stack with
  | .object members :: stack =>
    obtain ⟨hmembers, hstack⟩ := List.forall_mem_cons.mp hstack
    exact inOrder_complete hmembers hstack h
  | [] | .array _ :: _ | .member _ _ :: _ => cases h

/-- **A token keeps what has been read in order.** -/
theorem inOrder_step {before : Reader} {token : Token} (hbefore : before.InOrder)
    (htoken : token.InOrder) (h : before.step token = some reader) : reader.InOrder := by
  rw [step.eq_def] at h
  split at h
  case h_2 | h_4 => exact inOrder_stepValue htoken hbefore h
  case h_3 | h_11 => exact inOrder_closeArray hbefore h
  case h_5 | h_7 => exact inOrder_stepName hbefore h
  case h_6 | h_12 => exact inOrder_closeObject hbefore h
  -- a colon or a comma
  case h_8 | h_9 | h_10 => cases h; exact hbefore
  -- a token that may not come here
  case h_1 | h_13 => cases h

/-- **Whatever tokens are read, what comes of them is in order.** -/
theorem inOrder_foldlM {before : Reader} {tokens : List Token} (hbefore : before.InOrder)
    (htokens : ∀ t ∈ tokens, t.InOrder) (h : tokens.foldlM step before = some reader) :
    reader.InOrder := by
  induction tokens generalizing before with
  | nil => cases h; exact hbefore
  | cons token tokens ih =>
    rw [List.foldlM_cons] at h
    obtain ⟨next, hnext, hrest⟩ := Option.bind_eq_some_iff.mp h
    obtain ⟨htoken, htokens⟩ := List.forall_mem_cons.mp htokens
    exact ih (inOrder_step hbefore htoken hnext) htokens hrest

end Reader

/-- The scalars of a text are neither arrays nor objects. -/
theorem Token.inOrder_after {c : Char} {rest tail : List Char} {token : Token}
    (h : Token.after? c rest = some (token, tail)) : token.InOrder := by
  -- One case for each character a token can begin with.
  rw [Token.after?.eq_def] at h
  split at h
  case h_1 | h_2 | h_3 | h_4 | h_5 | h_6 => cases h; trivial
  case h_7 =>
    obtain ⟨body, -, hbody⟩ := Option.map_eq_some_iff.mp h
    cases hbody
    exact .text _
  case h_8 =>
    split at h
    · cases h; exact .null
    · cases h
  case h_9 =>
    split at h
    · cases h; exact .bool _
    · cases h
  case h_10 =>
    split at h
    · cases h; exact .bool _
    · cases h
  case h_11 =>
    obtain ⟨n, -, hn⟩ := Option.map_eq_some_iff.mp h
    cases hn
    exact .number _

/-- No token of a text is an object that is not in order. -/
theorem inOrder_tokensWithin {fuel : Nat} {cs : List Char} {tokens : List Token}
    (h : tokensWithin? fuel cs = some tokens) : ∀ t ∈ tokens, t.InOrder := by
  induction fuel generalizing cs tokens with
  | zero => cases h
  | succ fuel ih =>
    rw [tokensWithin?] at h
    split at h
    next => cases h; exact List.forall_mem_nil _
    next =>
      obtain ⟨⟨token, tail⟩, htoken, h⟩ := Option.bind_eq_some_iff.mp h
      obtain ⟨others, hothers, h⟩ := Option.bind_eq_some_iff.mp h
      cases h
      exact List.forall_mem_cons.mpr ⟨Token.inOrder_after htoken, ih hothers⟩

/-- **Whatever a text stands for has its members in the order of their names, at every depth.** -/
theorem parse?_inOrder {s : String} {v : Value} (h : parse? s = some v) : v.InOrder := by
  obtain ⟨tokens, htokens, h⟩ := Option.bind_eq_some_iff.mp h
  obtain ⟨reader, hreader, h⟩ := Option.bind_eq_some_iff.mp h
  have hstart : Reader.start.InOrder := List.forall_mem_nil _
  have hread := Reader.inOrder_foldlM hstart (inOrder_tokensWithin htokens) hreader
  cases reader with
  | reading => cases h
  | finished => cases h; exact hread

/-- The members of an object that was read are in the order of their names. -/
theorem parseObject_ordered {s : String} {members : Members} (h : parseObject s = .ok members) :
    Ordered members := by
  rw [parseObject] at h
  split at h
  case h_3 =>
    split at h
    next hparse => cases h; exact (parse?_inOrder hparse).members.1
    next => cases h
  all_goals cases h

end ClosedLoop.Json
