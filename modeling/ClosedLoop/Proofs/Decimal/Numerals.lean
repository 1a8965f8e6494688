import ClosedLoop.Proofs.Decimal.Digits

namespace ClosedLoop.Decimal

/-!
# How decimals are spelled in JSON

* `Numeral` — digits, digits after a point and an exponent, with `Numeral.chars`, `Numeral.value`;
* `Numeral.WellFormed` — at least one digit where digits stand, no superfluous zero in front, and
  something that tells the numeral from that of a whole number;
* `Spells` — a text is a numeral for a decimal;
* `spells_positionalChars`, `spells_exponentChars` — **both notations spell the decimal that they
  are made from**.
-/

/-- Digits, digits after a point, and an exponent. -/
structure Numeral where
  whole : List Char
  fraction : Option (List Char)
  exponent : Option Int

namespace Numeral

/-- The point with the digits after it. -/
def fractionChars (n : Numeral) : List Char :=
  match n.fraction with
  | some digits => '.' :: digits
  | none => []

/-- The exponent with its mark and its sign. -/
def exponentPart (n : Numeral) : List Char :=
  match n.exponent with
  | some e => 'e' :: (if e < 0 then '-' else '+') :: wholeChars e.natAbs
  | none => []

/-- The text of a numeral. -/
def chars (n : Numeral) : List Char := n.whole ++ (n.fractionChars ++ n.exponentPart)

/-- The number that a numeral stands for. -/
def value (n : Numeral) : ℚ := decimalValue n.whole (n.fraction.getD []) (n.exponent.getD 0)

/-- Digits stand where they have to, a zero in front stands alone, and there is a point or an
exponent. The digits before the point are not more than a 64-bit number holds. -/
structure WellFormed (n : Numeral) : Prop where
  whole : IsDigits n.whole
  leading : ∀ rest, n.whole = '0' :: rest → rest = []
  small : n.whole.length ≤ 16
  fraction : ∀ digits ∈ n.fraction, IsDigits digits
  marked : (n.fraction.isSome || n.exponent.isSome) = true

end Numeral

/-- The text is a numeral for the decimal. -/
def Spells (cs : List Char) (s : Scientific) : Prop :=
  ∃ n : Numeral, n.WellFormed ∧ n.value = s.value ∧ n.chars = cs

/-! ### Digits of a decimal -/

variable {s : Scientific}

namespace Scientific

/-- The decimal digits. -/
def chars (s : Scientific) : List Char := wholeChars s.digits

/-- The exponent of the first digit. -/
def magnitude (s : Scientific) : Int := s.exponent + s.chars.length - 1

/-- A decimal with digits, or a plain zero. -/
def IsProper (s : Scientific) : Prop := 0 < s.digits ∨ s.exponent = 0

/-- Only the digits of a plain zero start with a zero. -/
theorem IsProper.leading (hs : s.IsProper) {rest : List Char} (h : s.chars = '0' :: rest) :
    s.chars = ['0'] ∧ s.magnitude = 0 := by
  have hzero := wholeChars_leading h
  have hchars : s.chars = ['0'] := by rw [chars, hzero]; rfl
  rw [magnitude, hchars, hs.resolve_left (by omega)]
  exact ⟨rfl, rfl⟩

/-- Digits around a point stand for a decimal if they are its digits but for zeros at the end, and
the exponent makes up for the point. -/
theorem decimalValue_eq {whole fraction : List Char} {exponent : Int} (zeros : Nat)
    (hdigits : valueOf (whole ++ fraction) = s.digits * 10 ^ zeros)
    (hexponent : exponent - fraction.length + zeros = s.exponent) :
    decimalValue whole fraction exponent = s.value := by
  rw [decimalValue, value, hdigits, ← hexponent, zpow_add₀ (by norm_num), zpow_natCast]
  push_cast
  ring

end Scientific

/-- Zero is a digit. -/
theorem isDigits_zero : IsDigits ['0'] := ⟨by simp, List.forall_mem_singleton.mpr rfl⟩

/-- Digits and digits are digits. -/
theorem isDigit_of_mem_append {ds es : List Char} (hds : ∀ c ∈ ds, c.isDigit = true)
    (hes : ∀ c ∈ es, c.isDigit = true) : ∀ c ∈ ds ++ es, c.isDigit = true :=
  List.forall_mem_append.mpr ⟨hds, hes⟩

/-! ### Positional notation -/

/-- A number below one: zeros between the point and the digits. -/
theorem spells_below_one (h : s.magnitude < 0) :
    Spells ('0' :: '.' :: List.replicate (s.magnitude.natAbs - 1) '0' ++ s.chars) s := by
  have hdigits := isDigits_wholeChars s.digits
  refine ⟨⟨['0'], some (List.replicate (s.magnitude.natAbs - 1) '0' ++ s.chars), none⟩, ?_, ?_,
    by simp [Numeral.chars, Numeral.fractionChars, Numeral.exponentPart]⟩
  · refine ⟨isDigits_zero, by simp, by simp, ?_, rfl⟩
    rintro _ ⟨⟩
    exact ⟨List.append_ne_nil_of_right_ne_nil _ hdigits.ne_nil,
      isDigit_of_mem_append isDigit_of_mem_replicate hdigits.isDigit⟩
  -- The padding has no value, and moves the digits behind the point.
  · refine Scientific.decimalValue_eq 0 ?_ ?_
    · have hzero : valueOf ['0'] = 0 := rfl
      rw [Option.getD_some, valueOf_append, valueOf_append, valueOf_replicate_zero, hzero,
        Scientific.chars, valueOf_wholeChars]
      ring
    · rw [Option.getD_some, Option.getD_none, List.length_append, List.length_replicate]
      rw [Scientific.magnitude] at h ⊢
      omega

/-- A whole number: zeros after the digits, and one more after the point. -/
theorem spells_whole (hs : s.IsProper) (hpos : 0 ≤ s.magnitude) (hsmall : s.magnitude ≤ 15)
    (hshort : s.chars.length ≤ s.magnitude.toNat + 1) :
    Spells (s.chars ++ List.replicate (s.magnitude.toNat + 1 - s.chars.length) '0' ++ ['.', '0'])
      s := by
  have hdigits := isDigits_wholeChars s.digits
  refine ⟨⟨s.chars ++ List.replicate (s.magnitude.toNat + 1 - s.chars.length) '0', some ['0'],
    none⟩, ?_, ?_, by simp [Numeral.chars, Numeral.fractionChars, Numeral.exponentPart]⟩
  · refine ⟨⟨List.append_ne_nil_of_left_ne_nil hdigits.ne_nil _,
      isDigit_of_mem_append hdigits.isDigit isDigit_of_mem_replicate⟩,
      fun rest h => ?_, ?_, ?_, rfl⟩
    -- Only zero starts with a zero, and a proper zero has no further digit.
    · obtain ⟨c, cs, hcs⟩ := List.exists_cons_of_ne_nil hdigits.ne_nil
      rw [← Scientific.chars] at hcs
      have hc : c = '0' := by
        dsimp only at h
        rw [hcs, List.cons_append, List.cons.injEq] at h
        exact h.1
      obtain ⟨hone, hzero⟩ := hs.leading (hc ▸ hcs)
      rw [hone, hzero] at h
      exact (List.cons.inj h).2.symm
    · rw [List.length_append, List.length_replicate]
      omega
    · rintro _ ⟨⟩
      exact isDigits_zero
  · refine Scientific.decimalValue_eq (s.magnitude.toNat + 1 - s.chars.length + 1) ?_ ?_
    · have hzero : valueOf ['0'] = 0 := rfl
      rw [Option.getD_some, valueOf_append, valueOf_append, valueOf_replicate_zero, hzero,
        Scientific.chars, valueOf_wholeChars, List.length_replicate, List.length_singleton]
      ring
    · rw [Option.getD_some, Option.getD_none, List.length_singleton]
      rw [Scientific.magnitude] at *
      omega

/-- A number with digits on both sides of the point. -/
theorem spells_mixed (hs : s.IsProper) (hpos : 0 ≤ s.magnitude) (hsmall : s.magnitude ≤ 15)
    (hlong : s.magnitude.toNat + 1 < s.chars.length) :
    Spells (s.chars.take (s.magnitude.toNat + 1) ++
      '.' :: s.chars.drop (s.magnitude.toNat + 1)) s := by
  have hdigits := isDigits_wholeChars s.digits
  refine ⟨⟨s.chars.take (s.magnitude.toNat + 1), some (s.chars.drop (s.magnitude.toNat + 1)),
    none⟩, ?_, ?_, by simp [Numeral.chars, Numeral.fractionChars, Numeral.exponentPart]⟩
  · refine ⟨⟨?_, fun c hc => hdigits.isDigit c (List.mem_of_mem_take hc)⟩, fun rest h => ?_, ?_, ?_,
      rfl⟩
    · rw [ne_eq, List.take_eq_nil_iff, not_or]
      exact ⟨by omega, hdigits.ne_nil⟩
    -- The same, but zero is not long enough to have digits behind the point.
    · have hfirst : s.chars = '0' :: s.chars.tail := by
        obtain ⟨c, cs, hcs⟩ := List.exists_cons_of_ne_nil hdigits.ne_nil
        rw [← Scientific.chars] at hcs
        dsimp only at h
        rw [hcs, List.take_succ_cons, List.cons.injEq] at h
        rw [hcs, h.1, List.tail_cons]
      rw [(hs.leading hfirst).1] at hlong
      exact absurd hlong (by simp)
    · rw [List.length_take]
      omega
    · rintro _ ⟨⟩
      refine ⟨?_, fun c hc => hdigits.isDigit c (List.mem_of_mem_drop hc)⟩
      rw [ne_eq, List.drop_eq_nil_iff]
      omega
  · refine Scientific.decimalValue_eq 0 ?_ ?_
    · rw [Option.getD_some, List.take_append_drop, Scientific.chars, valueOf_wholeChars]
      ring
    · rw [Option.getD_some, Option.getD_none, List.length_drop]
      rw [Scientific.magnitude] at *
      omega

/-- **Positional notation spells the decimal.** -/
theorem spells_positionalChars (hs : s.IsProper) (hsmall : s.magnitude ≤ 15) :
    Spells (positionalChars ['.', '0'] s.chars s.magnitude) s := by
  rw [positionalChars]
  split
  · rename_i hneg
    exact spells_below_one hneg
  · rename_i hpos
    dsimp only
    split
    · rename_i hshort
      exact spells_whole hs (Int.not_lt.mp hpos) hsmall hshort
    · rename_i hlong
      exact spells_mixed hs (Int.not_lt.mp hpos) hsmall (Nat.not_le.mp hlong)

/-! ### Notation with an exponent -/

/-- **Notation with an exponent spells the decimal.** -/
theorem spells_exponentChars (s : Scientific) :
    Spells (exponentChars s.chars s.magnitude) s := by
  have hdigits : IsDigits s.chars := isDigits_wholeChars s.digits
  have hvalue : valueOf s.chars = s.digits := valueOf_wholeChars _
  have hexponent : s.magnitude = s.exponent + s.chars.length - 1 := rfl
  generalize s.magnitude = e at *
  generalize s.chars = ds at *
  -- One digit stands alone. The others come behind a point.
  match ds with
  | [] => exact absurd rfl hdigits.ne_nil
  | [first] =>
    refine ⟨⟨[first], none, some e⟩, ⟨hdigits, by simp, by simp, by simp, rfl⟩, ?_, by
      simp [Numeral.chars, Numeral.fractionChars, Numeral.exponentPart, exponentChars]⟩
    refine Scientific.decimalValue_eq 0 ?_ ?_
    · rw [Option.getD_none, List.append_nil, hvalue, Nat.pow_zero, Nat.mul_one]
    · simp [hexponent]
  | first :: second :: rest =>
    refine ⟨⟨[first], some (second :: rest), some e⟩, ?_, ?_, by
      simp [Numeral.chars, Numeral.fractionChars, Numeral.exponentPart, exponentChars]⟩
    · obtain ⟨hfirst, hrest⟩ := List.forall_mem_cons.mp hdigits.isDigit
      refine ⟨⟨by simp, by simpa using hfirst⟩, by simp, by simp, ?_, rfl⟩
      rintro _ ⟨⟩
      exact ⟨by simp, hrest⟩
    · refine Scientific.decimalValue_eq 0 ?_ ?_
      · rw [Option.getD_some, List.singleton_append, hvalue, Nat.pow_zero, Nat.mul_one]
      · rw [Option.getD_some, Option.getD_some, hexponent]
        simp
        omega

end ClosedLoop.Decimal
