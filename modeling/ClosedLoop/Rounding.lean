/-!
# Rounding a quotient of whole numbers

Every exact conversion of the library ends in one rounding step: a quotient of two natural
numbers is replaced by the nearest whole number, and a tie goes to the even neighbour.

* `roundHalfEven` — the rounding step.
* `two_mul_roundHalfEven_le`, `le_two_mul_roundHalfEven` — the result is off by at most one half.
-/

namespace ClosedLoop

/-- `num / den` to the nearest whole number; a tie goes to the even neighbour. -/
def roundHalfEven (num den : Nat) : Nat :=
  let below := num / den
  let twice := 2 * (num % den)
  if twice < den then below
  else if den < twice then below + 1
  else below + below % 2

@[simp] theorem roundHalfEven_zero_left (den : Nat) : roundHalfEven 0 den = 0 := by
  simp [roundHalfEven]

/-- Rounding never adds more than one half. -/
theorem two_mul_roundHalfEven_le (num : Nat) {den : Nat} (h : 0 < den) :
    2 * (roundHalfEven num den * den) ≤ 2 * num + den := by
  have split := Nat.div_add_mod num den
  have small := Nat.mod_lt num h
  have parity := Nat.mod_lt (num / den) (show 0 < 2 by decide)
  simp only [roundHalfEven]
  generalize num / den = q at *
  generalize num % den = r at *
  have hq : q * den + r = num := by rw [Nat.mul_comm]; exact split
  split
  · omega
  · split
    · rw [Nat.add_mul, Nat.one_mul]; omega
    · rcases Nat.lt_or_ge (q % 2) 1 with hz | hone
      · rw [show q % 2 = 0 by omega, Nat.add_zero]; omega
      · rw [show q % 2 = 1 by omega, Nat.add_mul, Nat.one_mul]; omega

/-- Rounding never takes more than one half away. -/
theorem le_two_mul_roundHalfEven (num : Nat) {den : Nat} (h : 0 < den) :
    2 * num ≤ 2 * (roundHalfEven num den * den) + den := by
  have split := Nat.div_add_mod num den
  have small := Nat.mod_lt num h
  have parity := Nat.mod_lt (num / den) (show 0 < 2 by decide)
  simp only [roundHalfEven]
  generalize num / den = q at *
  generalize num % den = r at *
  have hq : q * den + r = num := by rw [Nat.mul_comm]; exact split
  split
  · omega
  · split
    · rw [Nat.add_mul, Nat.one_mul]; omega
    · rcases Nat.lt_or_ge (q % 2) 1 with hz | hone
      · rw [show q % 2 = 0 by omega, Nat.add_zero]; omega
      · rw [show q % 2 = 1 by omega, Nat.add_mul, Nat.one_mul]; omega

end ClosedLoop
