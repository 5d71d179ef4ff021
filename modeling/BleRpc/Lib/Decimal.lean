import Mathlib.Data.List.Basic

/-!
# Decimal numerals

The numerals `toString` writes for natural numbers, read back. A text is a numeral if it is not empty and all of it is
digits.
-/

namespace Decimal

/-- The number a text denotes, if it is a numeral. -/
def read (text : List Char) : Option ℕ :=
  if text ≠ [] ∧ text.all Char.isDigit then some (Nat.ofDigitChars 10 text 0) else none

theorem toString_toList (n : ℕ) : (toString n).toList = Nat.toDigits 10 n := Nat.toList_repr

/-- A numeral is read as the number it was written for. -/
@[simp] theorem read_toString (n : ℕ) : read (toString n).toList = some n := by
  rw [toString_toList, read, if_pos, Nat.ofDigitChars_ten_toDigits]
  refine ⟨Nat.toDigits_ne_nil, List.all_eq_true.mpr ?_⟩
  intro c hc
  exact Nat.isDigit_of_mem_toDigits (by decide) (by decide) hc

/-- The first character of a numeral is a digit. -/
theorem exists_digit_cons (n : ℕ) : ∃ c cs, (toString n).toList = c :: cs ∧ c.isDigit := by
  rw [toString_toList]
  cases h : Nat.toDigits 10 n with
  | nil => exact absurd h Nat.toDigits_ne_nil
  | cons c cs =>
    refine ⟨c, cs, rfl, Nat.isDigit_of_mem_toDigits (b := 10) (n := n) (by decide) (by decide) ?_⟩
    rw [h]
    exact List.mem_cons_self

end Decimal
