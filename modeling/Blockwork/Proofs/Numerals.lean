import Blockwork.Number.Decimal

/-!
# Numerals

Different whole numbers have different numerals.
-/

namespace Blockwork.Decimal

theorem digits_injective {m n : Nat} (h : digits m = digits n) : m = n := by
  have := congrArg (Nat.ofDigitChars 10 · 0) h
  simpa only [digits, Nat.ofDigitChars_ten_toDigits] using this

theorem integer_ofNat (n : Nat) : integer n = String.ofList (digits n) := by
  simp [integer]

theorem integer_injective {m n : Nat} (h : integer m = integer n) : m = n := by
  rw [integer_ofNat, integer_ofNat] at h
  exact digits_injective (String.ofList_injective h)

end Blockwork.Decimal
