import Mathlib.Logic.Function.Basic
set_option autoImplicit false

/-! The decimal text of a natural number. -/

namespace Numerals

theorem toString_injective : Function.Injective (toString : Nat → String) := by
  intro m n h
  have hdigits : Nat.toDigits 10 m = Nat.toDigits 10 n := by
    rw [← Nat.toList_repr,← Nat.toList_repr]
    exact congrArg String.toList h
  rw [← Nat.ofDigitChars_ten_toDigits (n := m),hdigits,Nat.ofDigitChars_ten_toDigits]

theorem toString_ne {text : String} {ch : Char} (hmem : ch ∈ text.toList)
    (hch : ch.isDigit = false) (n : Nat) : toString n ≠ text := by
  rintro rfl
  have hdigits : ch ∈ Nat.toDigits 10 n := Nat.toList_repr ▸ hmem
  have hdigit := Nat.isDigit_of_mem_toDigits (by omega) (by omega) hdigits
  rw [hch] at hdigit
  cases hdigit

end Numerals
