/-!
Decimal numerals. `numeral` writes a number without leading zeros, `value` reads any run of
decimal digits; `value_numeral` says that reading undoes writing.
-/
namespace DiceTray.Text

/-- The decimal digits of a number, without leading zeros. -/
def numeral (n : Nat) : List Char := Nat.toDigits 10 n

/-- The number that a run of decimal digits stands for, leading zeros allowed. -/
def value (digits : List Char) : Nat := Nat.ofDigitChars 10 digits 0

def signedNumeral : Int → List Char
  | .ofNat n => numeral n
  | .negSucc n => '-' :: numeral (n + 1)

theorem value_numeral (n : Nat) : value (numeral n) = n :=
  Nat.ofDigitChars_ten_toDigits

theorem isDigit_of_mem_numeral {c : Char} {n : Nat} (h : c ∈ numeral n) : c.isDigit = true :=
  Nat.isDigit_of_mem_toDigits (by decide) (by decide) h

theorem numeral_ne_nil (n : Nat) : numeral n ≠ [] :=
  Nat.toDigits_ne_nil

/-- A numeral tells its number. -/
theorem numeral_injective {m n : Nat} (h : numeral m = numeral n) : m = n := by
  rw [← value_numeral m, ← value_numeral n, h]

end DiceTray.Text
