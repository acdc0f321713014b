/-!
Rounding a natural number to its leading binary digits. The nearest number with that many digits
is taken, and of two equally near the one whose last kept digit is zero.
-/
namespace DiceTray

/-- The quotient, rounded to the nearest; a half goes to the even neighbour. -/
def divToNearest (n d : Nat) : Nat :=
  if d < 2 * (n % d) ∨ (d = 2 * (n % d) ∧ n / d % 2 = 1) then n / d + 1 else n / d

/-- The nearest number with at most `bits` significant binary digits. -/
def roundToBits (bits n : Nat) : Nat :=
  let unit := 1 <<< (n.log2 + 1 - bits)
  divToNearest n unit * unit

@[simp] theorem divToNearest_one (n : Nat) : divToNearest n 1 = n := by
  simp [divToNearest, Nat.mod_one]

/-- A number with few enough digits stays as it is. -/
theorem roundToBits_of_log2_lt {bits n : Nat} (h : n.log2 < bits) : roundToBits bits n = n := by
  have hunit : n.log2 + 1 - bits = 0 := by omega
  simp [roundToBits, hunit]

end DiceTray
