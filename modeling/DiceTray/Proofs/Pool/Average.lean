import DiceTray.Proofs.Group.Worth
import DiceTray.Proofs.Number.Rounding
import Mathlib.Algebra.Order.Field.Rat
import Mathlib.Tactic.Linarith
import Mathlib.Tactic.NormNum

/-! The average of a pool is half of the rounded sum of its bounds. Rounding is monotone and goes
together with doubling, so the average lies between the rounded bounds however great they are; and
half of a whole number needs no more than one decimal. -/
namespace DiceTray
open Text

/-- The text gives the number with one decimal. -/
def GivesOneDecimal (text : String) (x : ℚ) : Prop :=
  ∃ whole tenths : ℕ, tenths < 10 ∧ text = String.ofList (numeral whole ++ '.' :: numeral tenths) ∧
    x = whole + tenths / 10

namespace Pool

def average (p : Pool) : ℚ := p.twiceAverage / 2

/-- Twice the average lies between the doubled bounds, all of them rounded. -/
theorem twiceAverage_mem_range (p : Pool) :
    2 * roundToBits 53 p.minimum ≤ p.twiceAverage ∧
      p.twiceAverage ≤ 2 * roundToBits 53 p.maximum := by
  have hOrder := p.minimum_le_maximum
  rw [← roundToBits_two_mul (by decide), ← roundToBits_two_mul (by decide)]
  exact ⟨roundToBits_mono (by decide) (by omega), roundToBits_mono (by decide) (by omega)⟩

/-- What is left over when the rounded sum is halved counts five tenths. -/
theorem givesOneDecimal_averageText (p : Pool) : GivesOneDecimal p.averageText p.average := by
  have hHalved :
      (p.twiceAverage : ℚ) = 2 * (p.twiceAverage / 2 : ℕ) + (p.twiceAverage % 2 : ℕ) := by
    exact_mod_cast (Nat.div_add_mod p.twiceAverage 2).symm
  refine ⟨p.twiceAverage / 2, 5 * (p.twiceAverage % 2), by omega, ?_, ?_⟩
  · rcases Nat.mod_two_eq_zero_or_one p.twiceAverage with hLeft | hLeft
    all_goals
      rw [averageText, hLeft]
      rfl
  · rw [average]
    push_cast
    linarith

/-- The average of a pool and its bounds, where numbers are rounded to 53 binary digits, ties to
even. The bounds are in order, and the average, which is half of their rounded sum, lies between
them once they are rounded too. A sum of at most `2 ^ 53` is not changed by rounding. Twice the
average is a whole number always, and so its text with one decimal is exact. -/
theorem average_between_bounds (p : Pool) :
    (∀ n, IsRounded 53 n (roundToBits 53 n)) ∧
      p.minimum ≤ p.maximum ∧
      (p.average = (roundToBits 53 (p.maximum + p.minimum) : ℚ) / 2 ∧
        (roundToBits 53 p.minimum : ℚ) ≤ p.average ∧
        p.average ≤ (roundToBits 53 p.maximum : ℚ)) ∧
      (p.maximum + p.minimum ≤ 2 ^ 53 → p.average = ((p.maximum : ℚ) + p.minimum) / 2) ∧
      (∃ n : ℕ, 2 * p.average = n) ∧
      GivesOneDecimal p.averageText p.average := by
  obtain ⟨hLower, hUpper⟩ := p.twiceAverage_mem_range
  refine ⟨fun n => isRounded_roundToBits (by decide) n, p.minimum_le_maximum, ⟨rfl, ?_, ?_⟩, ?_,
    ⟨p.twiceAverage, mul_div_cancel₀ _ two_ne_zero⟩, p.givesOneDecimal_averageText⟩
  · rw [average, le_div_iff₀ two_pos, mul_comm]
    exact_mod_cast hLower
  · rw [average, div_le_iff₀ two_pos, mul_comm]
    exact_mod_cast hUpper
  · intro hSmall
    have hExact : p.twiceAverage = p.maximum + p.minimum :=
      roundToBits_of_fitsIn (by decide) (fitsIn_of_le_two_pow (by decide) hSmall)
    rw [average, hExact, Nat.cast_add]

/-- Three dice, and a die that always counts for its highest face. Its bounds are one number of 62
digits, and so the average is what this number is rounded to, which is above it. -/
theorem average_between_bounds_of_equal_bounds :
    let p : Pool := ⟨{ sides := 6, count := 3 }, by decide, by decide, by decide⟩
    let q : Pool := ⟨{ sides := 2 ^ 31 - 1, reroll := 2 ^ 31 - 1, multiplier := 2 ^ 31 + 1 },
      by decide, by decide, by decide⟩
    (p.maximum + p.minimum ≤ 2 ^ 53 ∧ p.average = 21 / 2) ∧
      q.minimum = 2 ^ 62 - 1 ∧ q.maximum = 2 ^ 62 - 1 ∧ q.average = 2 ^ 62 := by
  intro p q
  have hSmall : p.maximum + p.minimum ≤ 2 ^ 53 := by decide
  have hRounded : roundToBits 53 q.minimum = 2 ^ 62 ∧ roundToBits 53 q.maximum = 2 ^ 62 := by
    decide +kernel
  obtain ⟨-, -, -, hExact, -⟩ := average_between_bounds p
  obtain ⟨-, -, ⟨-, hLower, hUpper⟩, -⟩ := average_between_bounds q
  rw [hRounded.1] at hLower
  rw [hRounded.2] at hUpper
  refine ⟨⟨hSmall, ?_⟩, by decide +kernel, by decide +kernel, ?_⟩
  · have hBounds : p.maximum = 18 ∧ p.minimum = 3 := by decide
    rw [hExact hSmall, hBounds.1, hBounds.2]
    norm_num
  · exact le_antisymm (by exact_mod_cast hUpper) (by exact_mod_cast hLower)

end Pool
end DiceTray
