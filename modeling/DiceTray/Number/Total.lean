/-!
Totals are words of 64 bits. Where the dice of a throw are added up, a number that is no total
either ends the program or is wrapped around; which of the two is a choice made for the whole
program. Both come to the same while nothing leaves the range.
-/
namespace DiceTray

def minTotal : Int := -0x8000000000000000
def maxTotal : Int := 0x7fffffffffffffff

/-- Totals can be this number. -/
def IsTotal (n : Int) : Prop := minTotal ≤ n ∧ n ≤ maxTotal

instance (n : Int) : Decidable (IsTotal n) := inferInstanceAs (Decidable (_ ∧ _))

/-- The total that differs from the number by a multiple of `2 ^ 64`. -/
@[irreducible]
def wrapTotal (n : Int) : Int := n.bmod 0x10000000000000000

/-- What is done with a sum or a product that is no total. -/
inductive Overflow where
  /-- The program stops. -/
  | stops
  /-- The number is wrapped. -/
  | wraps
deriving DecidableEq, Repr

namespace Overflow

/-- The number as a total; none where the program stops. -/
def word (o : Overflow) (n : Int) : Option Int :=
  if IsTotal n then some n
  else match o with
    | .stops => none
    | .wraps => some (wrapTotal n)

/-- The numbers added up from left to right. -/
def sum (o : Overflow) (ns : List Int) : Option Int :=
  ns.foldlM (fun sum n => o.word (sum + n)) 0

end Overflow

theorem isTotal_wrapTotal (n : Int) : IsTotal (wrapTotal n) := by
  have hLow := Int.le_bmod (x := n) (m := 0x10000000000000000) (by decide)
  have hHigh := Int.bmod_lt (x := n) (m := 0x10000000000000000) (by decide)
  unfold IsTotal minTotal maxTotal wrapTotal
  omega

/-- A total is left as it is. -/
theorem wrapTotal_of_isTotal {n : Int} (h : IsTotal n) : wrapTotal n = n := by
  unfold IsTotal minTotal maxTotal at h
  unfold wrapTotal
  exact Int.bmod_eq_of_le (by omega) (by omega)

/-- Wrapping before adding makes no difference to the wrapped sum. -/
theorem wrapTotal_add_wrapTotal (m n : Int) : wrapTotal (m + wrapTotal n) = wrapTotal (m + n) := by
  unfold wrapTotal
  exact Int.add_bmod_bmod

/-- Nor does wrapping before multiplying to the wrapped product. -/
theorem wrapTotal_wrapTotal_mul (m n : Int) : wrapTotal (wrapTotal m * n) = wrapTotal (m * n) := by
  unfold wrapTotal
  exact Int.bmod_mul_bmod

namespace Overflow

theorem word_of_isTotal {o : Overflow} {n : Int} (h : IsTotal n) : o.word n = some n := if_pos h

theorem word_wraps (n : Int) : wraps.word n = some (wrapTotal n) := by
  by_cases h : IsTotal n
  · rw [word_of_isTotal h, wrapTotal_of_isTotal h]
  · exact if_neg h

theorem word_stops_of_not_isTotal {n : Int} (h : ¬ IsTotal n) : stops.word n = none := if_neg h

/-- A program is stopped only by numbers that are no totals. -/
theorem word_eq_none_iff {o : Overflow} {n : Int} :
    o.word n = none ↔ o = .stops ∧ ¬ IsTotal n := by
  cases o with
  | stops => by_cases h : IsTotal n <;> simp [word_of_isTotal, word_stops_of_not_isTotal, h]
  | wraps => simp [word_wraps]

/-- Where the program goes on, the total is the wrapped number. -/
theorem word_eq_some {o : Overflow} {n : Int} (h : o = .stops → IsTotal n) :
    o.word n = some (wrapTotal n) := by
  cases o with
  | stops => rw [word_of_isTotal (h rfl), wrapTotal_of_isTotal (h rfl)]
  | wraps => exact word_wraps n

end Overflow
end DiceTray
