import DiceTray.Number.Total

/-!
How the operands of a section combine. A running total is clamped to words of 64 bits after every
step, so a sum that leaves their range stays at its end until a later operand brings it back.
-/
namespace DiceTray

inductive Sign where
  | plus
  | minus
deriving DecidableEq, Repr

/-- How an operand joins the ones before it. -/
inductive Joint where
  /-- The first operand; there is nothing to join. -/
  | lead
  | signed (sign : Sign)
deriving DecidableEq, Repr

/-- The nearest number that a total can be. -/
def clampTotal (n : Int) : Int := max minTotal (min n maxTotal)

/-- The total after one more operand. -/
def Joint.apply (joint : Joint) (total value : Int) : Int :=
  match joint with
  | .signed .minus => clampTotal (total - value)
  | .lead | .signed .plus => clampTotal (total + value)

def Sign.chars : Sign → List Char
  | .plus => ['+']
  | .minus => ['-']

def Joint.chars : Joint → List Char
  | .lead => []
  | .signed sign => sign.chars

/-- A total stays within its range whatever joins it. -/
theorem Joint.apply_mem_range (joint : Joint) (total value : Int) :
    minTotal ≤ joint.apply total value ∧ joint.apply total value ≤ maxTotal := by
  have hrange : minTotal ≤ maxTotal := by decide
  have hclamp : ∀ n, minTotal ≤ clampTotal n ∧ clampTotal n ≤ maxTotal := by
    intro n
    unfold clampTotal
    omega
  unfold Joint.apply
  split <;> exact hclamp _

/-- Within the range nothing is clamped. -/
theorem clampTotal_of_mem_range {n : Int} (hmin : minTotal ≤ n) (hmax : n ≤ maxTotal) :
    clampTotal n = n := by
  unfold clampTotal
  omega

end DiceTray
