/-!
Dice pools. A `Draft` is a pool as it is being put together, one setting after another, and may
make no sense yet; a `Pool` is a draft whose dice can be thrown. `Draft.build` checks, and names
the first `Flaw` if there is one.
-/
namespace DiceTray

/-- The settings of a dice pool. A zero switches a modifier off. -/
structure Draft where
  /-- How many groups are thrown. -/
  times : Nat := 1
  /-- How many dice a group starts with. -/
  count : Nat := 1
  /-- How many faces a die has. -/
  sides : Nat
  /-- The lowest face that adds another die. -/
  explode : Nat := 0
  /-- Whether added dice may add further dice. -/
  chain : Bool := false
  /-- The highest face that is drawn again. -/
  reroll : Nat := 0
  /-- How many of the highest dice count. -/
  keep : Nat := 0
  /-- How many of the lowest dice do not count; without effect under `keep`. -/
  drop : Nat := 0
  /-- What a group's total is multiplied by. -/
  multiplier : Nat := 0
  /-- The lowest face that is a success, if successes are counted rather than faces added. -/
  target : Nat := 0
deriving DecidableEq, Repr

/-- The settings that a suffix can change. -/
inductive Modifier where
  /-- Add one die for each high die. -/
  | explode
  /-- Keep adding dice while they are high. -/
  | chain
  | keep
  | drop
  | reroll
  | multiply
  | target
deriving DecidableEq, Repr

/-- The draft with one setting changed; the last change of a setting stands. Exploding once and
exploding on and on are one setting. -/
def Draft.apply (d : Draft) (modifier : Modifier) (amount : Nat) : Draft :=
  match modifier with
  | .explode => { d with explode := amount, chain := false }
  | .chain => { d with explode := amount, chain := true }
  | .keep => { d with keep := amount }
  | .drop => { d with drop := amount }
  | .reroll => { d with reroll := amount }
  | .multiply => { d with multiplier := amount }
  | .target => { d with target := amount }

inductive Flaw where
  | tooFewSides (sides : Nat)
  | zeroCount
  | zeroTimes
deriving DecidableEq, Repr

/-- A draft whose dice can be thrown: the dice have at least two faces, and there is at least one
group of at least one die. -/
structure Pool extends Draft where
  two_le_sides : 2 ≤ sides
  one_le_count : 1 ≤ count
  one_le_times : 1 ≤ times
deriving DecidableEq, Repr

/-- The pool of a draft, or the first of its flaws: sides before count before times. -/
def Draft.build (d : Draft) : Except Flaw Pool :=
  if sides : d.sides < 2 then .error (.tooFewSides d.sides)
  else if count : d.count < 1 then .error .zeroCount
  else if times : d.times < 1 then .error .zeroTimes
  else .ok ⟨d, Nat.le_of_not_lt sides, Nat.le_of_not_lt count, Nat.le_of_not_lt times⟩

namespace Pool

def explodes (p : Pool) : Bool := 0 < p.explode

/-- Some faces, but not all of them, are drawn again. A threshold that covers every face could
never be cleared and is ignored. -/
def rerolls (p : Pool) : Bool := 0 < p.reroll && p.reroll < p.sides

/-- What a group's total is multiplied by; at least one. -/
def scale (p : Pool) : Nat := max p.multiplier 1

end Pool

/-- Building a pool's own settings gives the pool back. -/
theorem Draft.build_toDraft (p : Pool) : p.toDraft.build = .ok p := by
  have hs := p.two_le_sides
  have hc := p.one_le_count
  have ht := p.one_le_times
  rw [build, dif_neg (by omega), dif_neg (by omega), dif_neg (by omega)]

/-- Building changes no setting. -/
theorem Draft.toDraft_of_build {d : Draft} {p : Pool} (h : d.build = .ok p) : p.toDraft = d := by
  unfold build at h
  split at h <;> try contradiction
  split at h <;> try contradiction
  split at h <;> try contradiction
  cases h; rfl

end DiceTray
