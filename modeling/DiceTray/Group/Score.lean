import DiceTray.Group.Spill
import DiceTray.Number.Total

/-!
Scoring a group. The dice are ranked, the higher face first and of equal faces the earlier; as many
of the first as the pool allows are kept, and only these count. What they are worth is an exact
number; a program holds a word in its place.
-/
namespace DiceTray

/-- A group that has been thrown and scored. -/
structure Group where
  /-- The faces in the order in which the dice came to rest. -/
  tally : List Nat
  /-- For each die of the tally, whether it counts. -/
  kept : List Bool
  total : Nat
deriving DecidableEq, Repr

/-- Whether the die at a place counts; there is none past the end. -/
def Group.isKept (g : Group) (place : Nat) : Bool := g.kept.getD place false

/-- How many of `n` dice count. Keeping takes precedence over dropping. -/
def Pool.quota (p : Pool) (n : Nat) : Nat := if 0 < p.keep then min p.keep n else n - p.drop

/-- A die, given by its face and its place, does not rank below another. -/
def ranksFirst (a b : Nat × Nat) : Bool := b.1 < a.1 || (b.1 == a.1 && a.2 ≤ b.2)

def ranking (tally : List Nat) : List (Nat × Nat) := tally.zipIdx.mergeSort ranksFirst

def Pool.keptFaces (p : Pool) (tally : List Nat) : List Nat :=
  ((ranking tally).take (p.quota tally.length)).map Prod.fst

/-- What the kept faces are worth: the number of successes if there is a target, else the sum. -/
def Pool.worth (p : Pool) (faces : List Nat) : Nat :=
  (if 0 < p.target then faces.countP (p.target ≤ ·) else faces.foldr (· + ·) 0) * p.scale

/-- The score of a tally. The dice before the first die left out count; where none is left out, all
do. -/
def Pool.score (p : Pool) (tally : List Nat) : Group :=
  let ranks := ranking tally
  let quota := p.quota tally.length
  let out? := ranks[quota]?
  { tally
    kept := tally.zipIdx.map fun die => !out?.any (ranksFirst · die)
    total := p.worth ((ranks.take quota).map Prod.fst) }

structure Scored where
  tally : List Nat
  kept : List Bool
  total : Int
deriving DecidableEq, Repr

/-- The worth of kept faces, computed with words at every step. -/
def Pool.worthIn (p : Pool) (o : Overflow) (faces : List Nat) : Option Int := do
  let worth ←
    if 0 < p.target then o.word (faces.countP (p.target ≤ ·))
    else o.sum (faces.map Int.ofNat)
  o.word (worth * p.scale)

/-- The score of a tally, with the worth computed with words. -/
def Pool.scoreIn (p : Pool) (o : Overflow) (tally : List Nat) : Option Scored :=
  return { tally, kept := (p.score tally).kept, total := ← p.worthIn o (p.keptFaces tally) }

/-- What a program holds in place of the group. -/
def Group.scored (g : Group) : Scored := ⟨g.tally, g.kept, wrapTotal g.total⟩

theorem Group.total_scored (g : Group) : g.scored.total = wrapTotal g.total := rfl

/-- Ranking loses no die and brings in none. -/
theorem ranking_perm (tally : List Nat) : (ranking tally).Perm tally.zipIdx :=
  List.mergeSort_perm ..

/-- Every die of the tally has its mark. -/
theorem Pool.length_kept (p : Pool) (tally : List Nat) :
    (p.score tally).kept.length = tally.length := by
  simp [score]

/-- There is no die past the end of the tally. -/
theorem Pool.isKept_of_length_le (p : Pool) {tally : List Nat} {place : Nat}
    (h : tally.length ≤ place) : (p.score tally).isKept place = false := by
  rw [← p.length_kept tally] at h
  rw [Group.isKept, List.getD_eq_getElem?_getD, List.getElem?_eq_none h, Option.getD_none]

variable {σ : Type}

/-- Throws and scores one group. -/
def Table.throwGroup (t : Table σ) (p : Pool) : StateM σ Group :=
  return p.score (← t.spill p).tally

end DiceTray
