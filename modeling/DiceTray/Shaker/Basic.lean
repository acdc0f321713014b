/-!
Shakers and tables. A shaker answers each request for a face from its own state, so every run from
one state is the same run. A table pairs a shaker with the limits that keep a single die from
rolling on for ever.
-/
namespace DiceTray

/-- A source of faces: given a number of sides, it shows a face and moves on. A well-behaved shaker
shows faces from one to the number of sides; nothing here relies on that. -/
abbrev Shaker (σ : Type) := Nat → StateM σ Nat

/-- Bounds on what a single die may set off. -/
structure Limits where
  /-- How many dice one die may add. -/
  explode : Nat := 20
  /-- How often one die may be drawn again; the last draw then stands. -/
  reroll : Nat := 100
deriving DecidableEq, Repr

/-- What dice are thrown with. -/
structure Table (σ : Type) where
  shaker : Shaker σ
  limits : Limits := {}

variable {σ α : Type}

/-- The results of doing an action `n` times, in order. -/
def collect (action : StateM σ α) : Nat → StateM σ (List α)
  | 0 => pure []
  | n + 1 => do
    let first ← action
    return first :: (← collect action n)

end DiceTray
