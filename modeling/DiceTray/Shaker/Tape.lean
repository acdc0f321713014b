import DiceTray.Shaker.Basic

/-!
Shakers that know their faces in advance. Their state is the number of faces shown so far.
-/
namespace DiceTray.Tape

/-- Takes the next entry of a tape of the given length and reads it; the tape starts over at its
end. -/
def next (entries : Array Nat) : StateM Nat Nat := do
  let shown ← get
  set (shown + 1)
  return entries.getD (shown % entries.size) 0

def highest : Shaker Nat := fun sides => do
  modify (· + 1)
  return sides

/-- Shows the given faces in turn, whatever the number of sides. -/
def cycle (faces : Array Nat) : Shaker Nat := fun _ => next faces

end DiceTray.Tape
