import DiceTray.Shaker.Basic
import DiceTray.Shaker.Tape

/-!
Fair faces from random words of 32 bits. A word times the number of sides is read as a number with
32 binary places: its whole part picks the face, and the word is accepted if its places are at most
`zone`. Every face has equally many accepted words, a power of two, so no face is favoured; all
other words are passed over.
-/
namespace DiceTray.Words

def wordCount : Nat := 0x100000000

/-- How often the number of sides can be doubled and stay a word. -/
def headroom (sides : Nat) : Nat := 31 - sides.log2

/-- The highest places that are accepted. -/
def zone (sides : Nat) : Nat := sides <<< headroom sides - 1

/-- The word settles on a face. -/
def accepts (sides word : Nat) : Bool := word * sides % wordCount ≤ zone sides

/-- The face that an accepted word settles on. -/
def face (sides word : Nat) : Nat := 1 + word * sides / wordCount

variable {σ : Type}

/-- Takes words until one is accepted, but at most `attempts` of them; no face if all were passed
over. -/
def faceWithin (word : StateM σ Nat) (sides : Nat) : (attempts : Nat) → StateM σ (Option Nat)
  | 0 => return none
  | attempts + 1 => do
    let w ← word
    if accepts sides w then return some (face sides w)
    else faceWithin word sides attempts

/-- The face of the first accepted word; one if there is none among `attempts` words. -/
def shaker (word : StateM σ Nat) (attempts : Nat) : Shaker σ := fun sides =>
  return (← faceWithin word sides attempts).getD 1

/-- Takes its words from a tape. If no word of the tape is accepted then none ever is, so one round
of the tape is enough to try. -/
def ofTape (words : Array Nat) : Shaker Nat := shaker (Tape.next words) words.size

end DiceTray.Words
