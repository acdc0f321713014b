import DiceTray.Pool.Fault
import DiceTray.Pool.Phrase
import DiceTray.Text.Blank

/-!
Reading roll terms. Tokens become a phrase, the phrase a draft, and the draft a pool; each step
names its own faults. Numbers are checked where they are taken, so of several faults the leftmost
is the one reported, and the draft is only looked at when the text is otherwise in order.
-/
namespace DiceTray
open Text

/-- How many digits times and count may have. -/
def groupDigits : Nat := 2

def sidesDigits : Nat := 3

def amountDigits : Nat := 3

def percentile : Nat := 100

/-- The modifier that a mark stands for among the suffixes. -/
def Mark.modifier? : Mark → Option Modifier
  | .explode => some .explode
  | .chain => some .chain
  | .keep => some .keep
  | .dice => some .drop
  | .reroll => some .reroll
  | .multiply => some .multiply
  | .target => some .target
  | _ => none

def Mark.modifiers : List Mark := [.explode, .chain, .keep, .dice, .reroll, .multiply, .target]

theorem Mark.mem_modifiers_iff (mark : Mark) : mark ∈ modifiers ↔ mark.modifier?.isSome := by
  cases mark <;> decide

namespace Phrase

/-- The value of a number that may have at most `limit` digits. -/
def amount (limit : Nat) (number : Token) : Except Fault Nat :=
  if limit < number.text.length then .error (.tooLong number limit) else .ok (value number.text)

/-- The number at the front, if there is one, and what follows. -/
def amount? (limit : Nat) : List Token → Except Fault (Option Nat × List Token)
  | [] => .ok (none, [])
  | t :: rest =>
    if t.mark = .number then return (some (← amount limit t), rest) else .ok (none, t :: rest)

/-- Times and count, each where it is written, and what follows. A number is the times if a times
mark comes after it, and else the count. -/
def groups? (tokens : List Token) :
    Except Fault ((Option Nat × Option Nat) × List Token) := do
  let (first?, rest) ← amount? groupDigits tokens
  match first?, rest with
  | some first, t :: later =>
    if t.mark = .times then
      let (second?, after) ← amount? groupDigits later
      return ((some first, second?), after)
    else return ((none, some first), rest)
  | _, _ => return ((none, first?), rest)

def afterDice : List Token → Except Fault (List Token)
  | [] => .error (.incomplete [.dice])
  | t :: rest => if t.mark = .dice then .ok rest else .error (.unexpected t [.dice])

/-- The number of sides, a number or a percent mark, which has to come first, and what follows. -/
def sidesOf : List Token → Except Fault (Nat × List Token)
  | [] => .error (.incomplete [.number])
  | t :: rest =>
    if t.mark = .percent then .ok (percentile, rest)
    else if t.mark = .number then return (← amount sidesDigits t, rest)
    else .error (.unexpected t [.number])

def modifierOf (t : Token) : Except Fault Modifier :=
  match t.mark.modifier? with
  | some modifier => .ok modifier
  | none => .error (.unexpected t Mark.modifiers)

/-- The suffixes, up to the end. A number after a modifier is its amount. -/
def suffixesOf : List Token → Except Fault (List Suffix)
  | [] => .ok []
  | [t] => return [⟨← modifierOf t, none⟩]
  | t :: next :: rest => do
    let modifier ← modifierOf t
    if next.mark = .number then
      let n ← amount amountDigits next
      return ⟨modifier, some n⟩ :: (← suffixesOf rest)
    else
      return ⟨modifier, none⟩ :: (← suffixesOf (next :: rest))

/-- The phrase that the tokens spell. -/
def ofTokens (tokens : List Token) : Except Fault Phrase := do
  let ((times?, count?), rest) ← groups? tokens
  let (sides, rest) ← sidesOf (← afterDice rest)
  return { times?, count?, sides, suffixes := ← suffixesOf rest }

end Phrase

namespace Pool

/-- The pool that a roll term describes; the text has no blanks and no capitals. -/
def ofChars (cs : List Char) : Except Fault Pool := do
  let phrase ← Phrase.ofTokens (Token.scan 0 cs)
  phrase.draft.build.mapError Fault.unsound

/-- The pool that a roll term describes. Blanks and the case of letters do not matter; positions
count bytes of the text without its blanks. -/
def read (text : String) : Except Fault Pool :=
  ofChars ((strip text.toList).map Char.toLower)

end Pool
end DiceTray
