import DiceTray.Section.Operand

/-!
Sections: a label and a sum of operands. Rolling a section draws dice for its operands from left to
right; its outcome is then read off without another draw.
-/
namespace DiceTray

/-- One section of a script. -/
structure Section where
  label? : Option String := none
  items : List Item := []
deriving DecidableEq, Repr

/-- What a rolled section came to. -/
structure Outcome where
  total : Int
  label? : Option String
  /-- The operands that take part in the total, with their dice. -/
  items : List Item
deriving DecidableEq, Repr

def sumItems (items : List Item) : Int :=
  items.foldl (fun total item => item.joint.apply total item.operand.value) 0

namespace Section

variable {σ : Type}

/-- Draws fresh dice for every operand, from left to right. -/
def roll (t : Table σ) (s : Section) : StateM σ Section := do
  let items ← s.items.mapM fun item => return { item with operand := ← item.operand.roll t }
  return { s with items }

/-- What the section comes to as its dice lie. Without a label of its own it is labelled by its
first note. -/
def outcome (s : Section) : Outcome :=
  let items := s.items.filter fun item => item.operand.scores
  { total := sumItems items
    label? := s.label? <|> s.items.findSome? fun item => item.operand.note?
    items }

def isBare (s : Section) : Bool := s.label?.isNone && s.items.isEmpty

/-- An item at the start of a text. -/
def leadingChars (item : Item) : List Char :=
  match item.joint with
  | .signed .minus => '-' :: item.operand.chars
  | _ => item.operand.chars

/-- An item after others, with the space before it. -/
def followingChars (item : Item) : List Char :=
  match item.joint with
  | .lead => ' ' :: item.operand.chars
  | .signed sign => ' ' :: sign.chars ++ ' ' :: item.operand.chars

def chars (s : Section) : List Char :=
  match s.label?, s.items with
  | some label, items => '(' :: label.toList ++ ')' :: items.flatMap followingChars
  | none, [] => []
  | none, first :: rest => leadingChars first ++ rest.flatMap followingChars

def text (s : Section) : String := String.ofList s.chars

end Section
end DiceTray
