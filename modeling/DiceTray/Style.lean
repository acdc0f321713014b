import DiceTray.Section.Basic

/-!
Showing outcomes to people. A `Style` says how a single die and a total look; the layout around
them is the same in every style.
-/
namespace DiceTray
open Text

/-- How dice and totals look. -/
structure Style where
  /-- A face of one of the pool's dice, that counts or does not. -/
  die : Pool → (kept : Bool) → (face : Nat) → List Char
  total : Int → List Char

def between (mark text : List Char) : List Char := mark ++ text ++ mark

namespace Style

def plain : Style where
  die _ _ face := numeral face
  total := signedNumeral

/-- Markdown: the lowest and the highest face of a die are bold, dice that do not count are struck
through, and totals are set as code. -/
def markdown : Style where
  die pool kept face :=
    let shown := numeral face
    let shown := if face = 1 ∨ face = pool.sides then between ['*', '*'] shown else shown
    if kept then shown else between ['~', '~'] shown
  total n := between ['\x60'] (signedNumeral n)

/-- A group: the faces of its tally between brackets. -/
def group (s : Style) (pool : Pool) (g : Group) : List Char :=
  let dice := g.tally.zipIdx.map fun (face, place) => s.die pool (g.isKept place) face
  '[' :: [',', ' '].intercalate dice ++ [']']

/-- A throw: its pool, and the groups of its last roll. -/
def throw (s : Style) (w : Throw) : List Char :=
  match w.groups? with
  | some groups => w.chars ++ ' ' :: [' '].intercalate (groups.map (s.group w.pool))
  | none => w.chars

def operand (s : Style) : Operand → List Char
  | .dice throw => s.throw throw
  | operand => operand.chars

def leading (s : Style) (item : Item) : List Char :=
  match item.joint with
  | .signed .minus => '-' :: s.operand item.operand
  | _ => s.operand item.operand

def following (s : Style) (item : Item) : List Char :=
  match item.joint with
  | .lead => s.operand item.operand
  | .signed sign => sign.chars ++ ' ' :: s.operand item.operand

def items (s : Style) : List Item → List (List Char)
  | [] => []
  | first :: rest => s.leading first :: rest.map s.following

/-- An outcome: its label, its items and its total, with a space between any two. -/
def outcome (s : Style) (o : Outcome) : List Char :=
  let label := o.label?.toList.map fun label => '(' :: label.toList ++ [')']
  [' '].intercalate (label ++ s.items o.items ++ ['=' :: ' ' :: s.total o.total])

def outcomes (s : Style) (os : List Outcome) : List Char :=
  [',', ' '].intercalate (os.map s.outcome)

end Style
end DiceTray
