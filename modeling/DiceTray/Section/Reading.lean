import DiceTray.Section.Basic
import DiceTray.Section.Piece
import DiceTray.Text.Blank

/-!
Reading sections. The first complete pair of parentheses is cut out and gives the label; what is
left is stripped of blanks and cut into pieces. A sign applies to the next operand, and of several
signs the last.
-/
namespace DiceTray
open Text

/-- The first opening parenthesis that is closed, up to where it is closed: the text before it, the
text inside, and the text after. -/
def cutAside (cs : List Char) : Option (List Char × List Char × List Char) :=
  match cs.span (· ≠ '(') with
  | (_, []) => none
  | (before, _ :: opened) =>
    match opened.span (· ≠ ')') with
    | (_, []) => none
    | (inside, _ :: after) => some (before, inside, after)

/-- The label that the text of an aside gives, if it is not blank. -/
def labelOf (inside : List Char) : Option String :=
  match trim inside with
  | [] => none
  | cs => some (String.ofList cs)

/-- The operands among the pieces, each with the last sign between it and the one before. -/
def signedOperands (pending : Option Sign) : List Piece → List (Option Sign × Operand)
  | [] => []
  | piece :: rest =>
    match piece.kind with
    | .sign sign => signedOperands (some sign) rest
    | .aside => signedOperands pending rest
    | .word => (pending, Operand.ofWord piece.text) :: signedOperands none rest
    | .stray => (pending, .plain (String.ofList piece.text)) :: signedOperands none rest

def leadingJoint : Option Sign → Joint
  | some .minus => .signed .minus
  | _ => .lead

/-- An operand after another is added, unless a sign says otherwise. -/
def followingJoint (sign? : Option Sign) : Joint := .signed (sign?.getD .plus)

def itemsOf : List (Option Sign × Operand) → List Item
  | [] => []
  | (sign?, operand) :: rest =>
    ⟨leadingJoint sign?, operand⟩ ::
      rest.map fun (sign?, operand) => ⟨followingJoint sign?, operand⟩

namespace Section

def readItems (cs : List Char) : List Item :=
  itemsOf (signedOperands none (Piece.scan (strip cs)))

/-- The section that a text without a comma describes. -/
def read (cs : List Char) : Section :=
  match cutAside cs with
  | some (before, inside, after) =>
    { label? := labelOf inside, items := readItems (before ++ after) }
  | none => { items := readItems cs }

end Section
end DiceTray
