import DiceTray.Section.Joint

/-!
Pieces: what a section without its blanks is made of. `Piece.scan` cuts a text into signs, words,
complete asides between parentheses, and strays, which are runs of anything else. Nothing is lost:
the texts of the pieces join to the text that was scanned (`flatMap_text_scan`).
-/
namespace DiceTray

inductive PieceKind where
  | sign (sign : Sign)
  /-- A longest run of the characters that numbers and roll terms are written with. -/
  | word
  /-- Text between parentheses. -/
  | aside
  /-- A longest run of anything else; a parenthesis that is never closed takes all that follows. -/
  | stray
deriving DecidableEq, Repr

structure Piece where
  kind : PieceKind
  text : List Char
deriving DecidableEq, Repr

/-- Numbers and roll terms may be written with this character. -/
def isWordChar (c : Char) : Bool := c.isAlphanum || c == '%' || c == '*' || c == '!'

def Sign.ofChar? : Char → Option Sign
  | '+' => some .plus
  | '-' => some .minus
  | _ => none

namespace Piece

/-- How many characters at the front belong to one stray run. -/
def strayLength : List Char → Nat
  | [] => 0
  | c :: cs =>
    if c = '(' then if ')' ∈ cs then 0 else cs.length + 1
    else if (Sign.ofChar? c).isSome || isWordChar c then 0
    else strayLength cs + 1

/-- The piece at the front of `c :: cs`: its kind, and how many characters of `cs` it takes. -/
def front (c : Char) (cs : List Char) : PieceKind × Nat :=
  match Sign.ofChar? c with
  | some sign => (.sign sign, 0)
  | none =>
    if isWordChar c then (.word, (cs.takeWhile isWordChar).length)
    else if c = '(' ∧ ')' ∈ cs then (.aside, (cs.takeWhile (· ≠ ')')).length + 1)
    else (.stray, strayLength (c :: cs) - 1)

/-- The pieces of a text without blanks. -/
def scan : List Char → List Piece
  | [] => []
  | c :: cs =>
    let (kind, more) := front c cs
    ⟨kind, c :: cs.take more⟩ :: scan (cs.drop more)
termination_by cs => cs.length
decreasing_by simp only [List.length_drop, List.length_cons]; omega

@[simp] theorem scan_nil : scan [] = [] := by rw [scan]

/-- The piece at the front is cut off, and the scan goes on behind it. -/
theorem scan_cons (c : Char) (cs : List Char) :
    scan (c :: cs) =
      ⟨(front c cs).1, c :: cs.take (front c cs).2⟩ :: scan (cs.drop (front c cs).2) := by
  rw [scan]

/-- The texts of the pieces join to the text that was scanned. -/
theorem flatMap_text_scan (cs : List Char) : (scan cs).flatMap text = cs := by
  fun_induction scan cs with
  | case1 => rfl
  | case2 c cs kind more front ih =>
    rw [List.flatMap_cons, ih]
    simp

end Piece
end DiceTray
