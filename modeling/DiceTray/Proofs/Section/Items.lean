import DiceTray.Proofs.Section.Aside
import DiceTray.Proofs.Section.Partition
import Mathlib.Algebra.Group.Nat.Defs
import Mathlib.Data.List.Induction

/-! The items of a section are its words and strays, one for one and in order. The joint of an item
comes from the signs since the item before: the last of them counts, and asides between them do
not. -/
namespace DiceTray
open Text

namespace Piece

def isOperand (p : Piece) : Bool := p.kind == .word || p.kind == .stray

def sign? (p : Piece) : Option Sign :=
  match p.kind with
  | .sign s => some s
  | _ => none

/-- The piece is a literal: all its characters are digits, and its value is not too large. -/
def IsLiteral (text : List Char) : Prop :=
  (∀ c ∈ text, c.isDigit = true) ∧ Text.value text ≤ 2 ^ 63 - 1

/-- The operand that a piece gives. Only words are ever numbers or dice, and what is neither is kept
letter for letter. -/
inductive Gives : Piece → Operand → Prop where
  | literal {text : List Char} (h : IsLiteral text) :
      Gives ⟨.word, text⟩ (.literal (Text.value text))
  | dice {text : List Char} {pool : Pool} (hLiteral : ¬ IsLiteral text)
      (hPool : Pool.ofChars (text.map Char.toLower) = .ok pool) :
      Gives ⟨.word, text⟩ (.dice { pool, groups? := none })
  | word {text : List Char} (hLiteral : ¬ IsLiteral text)
      (hPool : ∀ pool, Pool.ofChars (text.map Char.toLower) ≠ .ok pool) :
      Gives ⟨.word, text⟩ (.plain (String.ofList text))
  | stray {text : List Char} : Gives ⟨.stray, text⟩ (.plain (String.ofList text))

def operand (p : Piece) : Operand :=
  match p.kind with
  | .word => Operand.ofWord p.text
  | _ => .plain (String.ofList p.text)

/-- A piece gives one operand only. -/
theorem Gives.unique {p : Piece} {a b : Operand} (ha : p.Gives a) (hb : p.Gives b) : a = b := by
  cases ha with
  | literal h =>
      cases hb with
      | literal => rfl
      | dice hLiteral | word hLiteral => exact absurd h hLiteral
  | dice hLiteral hPool =>
      cases hb with
      | literal h => exact absurd h hLiteral
      | dice _ hOther =>
          rw [hPool] at hOther
          cases hOther
          rfl
      | word _ hNone => exact absurd hPool (hNone _)
  | word hLiteral hNone =>
      cases hb with
      | literal h => exact absurd h hLiteral
      | dice _ hPool => exact absurd hPool (hNone _)
      | word => rfl
  | stray =>
      cases hb
      rfl

/-- The word rule is met by what a word is read as. -/
theorem gives_ofWord (text : List Char) : Gives ⟨.word, text⟩ (Operand.ofWord text) := by
  have hLiteral : (text.all Char.isDigit && decide (value text ≤ maxLiteral)) = true ↔
      IsLiteral text := by
    rw [Bool.and_eq_true, List.all_eq_true, decide_eq_true_eq]
    rfl
  unfold Operand.ofWord
  split
  · rename_i h
    exact Gives.literal (hLiteral.1 h)
  · rename_i h
    have hNot : ¬ IsLiteral text := fun hl => h (hLiteral.2 hl)
    split
    · rename_i pool hPool
      exact Gives.dice hNot hPool
    · rename_i fault hFault
      refine Gives.word hNot fun pool hPool => ?_
      rw [hFault] at hPool
      cases hPool

/-- The rules for operands are met by what a piece is read as. -/
theorem gives_operand {p : Piece} (h : p.isOperand = true) : p.Gives p.operand := by
  rcases p with ⟨kind, text⟩
  cases kind with
  | word => exact gives_ofWord text
  | stray => exact Gives.stray
  | sign _ | aside => simp [isOperand] at h

end Piece

/-- An operand takes the sign that is pending. -/
theorem signedOperands_of_isOperand {p : Piece} (pending : Option Sign) (rest : List Piece)
    (h : p.isOperand = true) :
    signedOperands pending (p :: rest) = (pending, p.operand) :: signedOperands none rest := by
  rcases p with ⟨kind, text⟩
  cases kind with
  | word | stray => rfl
  | sign _ | aside => simp [Piece.isOperand] at h

/-- A later sign takes the place of the one that is pending. -/
theorem signedOperands_of_not_isOperand {p : Piece} (pending : Option Sign) (rest : List Piece)
    (h : p.isOperand = false) :
    signedOperands pending (p :: rest) = signedOperands (p.sign? <|> pending) rest := by
  rcases p with ⟨kind, text⟩
  cases kind with
  | sign _ | aside => rfl
  | word | stray => simp [Piece.isOperand] at h

/-- There are as many operands as pieces that are one. -/
theorem length_signedOperands (pending : Option Sign) (pieces : List Piece) :
    (signedOperands pending pieces).length = pieces.countP Piece.isOperand := by
  induction pieces generalizing pending with
  | nil => rfl
  | cons p rest ih =>
      cases h : p.isOperand with
      | true => simp [signedOperands_of_isOperand pending rest h, ih, h]
      | false => simp [signedOperands_of_not_isOperand pending rest h, ih, h]

theorem length_itemsOf (operands : List (Option Sign × Operand)) :
    (itemsOf operands).length = operands.length := by
  cases operands with
  | nil => rfl
  | cons first rest => simp [itemsOf]

end DiceTray
