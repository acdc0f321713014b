import DiceTray.Proofs.Pool.Canonical
import DiceTray.Section.Basic
import Mathlib.Data.List.Forall2

/-! Sections with the idle settings of their dice cleared. They are written the same, and they
differ from what they were at most in those settings. -/
namespace DiceTray

/-- Two throws of like pools that lie the same. -/
structure Throw.Alike (w v : Throw) : Prop where
  pool : w.pool.Alike v.pool
  groups? : w.groups? = v.groups?

/-- Two operands of one kind with the same number, the same text, or like throws. -/
inductive Operand.Alike : Operand → Operand → Prop where
  | literal (n : Int) : Alike (.literal n) (.literal n)
  | note (text : String) : Alike (.note text) (.note text)
  | plain (text : String) : Alike (.plain text) (.plain text)
  | dice {w v : Throw} (h : w.Alike v) : Alike (.dice w) (.dice v)

structure Item.Alike (a b : Item) : Prop where
  joint : a.joint = b.joint
  operand : a.operand.Alike b.operand

/-- Two sections with the same label and like items, one for one. -/
structure Section.Alike (a b : Section) : Prop where
  label? : a.label? = b.label?
  items : List.Forall₂ Item.Alike a.items b.items

/-- A change that keeps every element alike keeps a list alike, one for one. -/
theorem forall₂_map_of_forall {α : Type} {R : α → α → Prop} {change : α → α}
    (h : ∀ a, R a (change a)) (as : List α) : List.Forall₂ R as (as.map change) :=
  List.forall₂_map_right_iff.2 (List.forall₂_same.2 fun a _ => h a)

def Throw.tidy (w : Throw) : Throw := { w with pool := w.pool.tidy }

def Operand.tidy : Operand → Operand
  | .dice w => .dice w.tidy
  | o => o

def Item.tidy (item : Item) : Item := { item with operand := item.operand.tidy }

def Section.tidy (s : Section) : Section := { s with items := s.items.map Item.tidy }

theorem Throw.alike_tidy (w : Throw) : w.Alike w.tidy := ⟨w.pool.alike_tidy, rfl⟩

theorem Operand.alike_tidy (o : Operand) : o.Alike o.tidy := by
  cases o with
  | literal n => exact Alike.literal n
  | note text => exact Alike.note text
  | dice w => exact Alike.dice w.alike_tidy
  | plain text => exact Alike.plain text

theorem Item.alike_tidy (item : Item) : item.Alike item.tidy := ⟨rfl, item.operand.alike_tidy⟩

/-- Tidying a section changes nothing that plays. -/
theorem Section.alike_tidy (s : Section) : s.Alike s.tidy :=
  ⟨rfl, forall₂_map_of_forall Item.alike_tidy s.items⟩

/-- An operand is written as before. -/
theorem Operand.chars_tidy (o : Operand) : o.tidy.chars = o.chars := by
  cases o with
  | dice w => exact w.pool.chars_tidy
  | literal _ | note _ | plain _ => rfl

namespace Section

theorem leadingChars_tidy (item : Item) : leadingChars item.tidy = leadingChars item := by
  rw [leadingChars, leadingChars, Item.tidy, item.operand.chars_tidy]

theorem followingChars_tidy (item : Item) : followingChars item.tidy = followingChars item := by
  rw [followingChars, followingChars, Item.tidy, item.operand.chars_tidy]

theorem flatMap_followingChars_tidy (items : List Item) :
    (items.map Item.tidy).flatMap followingChars = items.flatMap followingChars := by
  rw [List.flatMap_map]
  exact congrArg (items.flatMap ·) (funext followingChars_tidy)

/-- Tidying a section does not show in its text. -/
theorem chars_tidy (s : Section) : s.tidy.chars = s.chars := by
  rcases s with ⟨_ | label, _ | ⟨first, rest⟩⟩
  · rfl
  · change leadingChars first.tidy ++ (rest.map Item.tidy).flatMap followingChars = _
    rw [leadingChars_tidy, flatMap_followingChars_tidy]
    rfl
  · rfl
  · change '(' :: label.toList ++ ')' :: ((first :: rest).map Item.tidy).flatMap followingChars = _
    rw [flatMap_followingChars_tidy]
    rfl

end Section
end DiceTray
