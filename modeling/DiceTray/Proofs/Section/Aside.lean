import DiceTray.Section.Reading
import Mathlib.Data.List.Basic
import Mathlib.Data.List.TakeDrop
import Mathlib.Data.List.TakeWhile

/-! Cutting the first aside out of a text: the first opening parenthesis that is closed, up to where
it is closed. If the first one is never closed then none is, and nothing is cut. -/
namespace DiceTray

/-- No opening parenthesis of the text has a closing one after it. -/
def HasNoAside (cs : List Char) : Prop := ¬ ['(', ')'].Sublist cs

theorem hasNoAside_of_not_mem {cs : List Char} (h : '(' ∉ cs) : HasNoAside cs :=
  fun hSub => h (hSub.subset List.mem_cons_self)

/-- A text without an opening parenthesis can go before others and makes no aside of them. -/
theorem hasNoAside_append_iff {before : List Char} (after : List Char) (h : '(' ∉ before) :
    HasNoAside (before ++ after) ↔ HasNoAside after := by
  induction before with
  | nil => rfl
  | cons c before ih =>
      rw [List.mem_cons, not_or] at h
      rw [← ih h.2, HasNoAside, HasNoAside, List.cons_append]
      refine not_congr ⟨fun hSub => ?_, fun hSub => hSub.cons c⟩
      exact hSub.of_cons_of_ne h.1

/-- A parenthesis opens no aside if it is never closed. -/
theorem hasNoAside_cons_iff {after : List Char} : HasNoAside ('(' :: after) ↔ ')' ∉ after := by
  simp [HasNoAside]

/-- A text has a first aside, or all its opening parentheses stay open. -/
theorem exists_aside_or_hasNoAside (cs : List Char) :
    (∃ before inside after : List Char, cs = before ++ '(' :: (inside ++ ')' :: after) ∧
      '(' ∉ before ∧ ')' ∉ inside) ∨ HasNoAside cs := by
  by_cases hOpen : '(' ∈ cs
  · obtain ⟨before, opened, rfl, hBefore⟩ := List.eq_append_cons_of_mem hOpen
    by_cases hClosed : ')' ∈ opened
    · obtain ⟨inside, after, rfl, hInside⟩ := List.eq_append_cons_of_mem hClosed
      exact .inl ⟨before, inside, after, rfl, hBefore, hInside⟩
    · exact .inr ((hasNoAside_append_iff _ hBefore).2 (hasNoAside_cons_iff.2 hClosed))
  · exact .inr (hasNoAside_of_not_mem hOpen)

/-- A text is split at the first separator. -/
theorem span_ne_append {c : Char} {before : List Char} (after : List Char) (h : c ∉ before) :
    (before ++ c :: after).span (· ≠ c) = (before, c :: after) := by
  have hBefore : ∀ d ∈ before, decide (d ≠ c) = true := by
    intro d hd
    exact decide_eq_true fun hEq => h (hEq ▸ hd)
  rw [List.span_eq_takeWhile_dropWhile, List.takeWhile_append_of_pos hBefore,
    List.dropWhile_append_of_pos hBefore]
  simp

theorem span_ne_of_not_mem {c : Char} {cs : List Char} (h : c ∉ cs) :
    cs.span (· ≠ c) = (cs, []) := by
  have hAll : ∀ d ∈ cs, decide (d ≠ c) = true := by
    intro d hd
    exact decide_eq_true fun hEq => h (hEq ▸ hd)
  rw [List.span_eq_takeWhile_dropWhile, List.takeWhile_eq_self_iff.2 hAll,
    List.dropWhile_eq_nil_iff.2 hAll]

/-- The first aside is cut out, and what is around it is kept in two parts. -/
theorem cutAside_append {before inside : List Char} (after : List Char) (hBefore : '(' ∉ before)
    (hInside : ')' ∉ inside) :
    cutAside (before ++ '(' :: (inside ++ ')' :: after)) = some (before, inside, after) := by
  rw [cutAside, span_ne_append _ hBefore]
  simp only [span_ne_append _ hInside]

/-- Where there is no aside nothing is cut out. -/
theorem cutAside_of_hasNoAside {cs : List Char} (h : HasNoAside cs) : cutAside cs = none := by
  by_cases hOpen : '(' ∈ cs
  · obtain ⟨before, after, rfl, hBefore⟩ := List.eq_append_cons_of_mem hOpen
    have hAfter : ')' ∉ after := hasNoAside_cons_iff.1 ((hasNoAside_append_iff _ hBefore).1 h)
    rw [cutAside, span_ne_append _ hBefore]
    simp only [span_ne_of_not_mem hAfter]
  · rw [cutAside, span_ne_of_not_mem hOpen]

namespace Section

/-- A section with an aside is labelled by it and has the items of what is around it. -/
theorem read_aside {before inside : List Char} (after : List Char) (hBefore : '(' ∉ before)
    (hInside : ')' ∉ inside) :
    read (before ++ '(' :: (inside ++ ')' :: after)) =
      { label? := labelOf inside, items := readItems (before ++ after) } := by
  rw [read, cutAside_append after hBefore hInside]

/-- A section without an aside has the items of the whole text and no label. -/
theorem read_of_hasNoAside {cs : List Char} (h : HasNoAside cs) :
    read cs = { items := readItems cs } := by
  rw [read, cutAside_of_hasNoAside h]

end Section
end DiceTray
