import DiceTray.Proofs.Section.Aside

/-! Changing a section everywhere but in its first aside. What reading makes of such a change is
told by what it makes of it in texts without a label. Main statement: blanks do not matter there. -/
namespace DiceTray
open Text

/-- The text with the change made on both sides of its first aside; the parentheses and what is
inside them stay as they are. -/
def outsideAside (change : List Char → List Char) (cs : List Char) : List Char :=
  match cutAside cs with
  | some (before, inside, after) => change before ++ '(' :: (inside ++ ')' :: change after)
  | none => change cs

/-- A change outside the aside works on both sides of it. -/
theorem outsideAside_append (change : List Char → List Char) {before inside : List Char}
    (after : List Char) (hBefore : '(' ∉ before) (hInside : ')' ∉ inside) :
    outsideAside change (before ++ '(' :: (inside ++ ')' :: after)) =
      change before ++ '(' :: (inside ++ ')' :: change after) := by
  rw [outsideAside, cutAside_append after hBefore hInside]

/-- Without an aside a change works on the whole text. -/
theorem outsideAside_of_hasNoAside (change : List Char → List Char) {cs : List Char}
    (h : HasNoAside cs) : outsideAside change cs = change cs := by
  rw [outsideAside, cutAside_of_hasNoAside h]

/-- A change that brings in no character of some kind brings in none outside the aside. -/
theorem not_mem_outsideAside {change : List Char → List Char} {c : Char}
    (hChange : ∀ cs, c ∉ cs → c ∉ change cs) {cs : List Char} (h : c ∉ cs) :
    c ∉ outsideAside change cs := by
  rcases exists_aside_or_hasNoAside cs with ⟨before, inside, after, rfl, hBefore, hInside⟩ | hOpen
  · rw [outsideAside_append change after hBefore hInside]
    simp only [List.mem_append, List.mem_cons, not_or] at h ⊢
    exact ⟨hChange before h.1, h.2.1, h.2.2.1, h.2.2.2.1, hChange after h.2.2.2.2⟩
  · rw [outsideAside_of_hasNoAside change hOpen]
    exact hChange cs h

/-- A change that goes through a text piece by piece and brings no aside about. -/
structure KeepsOpen (change : List Char → List Char) : Prop where
  append (as bs : List Char) : change (as ++ bs) = change as ++ change bs
  not_mem (cs : List Char) : '(' ∉ cs → '(' ∉ change cs
  hasNoAside (cs : List Char) : HasNoAside cs → HasNoAside (change cs)

namespace Section

/-- Outside the first aside, a change to the text is a change to the items and to nothing else. -/
theorem read_outsideAside {change : List Char → List Char} {items : List Item → List Item}
    (hChange : KeepsOpen change) (hItems : ∀ cs, readItems (change cs) = items (readItems cs))
    (cs : List Char) :
    read (outsideAside change cs) = { read cs with items := items (read cs).items } := by
  rcases exists_aside_or_hasNoAside cs with ⟨before, inside, after, rfl, hBefore, hInside⟩ | hOpen
  · rw [outsideAside_append change after hBefore hInside, read_aside after hBefore hInside,
      read_aside _ (hChange.not_mem before hBefore) hInside, ← hChange.append, hItems]
  · rw [outsideAside_of_hasNoAside change hOpen, read_of_hasNoAside hOpen,
      read_of_hasNoAside (hChange.hasNoAside cs hOpen), hItems]

end Section

theorem strip_sublist (cs : List Char) : (strip cs).Sublist cs := List.filter_sublist

/-- Taking out blanks neither makes nor breaks an aside. -/
theorem keepsOpen_strip : KeepsOpen strip where
  append := strip_append
  not_mem cs hOpen hMem := hOpen ((strip_sublist cs).subset hMem)
  hasNoAside cs hOpen hSub := hOpen (hSub.trans (strip_sublist cs))

/-- Blanks outside the first aside do not matter. -/
theorem Section.read_outsideAside_strip (cs : List Char) :
    read (outsideAside strip cs) = read cs := by
  have hItems : ∀ cs, readItems (strip cs) = id (readItems cs) := fun cs => by
    rw [readItems, strip_strip, id_eq, readItems]
  rw [read_outsideAside keepsOpen_strip hItems, id_eq]

end DiceTray
