import DiceTray.Proofs.Section.Items
import DiceTray.Proofs.Section.Words
import Mathlib.Data.List.DropRight

/-! The sections that texts describe. A label is not blank at its ends and closes no parenthesis;
only the first item may lead; and only the last operand may have an opening parenthesis, which then
stays open. -/
namespace DiceTray
open Text

/-- A character that stays in a section: neither a blank nor the comma between sections. -/
def isInk (c : Char) : Bool := !isBlank c && c != ','

/-- The operand is written as a piece that ends where a sign begins. -/
inductive Operand.IsClosed : Operand → Prop where
  | literal {n : Nat} (h : n ≤ maxLiteral) : IsClosed (.literal n)
  | dice {pool : Pool} (h : pool.toDraft.Fits) : IsClosed (.dice { pool })
  | word {w : List Char} (hNe : w ≠ []) (hWord : ∀ c ∈ w, isWordChar c = true)
      (hPlain : ofWord w = .plain (String.ofList w)) : IsClosed (.plain (String.ofList w))
  | stray {run : List Char} (hNe : run ≠ []) (hLoose : ∀ c ∈ run, isLoose c = true)
      (hInk : ∀ c ∈ run, isInk c = true) : IsClosed (.plain (String.ofList run))

/-- The operand is plain text with a parenthesis that is never closed. -/
inductive Operand.IsUnclosed : Operand → Prop where
  | mk {run opened : List Char} (hLoose : ∀ c ∈ run, isLoose c = true) (hOpened : ')' ∉ opened)
      (hInk : ∀ c ∈ run ++ '(' :: opened, isInk c = true) :
      IsUnclosed (.plain (String.ofList (run ++ '(' :: opened)))

/-- Items that can stand in a row: all but the first have a sign, and all but the last are
closed. -/
inductive Item.IsRow : List Item → Prop where
  | nil : IsRow []
  | unclosed {item : Item} (h : item.operand.IsUnclosed) : IsRow [item]
  | cons {item : Item} {rest : List Item} (h : item.operand.IsClosed)
      (hSigned : ∀ next ∈ rest.head?, next.joint ≠ .lead) (hRest : IsRow rest) :
      IsRow (item :: rest)

def Joint.IsFirst (joint : Joint) : Prop := joint = .lead ∨ joint = .signed .minus

/-- A section that some text describes. -/
structure Section.WellFormed (s : Section) : Prop where
  label : ∀ label ∈ s.label?,
    labelOf label.toList = some label ∧ ')' ∉ label.toList ∧ ',' ∉ label.toList
  first : ∀ item ∈ s.items.head?, item.joint.IsFirst
  items : Item.IsRow s.items

theorem Item.IsRow.ne_lead {items : List Item} (h : IsRow items) :
    ∀ item ∈ items.tail, item.joint ≠ .lead := by
  induction h with
  | nil => simp
  | unclosed => simp
  | @cons item rest _ hSigned _ ih =>
      intro later hLater
      cases rest with
      | nil => cases hLater
      | cons next rest =>
          rcases List.mem_cons.1 hLater with rfl | hLater
          · exact hSigned later rfl
          · exact ih later hLater

/-- Only the last operand of a row may be unclosed. -/
theorem Item.IsRow.isClosed_or_last {before after : List Item} {item : Item}
    (h : IsRow (before ++ item :: after)) :
    item.operand.IsClosed ∨ item.operand.IsUnclosed ∧ after = [] := by
  induction before with
  | nil =>
      cases h with
      | unclosed hUnclosed => exact .inr ⟨hUnclosed, rfl⟩
      | cons hClosed => exact .inl hClosed
  | cons first before ih =>
      rw [List.cons_append] at h
      generalize hRest : before ++ item :: after = rest at h
      cases h with
      | unclosed => exact absurd hRest (by simp)
      | cons _ _ hRow => exact ih (hRest ▸ hRow)

/-- Whatever takes part in a well-formed section is closed, or else open and the last. -/
theorem Section.WellFormed.isClosed_or_isUnclosed {s : Section} {item : Item} (h : s.WellFormed)
    (hItem : item ∈ s.items) : item.operand.IsClosed ∨ item.operand.IsUnclosed := by
  obtain ⟨before, after, hItems⟩ := List.append_of_mem hItem
  have hRow := h.items
  rw [hItems] at hRow
  exact hRow.isClosed_or_last.imp_right And.left

theorem mem_of_mem_trim {c : Char} {cs : List Char} (h : c ∈ trim cs) : c ∈ cs := by
  have hPrefix : trim cs <+: cs.dropWhile isBlank := List.rdropWhile_prefix isBlank _
  exact (List.dropWhile_suffix isBlank).subset (hPrefix.subset h)

/-- A trimmed text has no blanks at its ends. -/
theorem trim_trim (cs : List Char) : trim (trim cs) = trim cs := by
  have hPrefix : trim cs <+: cs.dropWhile isBlank := List.rdropWhile_prefix isBlank _
  have hFront : (trim cs).dropWhile isBlank = trim cs := by
    cases hTrim : trim cs with
    | nil => rfl
    | cons c rest =>
        obtain ⟨tail, hTail⟩ := hPrefix
        have hHead := List.head?_dropWhile_not isBlank cs
        rw [← hTail, hTrim] at hHead
        have hc : isBlank c = false := by simpa using hHead
        rw [List.dropWhile_cons_of_neg (by simp [hc])]
  change List.rdropWhile isBlank ((trim cs).dropWhile isBlank) = _
  rw [hFront]
  exact List.rdropWhile_idempotent isBlank _

/-- An aside is a label if it has anything but blanks in it, and without the blanks around it. -/
theorem labelOf_eq_some_iff {inside : List Char} {label : String} :
    labelOf inside = some label ↔ trim inside ≠ [] ∧ String.ofList (trim inside) = label := by
  rw [labelOf]
  split
  · rename_i h
    simp [h]
  · rename_i h
    simp only [Option.some.injEq, ne_eq, iff_and_self]
    exact fun _ => h

/-- A label is its own label. -/
theorem labelOf_label {inside : List Char} {label : String} (h : labelOf inside = some label) :
    labelOf label.toList = some label := by
  obtain ⟨hNe, rfl⟩ := labelOf_eq_some_iff.1 h
  rw [String.toList_ofList, labelOf_eq_some_iff, trim_trim]
  exact ⟨hNe, rfl⟩

/-- A label has no character that its aside had not. -/
theorem not_mem_label {inside : List Char} {label : String} {c : Char}
    (h : labelOf inside = some label) (hc : c ∉ inside) : c ∉ label.toList := by
  obtain ⟨_, rfl⟩ := labelOf_eq_some_iff.1 h
  rw [String.toList_ofList]
  exact fun hMem => hc (mem_of_mem_trim hMem)

/-- A word is read as a closed operand. -/
theorem Operand.isClosed_ofWord {w : List Char} (hNe : w ≠ [])
    (hWord : ∀ c ∈ w, isWordChar c = true) : (ofWord w).IsClosed := by
  have hGives := Piece.gives_ofWord w
  generalize hOperand : ofWord w = o at hGives
  cases hGives with
  | literal h => exact IsClosed.literal h.2
  | dice _ hPool => exact IsClosed.dice (Pool.fits_of_ofChars hPool)
  | word => exact IsClosed.word hNe hWord hOperand

def followingItems (operands : List (Option Sign × Operand)) : List Item :=
  operands.map fun (sign?, operand) => ⟨followingJoint sign?, operand⟩

theorem ne_lead_of_followingItems (operands : List (Option Sign × Operand)) :
    ∀ item ∈ (followingItems operands).head?, item.joint ≠ .lead := by
  cases operands with
  | nil => simp [followingItems]
  | cons first rest => simp [followingItems, followingJoint]

/-- A text without commas and blanks is cut up into items in a row, of which only the last can be
open. -/
theorem isRow_of_partition {pieces : List Piece} {cs : List Char} (h : Piece.Partition pieces cs)
    (hInk : ∀ c ∈ cs, isInk c = true) (pending : Option Sign) :
    Item.IsRow (followingItems (signedOperands pending pieces)) := by
  induction h generalizing pending with
  | nil => exact Item.IsRow.nil
  | sign s _ ih => exact ih (fun c hc => hInk c (List.mem_append_right _ hc)) _
  | aside _ _ ih =>
      refine ih (fun c hc => hInk c ?_) _
      simp [hc]
  | word hNe hWord _ _ ih =>
      refine Item.IsRow.cons (Operand.isClosed_ofWord hNe hWord) (ne_lead_of_followingItems _) ?_
      exact ih (fun c hc => hInk c (List.mem_append_right _ hc)) _
  | stray hNe hLoose _ _ ih =>
      refine Item.IsRow.cons ?_ (ne_lead_of_followingItems _) ?_
      · exact Operand.IsClosed.stray hNe hLoose fun c hc => hInk c (List.mem_append_left _ hc)
      · exact ih (fun c hc => hInk c (List.mem_append_right _ hc)) _
  | unclosed hLoose hOpened =>
      exact Item.IsRow.unclosed (Operand.IsUnclosed.mk hLoose hOpened hInk)

/-- Items in a row stay so however the first one joins. -/
theorem Item.IsRow.change_first {first : Item} {rest : List Item} (joint : Joint)
    (h : IsRow (first :: rest)) : IsRow (⟨joint, first.operand⟩ :: rest) := by
  cases h with
  | unclosed h => exact IsRow.unclosed h
  | cons h hSigned hRest => exact IsRow.cons h hSigned hRest

namespace Section

/-- The items of a text without commas are in a row. -/
theorem isRow_readItems {cs : List Char} (h : ',' ∉ cs) : Item.IsRow (readItems cs) := by
  have hInk : ∀ c ∈ strip cs, isInk c = true := by
    intro c hc
    have hBlank : isBlank c = false := isBlank_of_mem_strip hc
    have hComma : c ≠ ',' := fun hEq => h (hEq ▸ List.mem_of_mem_filter hc)
    simp [isInk, hBlank, hComma]
  have hRow := isRow_of_partition (Piece.partition_scan (strip cs)) hInk none
  rw [readItems]
  cases hOperands : signedOperands none (Piece.scan (strip cs)) with
  | nil => exact Item.IsRow.nil
  | cons first rest =>
      rw [hOperands] at hRow
      exact hRow.change_first (leadingJoint first.1)

/-- The first item that is read never needs a plus. -/
theorem first_readItems (cs : List Char) :
    ∀ item ∈ (readItems cs).head?, item.joint.IsFirst := by
  rw [readItems]
  cases signedOperands none (Piece.scan (strip cs)) with
  | nil => simp [itemsOf]
  | cons first rest =>
      rcases first with ⟨_ | _ | _, operand⟩ <;> simp [itemsOf, leadingJoint, Joint.IsFirst]

/-- What a text without a comma describes is well formed. -/
theorem wellFormed_read {cs : List Char} (h : ',' ∉ cs) : (read cs).WellFormed := by
  rcases exists_aside_or_hasNoAside cs with ⟨before, inside, after, rfl, hBefore, hInside⟩ | hOpen
  · have hComma : ',' ∉ inside ∧ ',' ∉ before ++ after := by
      simp_all
    rw [read_aside after hBefore hInside]
    refine ⟨?_, first_readItems _, isRow_readItems hComma.2⟩
    intro label hLabel
    exact ⟨labelOf_label hLabel, not_mem_label hLabel hInside, not_mem_label hLabel hComma.1⟩
  · rw [read_of_hasNoAside hOpen]
    refine ⟨?_, first_readItems _, isRow_readItems h⟩
    intro label hLabel
    cases hLabel

end Section
end DiceTray
