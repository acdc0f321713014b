import DiceTray.Proofs.Section.Tidy
import DiceTray.Proofs.Section.WellFormed

/-! A well-formed section is read back from the text it is written as, with the idle settings of its
dice cleared. Written items are taken as a relation, since the first item of a section has other
blanks before it than the rest. -/
namespace DiceTray
open Text

/-- The text shows the items in order, each with its sign and any blanks before it. -/
inductive Item.Shows : List Item → List Char → Prop where
  | nil : Shows [] []
  | cons {item : Item} {rest : List Item} {signs cs : List Char}
      (hSigns : strip signs = item.joint.chars) (hOpen : '(' ∉ signs) (hComma : ',' ∉ signs)
      (hRest : Shows rest cs) :
      Shows (item :: rest) (signs ++ item.operand.chars ++ cs)

namespace Section

/-- Items in a row are written as they are shown. -/
theorem shows_following (items : List Item) : Item.Shows items (items.flatMap followingChars) := by
  induction items with
  | nil => exact Item.Shows.nil
  | cons item rest ih =>
      rw [List.flatMap_cons, followingChars]
      cases hJoint : item.joint with
      | lead =>
          have hSigns : strip [' '] = item.joint.chars := by
            rw [hJoint]
            decide
          exact Item.Shows.cons hSigns (by decide) (by decide) ih
      | signed s =>
          have hSigns : strip (' ' :: s.chars ++ [' ']) = item.joint.chars := by
            rw [hJoint]
            cases s <;> decide
          have hAll := Item.Shows.cons hSigns (by cases s <;> decide) (by cases s <;> decide) ih
          simpa using hAll

/-- So are items at the start, unless the first would need a plus. -/
theorem shows_leading {first : Item} (rest : List Item)
    (h : first.joint.IsFirst) :
    Item.Shows (first :: rest) (leadingChars first ++ rest.flatMap followingChars) := by
  rw [leadingChars]
  rcases h with hJoint | hJoint
  · have hSigns : strip [] = first.joint.chars := by rw [hJoint]; rfl
    rw [hJoint]
    exact Item.Shows.cons hSigns (by decide) (by decide) (shows_following rest)
  · have hSigns : strip ['-'] = first.joint.chars := by rw [hJoint]; decide
    rw [hJoint]
    exact Item.Shows.cons hSigns (by decide) (by decide) (shows_following rest)

end Section

/-- A sign comes next, or nothing. -/
def EndsAtSign (cs : List Char) : Prop := ∀ c ∈ cs.head?, (Sign.ofChar? c).isSome

/-- A word ends where a sign or nothing follows. -/
theorem EndsAtSign.head?_not_word {cs : List Char} (h : EndsAtSign cs) :
    ∀ c ∈ cs.head?, isWordChar c = false := by
  intro c hc
  by_contra hWord
  have hSign := h c hc
  rw [Piece.ofChar?_of_isWordChar (by simpa using hWord)] at hSign
  cases hSign

/-- And so does a stray piece. -/
theorem EndsAtSign.not_beginsStray {cs : List Char} (h : EndsAtSign cs) : ¬ BeginsStray cs := by
  cases cs with
  | nil => exact id
  | cons c cs =>
      have hSign : (Sign.ofChar? c).isSome := h c rfl
      rintro (hc | ⟨rfl, _⟩)
      · cases hOf : Sign.ofChar? c <;> simp_all [isLoose]
      · cases hSign

theorem not_mem_of_isInk {cs : List Char} (h : ∀ c ∈ cs, isInk c = true) : ',' ∉ cs := by
  intro hMem
  exact absurd (h ',' hMem) (by decide)

theorem strip_of_isInk {cs : List Char} (h : ∀ c ∈ cs, isInk c = true) : strip cs = cs := by
  refine List.filter_eq_self.2 fun c hc => ?_
  exact (Bool.and_eq_true_iff.1 (h c hc)).1

theorem isInk_of_isWordChar {c : Char} (h : isWordChar c = true) : isInk c = true := by
  have hBlank := isBlank_of_isWordChar h
  have hOther := not_mem_of_isWordChar h
  simp_all [isInk]

namespace Operand

/-- A closed operand is written without blanks and commas. -/
theorem IsClosed.isInk_chars {o : Operand} (h : o.IsClosed) : ∀ c ∈ o.chars, isInk c = true := by
  cases h with
  | literal =>
      exact fun c hc => isInk_of_isWordChar (isWordChar_of_isDigit (isDigit_of_mem_numeral hc))
  | dice => exact fun c hc => isInk_of_isWordChar (Pool.isWordChar_of_mem_chars hc)
  | word _ hWord =>
      rw [chars, String.toList_ofList]
      exact fun c hc => isInk_of_isWordChar (hWord c hc)
  | stray _ _ hInk =>
      rw [chars, String.toList_ofList]
      exact hInk

/-- A closed operand opens no parenthesis. -/
theorem IsClosed.not_mem_chars {o : Operand} (h : o.IsClosed) : '(' ∉ o.chars := by
  have hWordChar : ¬ isWordChar '(' = true := by decide
  cases h with
  | literal => exact fun hc => hWordChar (isWordChar_of_isDigit (isDigit_of_mem_numeral hc))
  | dice => exact fun hc => hWordChar (Pool.isWordChar_of_mem_chars hc)
  | word _ hWord =>
      rw [chars, String.toList_ofList]
      exact fun hc => hWordChar (hWord _ hc)
  | stray _ hLoose =>
      rw [chars, String.toList_ofList]
      exact fun hc => absurd (hLoose _ hc) (by decide)

theorem IsUnclosed.isInk_chars {o : Operand} (h : o.IsUnclosed) :
    ∀ c ∈ o.chars, isInk c = true := by
  rcases h with ⟨_, _, hInk⟩
  rw [chars, String.toList_ofList]
  exact hInk

/-- An operand with an open parenthesis has no aside, since nothing closes it. -/
theorem IsUnclosed.hasNoAside_chars {o : Operand} (h : o.IsUnclosed) : HasNoAside o.chars := by
  rcases h with ⟨hLoose, hOpened, _⟩
  have hOpen : ∀ {run : List Char}, (∀ c ∈ run, isLoose c = true) → '(' ∉ run :=
    fun hLoose hc => absurd (hLoose _ hc) (by decide)
  rw [chars, String.toList_ofList, hasNoAside_append_iff _ (hOpen hLoose), hasNoAside_cons_iff]
  exact hOpened

/-- A closed operand is a piece of any text in which a sign or nothing comes after it. -/
theorem IsClosed.exists_piece {o : Operand} (h : o.IsClosed) :
    ∃ p : Piece, p.isOperand = true ∧ p.operand = o.tidy ∧
      ∀ {pieces : List Piece} {cs : List Char}, EndsAtSign cs →
        Piece.Partition pieces cs → Piece.Partition (p :: pieces) (o.chars ++ cs) := by
  cases h with
  | @literal n h =>
      refine ⟨⟨.word, numeral n⟩, rfl, ofWord_numeral h, fun hEnds hRest => ?_⟩
      exact Piece.Partition.word (numeral_ne_nil n)
        (fun c hc => isWordChar_of_isDigit (isDigit_of_mem_numeral hc)) hEnds.head?_not_word hRest
  | @dice pool h =>
      refine ⟨⟨.word, pool.chars⟩, rfl, ofWord_chars h, fun hEnds hRest => ?_⟩
      exact Piece.Partition.word (List.ne_nil_of_mem pool.d_mem_chars)
        (fun c hc => Pool.isWordChar_of_mem_chars hc) hEnds.head?_not_word hRest
  | @word w hNe hWord hPlain =>
      refine ⟨⟨.word, w⟩, rfl, hPlain, fun hEnds hRest => ?_⟩
      rw [chars, String.toList_ofList]
      exact Piece.Partition.word hNe hWord hEnds.head?_not_word hRest
  | @stray run hNe hLoose =>
      refine ⟨⟨.stray, run⟩, rfl, rfl, fun hEnds hRest => ?_⟩
      rw [chars, String.toList_ofList]
      exact Piece.Partition.stray hNe hLoose hEnds.not_beginsStray hRest

end Operand

def Joint.sign? : Joint → Option Sign
  | .lead => none
  | .signed s => some s

/-- A sign in front of an operand is read as the sign of that operand. -/
theorem Joint.exists_partition (joint : Joint) {p : Piece} {pieces : List Piece} {cs : List Char}
    (hOperand : p.isOperand = true) (h : Piece.Partition (p :: pieces) cs) :
    ∃ all, Piece.Partition all (joint.chars ++ cs) ∧
      signedOperands none all = (joint.sign?, p.operand) :: signedOperands none pieces := by
  cases joint with
  | lead => exact ⟨p :: pieces, h, signedOperands_of_isOperand none pieces hOperand⟩
  | signed s =>
      refine ⟨⟨.sign s, s.chars⟩ :: p :: pieces, Piece.Partition.sign s h, ?_⟩
      exact signedOperands_of_isOperand (some s) pieces hOperand

namespace Item

/-- After an item comes a sign or nothing. -/
theorem Shows.endsAtSign {items : List Item} {cs : List Char} (h : Shows items cs)
    (hSigned : ∀ item ∈ items.head?, item.joint ≠ .lead) : EndsAtSign (strip cs) := by
  cases h with
  | nil => simp [EndsAtSign, strip]
  | @cons item rest signs cs hSigns =>
      have hJoint : item.joint ≠ .lead := hSigned item rfl
      rw [strip_append, strip_append, hSigns]
      cases hSign : item.joint with
      | lead => exact absurd hSign hJoint
      | signed s => cases s <;> simp [EndsAtSign, Joint.chars, Sign.chars, Sign.ofChar?]

/-- The pieces of a row are the signs and operands of its items. -/
theorem IsRow.exists_partition {items : List Item} {cs : List Char} (h : IsRow items)
    (hShows : Shows items cs) :
    ∃ pieces, Piece.Partition pieces (strip cs) ∧
      signedOperands none pieces = items.map fun item => (item.joint.sign?, item.operand.tidy) := by
  induction h generalizing cs with
  | nil =>
      cases hShows
      exact ⟨[], Piece.Partition.nil, rfl⟩
  | @unclosed item h =>
      cases hShows with
      | cons hSigns _ _ hRest =>
          cases hRest
          rw [List.append_nil, strip_append, hSigns, strip_of_isInk h.isInk_chars]
          rcases item with ⟨joint, operand⟩
          rcases h with ⟨hLoose, hOpened, _⟩
          have hPiece := Piece.Partition.unclosed hLoose hOpened
          obtain ⟨pieces, hPieces, hOperands⟩ := joint.exists_partition rfl hPiece
          rw [Operand.chars, String.toList_ofList]
          exact ⟨pieces, hPieces, hOperands⟩
  | @cons item rest h hSigned _ ih =>
      cases hShows with
      | cons hSigns _ _ hRest =>
          obtain ⟨pieces, hPieces, hOperands⟩ := ih hRest
          obtain ⟨p, hp, hTidy, hCut⟩ := h.exists_piece
          have hPiece := hCut (hRest.endsAtSign hSigned) hPieces
          obtain ⟨all, hAll, hAllOperands⟩ := item.joint.exists_partition hp hPiece
          rw [strip_append, strip_append, hSigns, strip_of_isInk h.isInk_chars, List.append_assoc]
          refine ⟨all, hAll, ?_⟩
          rw [hAllOperands, hOperands, hTidy]
          rfl

/-- Items in a row are written without an aside. -/
theorem IsRow.hasNoAside {items : List Item} {cs : List Char} (h : IsRow items)
    (hShows : Shows items cs) : HasNoAside cs := by
  induction h generalizing cs with
  | nil =>
      cases hShows
      exact hasNoAside_of_not_mem (by simp)
  | unclosed h =>
      cases hShows with
      | cons _ hOpen _ hRest =>
          cases hRest
          rw [List.append_nil, hasNoAside_append_iff _ hOpen]
          exact h.hasNoAside_chars
  | cons h _ _ ih =>
      cases hShows with
      | cons _ hOpen _ hRest =>
          rw [List.append_assoc, hasNoAside_append_iff _ hOpen,
            hasNoAside_append_iff _ h.not_mem_chars]
          exact ih hRest

theorem IsRow.not_mem_comma {items : List Item} {cs : List Char} (h : IsRow items)
    (hShows : Shows items cs) : ',' ∉ cs := by
  induction h generalizing cs with
  | nil =>
      cases hShows
      simp
  | unclosed h =>
      cases hShows with
      | cons _ _ hComma hRest =>
          cases hRest
          simp [hComma, not_mem_of_isInk h.isInk_chars]
  | cons h _ _ ih =>
      cases hShows with
      | cons _ _ hComma hRest => simp [hComma, not_mem_of_isInk h.isInk_chars, ih hRest]

end Item

/-- Items are told by their signs, if the first of them may come first. -/
theorem itemsOf_map {items : List Item}
    (hFirst : ∀ item ∈ items.head?, item.joint.IsFirst)
    (hLater : ∀ item ∈ items.tail, item.joint ≠ .lead) :
    itemsOf (items.map fun item => (item.joint.sign?, item.operand.tidy)) =
      items.map Item.tidy := by
  cases items with
  | nil => rfl
  | cons first rest =>
      have hLead : leadingJoint first.joint.sign? = first.joint := by
        rcases hFirst first rfl with h | h <;> rw [h] <;> rfl
      have hFollow : ∀ item ∈ rest, followingJoint item.joint.sign? = item.joint := by
        intro item hItem
        cases hJoint : item.joint with
        | lead => exact absurd hJoint (hLater item hItem)
        | signed s => rfl
      rw [List.map_cons, List.map_cons, itemsOf, List.map_map, hLead]
      refine congrArg₂ List.cons rfl (List.map_congr_left fun item hItem => ?_)
      simp [hFollow item hItem, Item.tidy]

namespace Section

/-- Items that are read from the text that shows them are the tidy items. -/
theorem readItems_of_shows {items : List Item} {cs : List Char} (hRow : Item.IsRow items)
    (hFirst : ∀ item ∈ items.head?, item.joint.IsFirst)
    (hShows : Item.Shows items cs) : readItems cs = items.map Item.tidy := by
  obtain ⟨pieces, hPieces, hOperands⟩ := hRow.exists_partition hShows
  rw [readItems, ← hPieces.eq_scan, hOperands, itemsOf_map hFirst hRow.ne_lead]

/-- The items of a section without a label, as written. -/
theorem WellFormed.shows_chars {items : List Item} (h : WellFormed ⟨none, items⟩) :
    Item.Shows items (chars ⟨none, items⟩) := by
  cases items with
  | nil => exact Item.Shows.nil
  | cons first rest => exact shows_leading rest (h.first first rfl)

/-- A well-formed section is read back from its text, but for idle settings. -/
theorem WellFormed.read_chars {s : Section} (h : s.WellFormed) : read s.chars = s.tidy := by
  rcases s with ⟨_ | label, items⟩
  · have hShows := h.shows_chars
    rw [read_of_hasNoAside (h.items.hasNoAside hShows), readItems_of_shows h.items h.first hShows]
    rfl
  · obtain ⟨hLabel, hClose, _⟩ := h.label label rfl
    have hShows := shows_following items
    have hRead := read_aside (items.flatMap followingChars) (List.not_mem_nil (a := '(')) hClose
    have hItems := readItems_of_shows h.items h.first hShows
    rw [List.nil_append, List.nil_append, hLabel, hItems] at hRead
    exact hRead

/-- A well-formed section is written without a comma. -/
theorem WellFormed.not_mem_chars {s : Section} (h : s.WellFormed) : ',' ∉ s.chars := by
  rcases s with ⟨_ | label, items⟩
  · exact h.items.not_mem_comma h.shows_chars
  · obtain ⟨_, _, hComma⟩ := h.label label rfl
    have hItems : ',' ∉ items.flatMap followingChars :=
      h.items.not_mem_comma (shows_following items)
    simp [chars, hComma, hItems]

/-- A blank in front of a section does not matter. -/
theorem read_blank {c : Char} (cs : List Char) (h : isBlank c = true) :
    read (c :: cs) = read cs := by
  have hItems : ∀ cs, readItems (c :: cs) = readItems cs := by
    intro cs
    have hStrip : strip (c :: cs) = strip cs := by simp [strip, h]
    rw [readItems, readItems, hStrip]
  have hOpen : c ≠ '(' := by
    rintro rfl
    exact absurd h (by decide)
  rcases exists_aside_or_hasNoAside cs with ⟨before, inside, after, rfl, hBefore, hInside⟩ | hNone
  · have hBlank : '(' ∉ c :: before := by simp [hBefore, Ne.symm hOpen]
    rw [read_aside after hBefore hInside, ← List.cons_append, read_aside after hBlank hInside,
      List.cons_append, hItems]
  · have hBlank : HasNoAside ([c] ++ cs) :=
      (hasNoAside_append_iff cs (by simp [Ne.symm hOpen])).2 hNone
    rw [read_of_hasNoAside hNone, ← hItems cs]
    exact read_of_hasNoAside hBlank

end Section
end DiceTray
