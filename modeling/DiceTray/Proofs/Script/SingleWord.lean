import DiceTray.Proofs.Script.Layout
import DiceTray.Proofs.Section.WellFormed

/-! Texts of a single word. A roll term can be read by itself or as a script, and both readings
agree: a script is what becomes of its words, and a word that is no roll term stays a number or
plain text. -/
namespace DiceTray
open Text

theorem Figure.isWordChar_of_mem {limit : Nat} {f? : Option (Figure limit)} {c : Char}
    (h : c ∈ f?.elim [] Figure.digits) : isWordChar c = true := by
  cases f? with
  | none => cases h
  | some f => exact isWordChar_of_isDigit (f.isDigit c h)

theorem Affix.isWordChar_of_mem_chars {a : Affix} {c : Char} (h : c ∈ a.chars) :
    isWordChar c = true := by
  rcases List.mem_append.1 h with h | h
  · have hSigil : a.sigil.chars.all isWordChar = true := by cases a.sigil <;> decide
    exact List.all_eq_true.1 hSigil c h
  · exact Figure.isWordChar_of_mem h

namespace RollTerm

/-- A roll term is written with letters, digits and marks that a word can have. -/
theorem isWordChar_of_mem_chars {t : RollTerm} {c : Char} (h : c ∈ t.chars) :
    isWordChar c = true := by
  have hLetters : isWordChar 'x' = true ∧ isWordChar 'd' = true ∧ isWordChar '%' = true := by decide
  rw [chars, List.append_assoc, List.append_assoc, List.mem_append, List.mem_append,
    List.cons_append, List.mem_cons, List.mem_append, List.mem_flatMap] at h
  rcases h with h | h | rfl | h | ⟨a, _, h⟩
  · cases hTimes : t.times? with
    | none => rw [hTimes] at h; cases h
    | some f =>
        rw [hTimes, Option.elim_some, List.mem_append, List.mem_singleton] at h
        rcases h with h | rfl
        · exact isWordChar_of_isDigit (f.isDigit c h)
        · exact hLetters.1
  · exact Figure.isWordChar_of_mem h
  · exact hLetters.2.1
  · cases hFaces : t.faces with
    | percent =>
        rw [hFaces, Faces.chars, List.mem_singleton] at h
        exact h ▸ hLetters.2.2
    | figure f =>
        rw [hFaces] at h
        exact isWordChar_of_isDigit (f.isDigit c h)
  · exact Affix.isWordChar_of_mem_chars h

/-- Every roll term has a dice mark, so it is no number. -/
theorem d_mem_chars (t : RollTerm) : 'd' ∈ t.chars := by
  simp [chars]

end RollTerm

/-- The letters of a roll term are those of a word, and not all of them are digits. -/
theorem Pool.word_of_ofChars {w : List Char} {p : Pool}
    (h : Pool.ofChars (w.map Char.toLower) = .ok p) :
    (∀ c ∈ w, isWordChar c = true) ∧ ∃ c ∈ w, c.isDigit = false := by
  obtain ⟨t, hChars, _⟩ := Pool.ofChars_eq_ok_iff.1 h
  constructor
  · intro c hc
    rw [← isWordChar_toLower]
    refine t.isWordChar_of_mem_chars ?_
    rw [hChars]
    exact List.mem_map_of_mem hc
  · have hDice := t.d_mem_chars
    rw [hChars] at hDice
    obtain ⟨c, hc, hLower⟩ := List.mem_map.1 hDice
    refine ⟨c, hc, ?_⟩
    rw [← isDigit_toLower, hLower]
    rfl

/-- Without signs and parentheses every piece of a text is a word or a stray. -/
theorem Piece.Partition.isOperand_of_mem {pieces : List Piece} {cs : List Char}
    (h : Partition pieces cs) (hPlain : ∀ c ∈ cs, c ∉ ['+', '-', '(']) :
    ∀ p ∈ pieces, p.isOperand = true := by
  induction h with
  | nil => simp
  | sign s _ ih => cases s <;> simp [Sign.chars] at hPlain
  | aside _ _ ih => simp at hPlain
  | word _ _ _ _ ih | stray _ _ _ _ ih =>
      refine List.forall_mem_cons.2 ⟨rfl, ih fun c hc => hPlain c (List.mem_append_right _ hc)⟩
  | unclosed => simp [or_imp, forall_and] at hPlain

namespace Section

/-- A word by itself, laid out with blanks, is the only operand. -/
theorem readItems_of_isWordChar {cs : List Char} (hNe : strip cs ≠ [])
    (hWord : ∀ c ∈ strip cs, isWordChar c = true) :
    readItems cs = [⟨.lead, Operand.ofWord (strip cs)⟩] := by
  have hScan : Piece.scan (strip cs ++ []) = ⟨.word, strip cs⟩ :: Piece.scan [] :=
    Piece.scan_word hNe hWord (by simp)
  rw [List.append_nil, Piece.scan_nil] at hScan
  rw [readItems, hScan]
  rfl

/-- Without signs and parentheses, a lone operand is given by the whole text. -/
theorem gives_of_readItems_eq {cs : List Char} {item : Item}
    (hPlain : ∀ c ∈ cs, c ∉ ['+', '-', '(']) (h : readItems cs = [item]) :
    ∃ kind, Piece.Gives ⟨kind, strip cs⟩ item.operand := by
  have hPartition := Piece.partition_scan (strip cs)
  have hOperands := hPartition.isOperand_of_mem fun c hc => hPlain c (mem_strip.1 hc).1
  have hLength : (Piece.scan (strip cs)).length = 1 := by
    rw [← List.countP_eq_length.2 hOperands, ← length_signedOperands none, ← length_itemsOf]
    exact congrArg List.length h
  obtain ⟨p, hScan⟩ := List.length_eq_one_iff.1 hLength
  rw [hScan] at hPartition hOperands
  have hText : p.text = strip cs := by simpa using hPartition.flatMap_text
  have hOperand := hOperands p List.mem_cons_self
  rw [readItems, hScan, signedOperands_of_isOperand none [] hOperand] at h
  rw [← List.singleton_inj.1 h, ← hText]
  exact ⟨p.kind, Piece.gives_operand hOperand⟩

end Section

namespace Script

/-- A word by itself, laid out with blanks, is a section of one operand. -/
theorem ofChars_of_isWordChar {cs : List Char} (hNe : strip cs ≠ [])
    (hWord : ∀ c ∈ strip cs, isWordChar c = true) :
    ofChars cs = ⟨[{ items := [⟨.lead, Operand.ofWord (strip cs)⟩] }]⟩ := by
  have hOther : ∀ c ∈ ['(', ','], c ∉ cs := by
    intro c hc hMem
    have hMarks : isBlank c = false ∧ isWordChar c = false := by
      rw [List.mem_pair] at hc
      rcases hc with rfl | rfl <;> decide
    have hNot := hMarks.2
    rw [hWord c (mem_strip.2 ⟨hMem, hMarks.1⟩)] at hNot
    cases hNot
  have hRead : Section.read cs = { items := [⟨.lead, Operand.ofWord (strip cs)⟩] } := by
    rw [Section.read_of_hasNoAside (hasNoAside_of_not_mem (hOther '(' (by simp))),
      Section.readItems_of_isWordChar hNe hWord]
  have hSections := sections_ofChars_of_not_mem (hOther ',' (by simp))
  rw [hRead] at hSections
  exact congrArg Script.mk hSections

/-- A roll term, read by itself, and the same text, read as a script, agree. What is a roll term by
itself is a script of nothing but these dice. Where a text without signs, parentheses and commas is
a script of nothing but dice, it is the roll term of these dice. And a word that is no roll term is
a script of nothing but a literal, if it is one, and else of nothing but itself, blanks apart. -/
theorem read_agrees_with_roll_term (line : String) :
    (∀ pool, Pool.read line = .ok pool →
      read line = ⟨[{ items := [⟨.lead, .dice { pool, groups? := none }⟩] }]⟩) ∧
    ((∀ c ∈ line.toList, c ∉ ['+', '-', '(', ',']) → ∀ s item w,
      (read line).sections = [s] → s.items = [item] → item.operand = .dice w →
        Pool.read line = .ok w.pool) ∧
    let word := strip line.toList
    word ≠ [] → (∀ c ∈ word, isWordChar c = true) → ∀ fault, Pool.read line = .error fault →
      (Piece.IsLiteral word → read line = ⟨[{ items := [⟨.lead, .literal (value word)⟩] }]⟩) ∧
      (¬ Piece.IsLiteral word →
        read line = ⟨[{ items := [⟨.lead, .plain (String.ofList word)⟩] }]⟩) := by
  refine ⟨?_, ?_, ?_⟩
  · intro pool hPool
    obtain ⟨hWord, c, hc, hDigit⟩ := Pool.word_of_ofChars hPool
    have hLiteral : ¬ Piece.IsLiteral (strip line.toList) := by
      intro h
      rw [h.1 c hc] at hDigit
      cases hDigit
    rw [read, ofChars_of_isWordChar (List.ne_nil_of_mem hc) hWord,
      (Piece.gives_ofWord _).unique (Piece.Gives.dice hLiteral hPool)]
  · intro hPlain s item w hSection hItem hDice
    have hComma : ',' ∉ line.toList := fun h => hPlain ',' h (by simp)
    have hOpen : '(' ∉ line.toList := fun h => hPlain '(' h (by simp)
    have hRead := Section.read_of_hasNoAside (hasNoAside_of_not_mem hOpen)
    have hMem : s ∈ (fields ',' line.toList).map Section.read :=
      sections_ofChars_subset line.toList (by rw [← read, hSection]; exact List.mem_cons_self)
    rw [fields_of_not_mem hComma, List.map_singleton, List.mem_singleton, hRead] at hMem
    rw [hMem] at hItem
    obtain ⟨kind, hGives⟩ := Section.gives_of_readItems_eq (fun c hc hSign =>
      hPlain c hc (List.mem_append_left [','] hSign)) hItem
    rw [hDice] at hGives
    cases hGives with
    | dice _ hPool => exact hPool
  · intro word hNe hWord fault hFault
    have hPool : ∀ pool, Pool.ofChars (word.map Char.toLower) ≠ .ok pool := by
      intro pool hPool
      rw [Pool.read, hPool] at hFault
      cases hFault
    have hGives := Piece.gives_ofWord word
    rw [read, ofChars_of_isWordChar hNe hWord]
    refine ⟨fun h => ?_, fun h => ?_⟩
    · rw [hGives.unique (Piece.Gives.literal h)]
    · rw [hGives.unique (Piece.Gives.word h hPool)]

/-- A roll term with blanks and capitals, one with a percent mark, a number, and a number that is
too large. -/
theorem read_agrees_with_roll_term_of_four_words :
    (∃ pool, Pool.read " 2 D6\tK1" = .ok pool ∧ pool.toDraft = { sides := 6, count := 2, keep := 1 } ∧
      read " 2 D6\tK1" = ⟨[{ items := [⟨.lead, .dice { pool, groups? := none }⟩] }]⟩) ∧
    (∃ pool, read "D %" = ⟨[{ items := [⟨.lead, .dice { pool }⟩] }]⟩ ∧
      Pool.read "D %" = .ok pool) ∧
    (Pool.read "0 7" = .error (.incomplete [.dice]) ∧
      read "0 7" = ⟨[{ items := [⟨.lead, .literal 7⟩] }]⟩) ∧
    (Pool.read "9223372036854775808" =
        .error (.tooLong ⟨.number, "9223372036854775808".toList, 0⟩ 2) ∧
      read "9223372036854775808" =
        ⟨[{ items := [⟨.lead, .plain "9223372036854775808"⟩] }]⟩) := by
  refine ⟨?_, ?_, ?_, ?_⟩
  · have hPool : Pool.read " 2 D6\tK1" =
        .ok ⟨{ sides := 6, count := 2, keep := 1 }, by decide, by decide, by decide⟩ := by
      decide +kernel
    exact ⟨_, hPool, rfl, (read_agrees_with_roll_term " 2 D6\tK1").1 _ hPool⟩
  · have hRead : read "D %" = ⟨[{ items := [⟨.lead, .dice { pool :=
        ⟨{ sides := 100 }, by decide, by decide, by decide⟩ }⟩] }]⟩ := by decide +kernel
    have hPlain : ∀ c ∈ "D %".toList, c ∉ ['+', '-', '(', ','] := by simp
    exact ⟨_, hRead, (read_agrees_with_roll_term "D %").2.1 hPlain _ _ _
      (congrArg Script.sections hRead) rfl rfl⟩
  · have hFault : Pool.read "0 7" = .error (.incomplete [.dice]) := by decide +kernel
    have hWord : ∀ c ∈ strip "0 7".toList, isWordChar c = true :=
      List.all_eq_true.1 (by decide +kernel)
    refine ⟨hFault, ?_⟩
    exact ((read_agrees_with_roll_term "0 7").2.2 (by decide +kernel) hWord _ hFault).1
      ⟨List.all_eq_true.1 (by decide +kernel), by decide +kernel⟩
  · have hFault : Pool.read "9223372036854775808" =
        .error (.tooLong ⟨.number, "9223372036854775808".toList, 0⟩ 2) := by decide +kernel
    have hWord : ∀ c ∈ strip "9223372036854775808".toList, isWordChar c = true :=
      List.all_eq_true.1 (by decide +kernel)
    have hLarge : ¬ value (strip "9223372036854775808".toList) ≤ 2 ^ 63 - 1 := by decide +kernel
    refine ⟨hFault, ?_⟩
    exact ((read_agrees_with_roll_term "9223372036854775808").2.2 (by decide +kernel) hWord _
      hFault).2 fun h => hLarge h.2

end Script
end DiceTray
