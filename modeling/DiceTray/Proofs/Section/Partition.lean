import DiceTray.Section.Piece

/-! What it means to cut a text into pieces. `Piece.Partition` says it without a scanner: the texts
of the pieces join to the text, each has the form of its kind, and words and strays are as long as
they can be. Every text has exactly one partition, the one that is scanned. -/
namespace DiceTray

/-- A character that is no sign, no part of a word and no opening parenthesis. -/
def isLoose (c : Char) : Bool := (Sign.ofChar? c).isNone && !isWordChar c && c != '('

/-- The text begins with unmatched input: a loose character, or a parenthesis that is never
closed. -/
def BeginsStray : List Char → Prop
  | [] => False
  | c :: cs => isLoose c = true ∨ c = '(' ∧ ')' ∉ cs

theorem Sign.chars_of_ofChar? {c : Char} {s : Sign} (h : Sign.ofChar? c = some s) :
    s.chars = [c] := by
  unfold Sign.ofChar? at h
  split at h <;> cases h <;> rfl

namespace Piece

/-- The pieces cut up the text. -/
inductive Partition : List Piece → List Char → Prop where
  | nil : Partition [] []
  | sign (s : Sign) {pieces : List Piece} {cs : List Char} (rest : Partition pieces cs) :
      Partition (⟨.sign s, s.chars⟩ :: pieces) (s.chars ++ cs)
  | aside {inside : List Char} {pieces : List Piece} {cs : List Char}
      (hInside : ')' ∉ inside) (rest : Partition pieces cs) :
      Partition (⟨.aside, '(' :: (inside ++ [')'])⟩ :: pieces) ('(' :: (inside ++ ')' :: cs))
  | word {w : List Char} {pieces : List Piece} {cs : List Char}
      (hNe : w ≠ []) (hWord : ∀ c ∈ w, isWordChar c = true)
      (hLongest : ∀ c ∈ cs.head?, isWordChar c = false) (rest : Partition pieces cs) :
      Partition (⟨.word, w⟩ :: pieces) (w ++ cs)
  | stray {run : List Char} {pieces : List Piece} {cs : List Char}
      (hNe : run ≠ []) (hLoose : ∀ c ∈ run, isLoose c = true)
      (hLongest : ¬ BeginsStray cs) (rest : Partition pieces cs) :
      Partition (⟨.stray, run⟩ :: pieces) (run ++ cs)
  | unclosed {run opened : List Char} (hLoose : ∀ c ∈ run, isLoose c = true)
      (hOpened : ')' ∉ opened) :
      Partition [⟨.stray, run ++ '(' :: opened⟩] (run ++ '(' :: opened)

/-- Nothing of a text is lost where it is cut up. -/
theorem Partition.flatMap_text {pieces : List Piece} {cs : List Char} (h : Partition pieces cs) :
    pieces.flatMap text = cs := by
  induction h with
  | nil => rfl
  | unclosed => simp
  | sign _ _ ih | word _ _ _ _ ih | stray _ _ _ _ ih => rw [List.flatMap_cons, ih]
  | aside _ _ ih => simp [ih]

theorem isLoose_of_takeWhile {cs : List Char} : ∀ c ∈ cs.takeWhile isLoose, isLoose c = true :=
  List.all_eq_true.1 List.all_takeWhile

/-- A text that begins with unmatched input has its longest run in front. -/
theorem exists_partition_of_beginsStray {cs : List Char} (h : BeginsStray cs)
    (ih : ∀ rest : List Char, rest.length < cs.length → ∃ pieces, Partition pieces rest) :
    ∃ pieces, Partition pieces cs := by
  have hSplit : cs.takeWhile isLoose ++ cs.dropWhile isLoose = cs := List.takeWhile_append_dropWhile
  by_cases hRest : BeginsStray (cs.dropWhile isLoose)
  · cases hDrop : cs.dropWhile isLoose with
    | nil => rw [hDrop] at hRest; exact hRest.elim
    | cons c opened =>
        have hHead : isLoose c = false := by
          have hNot := List.head?_dropWhile_not isLoose cs
          rw [hDrop] at hNot
          simpa using hNot
        rw [hDrop] at hRest
        rcases hRest with hRest | ⟨rfl, hOpened⟩
        · rw [hHead] at hRest; cases hRest
        · rw [← hSplit, hDrop]
          exact ⟨_, Partition.unclosed isLoose_of_takeWhile hOpened⟩
  · have hNe : cs.takeWhile isLoose ≠ [] := by
      intro hNil
      rw [hNil, List.nil_append] at hSplit
      rw [hSplit] at hRest
      exact hRest h
    have hShorter : (cs.dropWhile isLoose).length < cs.length := by
      have hLength := congrArg List.length hSplit
      have hPos := List.length_pos_iff.2 hNe
      rw [List.length_append] at hLength
      omega
    obtain ⟨pieces, hPieces⟩ := ih _ hShorter
    have hAll := Partition.stray hNe isLoose_of_takeWhile hRest hPieces
    rw [hSplit] at hAll
    exact ⟨_, hAll⟩

/-- A text that begins with a word has its longest word in front. -/
theorem exists_partition_of_isWordChar {c : Char} {cs : List Char} (h : isWordChar c = true)
    (ih : ∀ rest : List Char, rest.length < (c :: cs).length → ∃ pieces, Partition pieces rest) :
    ∃ pieces, Partition pieces (c :: cs) := by
  have hSplit : cs.takeWhile isWordChar ++ cs.dropWhile isWordChar = cs :=
    List.takeWhile_append_dropWhile
  have hShorter : (cs.dropWhile isWordChar).length < (c :: cs).length := by
    have hLength := congrArg List.length hSplit
    rw [List.length_append] at hLength
    rw [List.length_cons]
    omega
  obtain ⟨pieces, hPieces⟩ := ih _ hShorter
  have hWord : ∀ d ∈ c :: cs.takeWhile isWordChar, isWordChar d = true := by
    intro d hd
    rcases List.mem_cons.1 hd with rfl | hd
    · exact h
    · exact List.all_eq_true.1 List.all_takeWhile d hd
  have hLongest : ∀ d ∈ (cs.dropWhile isWordChar).head?, isWordChar d = false := by
    intro d hd
    have hNot := List.head?_dropWhile_not isWordChar cs
    rw [hd] at hNot
    simpa using hNot
  have hAll := Partition.word (List.cons_ne_nil _ _) hWord hLongest hPieces
  rw [List.cons_append, hSplit] at hAll
  exact ⟨_, hAll⟩

/-- Every text can be cut into pieces. -/
theorem exists_partition (cs : List Char) : ∃ pieces, Partition pieces cs := by
  match cs with
  | [] => exact ⟨[], Partition.nil⟩
  | c :: cs =>
      have ih : ∀ rest : List Char, rest.length < (c :: cs).length →
          ∃ pieces, Partition pieces rest := fun rest hShorter => exists_partition rest
      cases hSign : Sign.ofChar? c with
      | some s =>
          obtain ⟨pieces, hPieces⟩ := ih cs (by simp)
          have hAll := Partition.sign s hPieces
          rw [Sign.chars_of_ofChar? hSign] at hAll
          exact ⟨_, hAll⟩
      | none =>
          by_cases hWord : isWordChar c = true
          · exact exists_partition_of_isWordChar hWord ih
          · by_cases hAside : c = '(' ∧ ')' ∈ cs
            · obtain ⟨rfl, hClosed⟩ := hAside
              obtain ⟨inside, rest, rfl, hInside⟩ := List.eq_append_cons_of_mem hClosed
              obtain ⟨pieces, hPieces⟩ := ih rest (by simp; omega)
              exact ⟨_, Partition.aside hInside hPieces⟩
            · apply exists_partition_of_beginsStray _ ih
              by_cases hOpen : c = '('
              · exact .inr ⟨hOpen, fun hClosed => hAside ⟨hOpen, hClosed⟩⟩
              · exact .inl (by simp [isLoose, hSign, hWord, hOpen])
termination_by cs.length
decreasing_by exact hShorter

theorem ofChar?_of_isWordChar {c : Char} (h : isWordChar c = true) : Sign.ofChar? c = none := by
  unfold Sign.ofChar?
  split
  · exact absurd h (by decide)
  · exact absurd h (by decide)
  · rfl

/-- One piece of a scan, given what its first character takes. -/
theorem scan_of_front {c : Char} {more cs : List Char} {kind : PieceKind}
    (h : front c (more ++ cs) = (kind, more.length)) :
    scan (c :: more ++ cs) = ⟨kind, c :: more⟩ :: scan cs := by
  rw [List.cons_append, scan_cons, h]
  simp

/-- A sign is a piece by itself. -/
theorem scan_sign (s : Sign) (cs : List Char) :
    scan (s.chars ++ cs) = ⟨.sign s, s.chars⟩ :: scan cs := by
  cases s <;> simp [Sign.chars, scan_cons, front, Sign.ofChar?]

/-- An aside ends at the first closing parenthesis. -/
theorem scan_aside {inside : List Char} (cs : List Char) (h : ')' ∉ inside) :
    scan ('(' :: (inside ++ ')' :: cs)) = ⟨.aside, '(' :: (inside ++ [')'])⟩ :: scan cs := by
  have hInside : ∀ c ∈ inside, decide (c ≠ ')') = true := by
    intro c hc
    exact decide_eq_true fun hEq => h (hEq ▸ hc)
  have hFront : front '(' (inside ++ [')'] ++ cs) = (.aside, (inside ++ [')']).length) := by
    rw [front, List.append_assoc, List.takeWhile_append_of_pos hInside]
    simp [Sign.ofChar?, isWordChar]
  have hAll := scan_of_front hFront
  rwa [List.cons_append, List.append_assoc, List.singleton_append] at hAll

/-- A word goes on as long as there are characters for it. -/
theorem scan_word {w cs : List Char} (hNe : w ≠ []) (hWord : ∀ c ∈ w, isWordChar c = true)
    (hLongest : ∀ c ∈ cs.head?, isWordChar c = false) :
    scan (w ++ cs) = ⟨.word, w⟩ :: scan cs := by
  cases w with
  | nil => exact absurd rfl hNe
  | cons c more =>
      have hc : isWordChar c = true := hWord c List.mem_cons_self
      have hMore : ∀ d ∈ more, isWordChar d = true :=
        fun d hd => hWord d (List.mem_cons_of_mem _ hd)
      have hEnd : cs.takeWhile isWordChar = [] := by
        cases cs with
        | nil => rfl
        | cons d cs =>
            have hd : isWordChar d = false := hLongest d rfl
            simp [hd]
      apply scan_of_front
      simp [front, ofChar?_of_isWordChar hc, hc, List.takeWhile_append_of_pos hMore, hEnd]

theorem front_of_beginsStray {c : Char} {cs : List Char} (h : BeginsStray (c :: cs)) :
    front c cs = (.stray, strayLength (c :: cs) - 1) := by
  rcases h with h | ⟨rfl, hOpen⟩
  · obtain ⟨⟨hSign, hWord⟩, hParen⟩ : (Sign.ofChar? c = none ∧ isWordChar c = false) ∧ c ≠ '(' := by
      simpa [isLoose] using h
    simp [front, hSign, hWord, hParen]
  · simp [front, hOpen, Sign.ofChar?, isWordChar]

/-- Loose characters make a stray piece longer, and it goes on behind them. -/
theorem strayLength_append {run : List Char} (cs : List Char)
    (h : ∀ c ∈ run, isLoose c = true) : strayLength (run ++ cs) = run.length + strayLength cs := by
  induction run with
  | nil => simp
  | cons c run ih =>
      have hc : isLoose c = true := h c List.mem_cons_self
      have hRun := ih fun d hd => h d (List.mem_cons_of_mem _ hd)
      simp only [isLoose, Bool.and_eq_true, Bool.not_eq_true', bne_iff_ne, ne_eq,
        Option.isNone_iff_eq_none] at hc
      rw [List.cons_append, strayLength, if_neg hc.2, hc.1.1, hc.1.2, hRun, List.length_cons]
      rw [if_neg (by simp)]
      omega

theorem strayLength_eq_zero {cs : List Char} (h : ¬ BeginsStray cs) : strayLength cs = 0 := by
  cases cs with
  | nil => rfl
  | cons c cs =>
      have hLoose : isLoose c ≠ true := fun hc => h (.inl hc)
      by_cases hParen : c = '('
      · have hClosed : ')' ∈ cs := Decidable.by_contra fun hc => h (.inr ⟨hParen, hc⟩)
        simp [strayLength, hParen, hClosed]
      · have hTaken : ((Sign.ofChar? c).isSome || isWordChar c) = true := by
          cases hSign : Sign.ofChar? c <;> simp_all [isLoose]
        rw [strayLength, if_neg hParen, if_pos hTaken]

/-- One stray run of a scan, given its length. -/
theorem scan_of_strayLength {run cs : List Char} (hNe : run ≠ [])
    (hBegins : BeginsStray (run ++ cs)) (hLength : strayLength (run ++ cs) = run.length) :
    scan (run ++ cs) = ⟨.stray, run⟩ :: scan cs := by
  cases run with
  | nil => exact absurd rfl hNe
  | cons c more =>
      have hFront : front c (more ++ cs) = (.stray, more.length) := by
        rw [List.cons_append] at hBegins hLength
        rw [front_of_beginsStray hBegins, hLength]
        rfl
      exact scan_of_front hFront

/-- Loose characters in a row are one stray piece. -/
theorem scan_stray {run cs : List Char} (hNe : run ≠ []) (hLoose : ∀ c ∈ run, isLoose c = true)
    (hLongest : ¬ BeginsStray cs) : scan (run ++ cs) = ⟨.stray, run⟩ :: scan cs := by
  apply scan_of_strayLength hNe
  · cases run with
    | nil => exact absurd rfl hNe
    | cons c more => exact .inl (hLoose c List.mem_cons_self)
  · rw [strayLength_append cs hLoose, strayLength_eq_zero hLongest, Nat.add_zero]

/-- A parenthesis that is not closed makes one stray piece of everything behind it. -/
theorem scan_unclosed {run opened : List Char} (hLoose : ∀ c ∈ run, isLoose c = true)
    (hOpened : ')' ∉ opened) :
    scan (run ++ '(' :: opened) = [⟨.stray, run ++ '(' :: opened⟩] := by
  have hBegins : BeginsStray (run ++ '(' :: opened ++ []) := by
    rw [List.append_nil]
    cases run with
    | nil => exact .inr ⟨rfl, hOpened⟩
    | cons c more => exact .inl (hLoose c List.mem_cons_self)
  have hLength : strayLength (run ++ '(' :: opened ++ []) = (run ++ '(' :: opened).length := by
    rw [List.append_nil, strayLength_append _ hLoose]
    simp [strayLength, hOpened]
  have hAll := scan_of_strayLength (by simp) hBegins hLength
  rwa [List.append_nil, scan_nil] at hAll

/-- The scanner finds any partition of a text, so there is only one. -/
theorem Partition.eq_scan {pieces : List Piece} {cs : List Char} (h : Partition pieces cs) :
    pieces = scan cs := by
  induction h with
  | nil => rw [scan_nil]
  | sign s _ ih => rw [scan_sign, ← ih]
  | aside hInside _ ih => rw [scan_aside _ hInside, ← ih]
  | word hNe hWord hLongest _ ih => rw [scan_word hNe hWord hLongest, ← ih]
  | stray hNe hLoose hLongest _ ih => rw [scan_stray hNe hLoose hLongest, ← ih]
  | unclosed hLoose hOpened => rw [scan_unclosed hLoose hOpened]

/-- What the scanner finds is a partition. -/
theorem partition_scan (cs : List Char) : Partition (scan cs) cs := by
  obtain ⟨pieces, hPieces⟩ := exists_partition cs
  rw [← hPieces.eq_scan]
  exact hPieces

end Piece
end DiceTray
