import DiceTray.Proofs.Script.RoundTrip
import Mathlib.Algebra.Group.Int.Defs

/-! What a script can contain. Whatever the text, a script that was read has proper labels, joints
and operands: the limits of numbers and roll terms hold, and plain text is nothing that could be
read in another way where it stands. -/
namespace DiceTray
open Text

/-- A text that can label a section. -/
structure IsLabel (cs : List Char) : Prop where
  ne_nil : cs ≠ []
  trim_eq : trim cs = cs
  not_mem_close : ')' ∉ cs
  not_mem_comma : ',' ∉ cs

/-- A text that can be a plain operand. The last operand of a section may open a parenthesis and
leave it open, and signs stand only behind one. A text that looks like a word is no number and no
roll term. -/
structure IsPlainText (last : Prop) (cs : List Char) : Prop where
  ne_nil : cs ≠ []
  isBlank_eq : ∀ c ∈ cs, isBlank c = false
  not_mem_comma : ',' ∉ cs
  sign : ∀ before c after, cs = before ++ c :: after → c = '+' ∨ c = '-' → '(' ∈ before
  opened : ∀ before after, cs = before ++ '(' :: after → last ∧ ')' ∉ after
  word : (∀ c ∈ cs, isWordChar c = true) →
    ¬ Piece.IsLiteral cs ∧ ∀ pool, Pool.ofChars (cs.map Char.toLower) ≠ .ok pool

/-- The numbers of a draft are no larger than a roll term can say, and there are such dice. -/
structure Draft.IsProper (d : Draft) : Prop where
  times : 1 ≤ d.times ∧ d.times ≤ 99
  count : 1 ≤ d.count ∧ d.count ≤ 99
  sides : 2 ≤ d.sides ∧ d.sides ≤ 999
  amounts : ∀ n ∈ [d.explode, d.reroll, d.keep, d.drop, d.multiplier, d.target], n ≤ 999

/-- An operand that a section can have, last or before others. There is no note among them. -/
inductive Operand.IsProper (last : Prop) : Operand → Prop where
  | literal {n : Int} (hMin : 0 ≤ n) (hMax : n ≤ 2 ^ 63 - 1) : IsProper last (.literal n)
  | dice {pool : Pool} (h : pool.toDraft.IsProper) :
      IsProper last (.dice { pool, groups? := none })
  | plain {text : String} (h : IsPlainText last text.toList) : IsProper last (.plain text)

/-- A section that a script can have. -/
structure Section.IsProper (s : Section) : Prop where
  label : ∀ label ∈ s.label?, IsLabel label.toList
  first : ∀ item ∈ s.items.head?, item.joint = .lead ∨ item.joint = .signed .minus
  later : ∀ item ∈ s.items.tail, item.joint = .signed .plus ∨ item.joint = .signed .minus
  operands : ∀ before item after, s.items = before ++ item :: after →
    item.operand.IsProper (after = [])

/-- A run of characters that are no signs and no opening parentheses. -/
theorem isPlainText_of_run {last : Prop} {run : List Char} (hNe : run ≠ [])
    (hInk : ∀ c ∈ run, isInk c = true) (hRun : ∀ c ∈ run, c ∉ ['+', '-', '('])
    (hWord : (∀ c ∈ run, isWordChar c = true) →
      ¬ Piece.IsLiteral run ∧ ∀ pool, Pool.ofChars (run.map Char.toLower) ≠ .ok pool) :
    IsPlainText last run where
  ne_nil := hNe
  isBlank_eq c hc := by
    have hBoth := hInk c hc
    simp_all [isInk]
  not_mem_comma := not_mem_of_isInk hInk
  sign before c after hSplit hSign := by
    have hNot := hRun c (by simp [hSplit])
    rcases hSign with rfl | rfl <;> simp at hNot
  opened before after hSplit := by
    have hNot := hRun '(' (by simp [hSplit])
    simp at hNot
  word := hWord

/-- A place in a text lies before, at or after another. -/
theorem eq_of_append_cons_eq {α : Type} {run opened before after : List α} {mark a : α}
    (h : run ++ mark :: opened = before ++ a :: after) :
    a ∈ run ∨ (before = run ∧ a = mark ∧ after = opened) ∨
      ∃ mid, before = run ++ mark :: mid ∧ opened = mid ++ a :: after := by
  rcases List.append_eq_append_iff.1 h with ⟨mid, hBefore, hMark⟩ | ⟨mid, hRun, hMark⟩
  · rcases List.cons_eq_append_iff.1 hMark with ⟨rfl, hEnd⟩ | ⟨mid, rfl, hOpened⟩
    · rw [List.append_nil] at hBefore
      cases hEnd
      exact .inr (.inl ⟨hBefore, rfl, rfl⟩)
    · exact .inr (.inr ⟨mid, hBefore, hOpened⟩)
  · rcases List.cons_eq_append_iff.1 hMark with ⟨rfl, hEnd⟩ | ⟨mid, rfl, -⟩
    · rw [List.append_nil] at hRun
      cases hEnd
      exact .inr (.inl ⟨hRun.symm, rfl, rfl⟩)
    · exact .inl (by simp [hRun])

theorem not_mem_of_isLoose {c : Char} (h : isLoose c = true) : c ∉ ['+', '-', '('] := by
  intro hMem
  simp only [List.mem_cons, List.not_mem_nil, or_false] at hMem
  rcases hMem with rfl | rfl | rfl <;> exact absurd h (by decide)

/-- A run with an opening parenthesis behind it that is never closed. -/
theorem isPlainText_unclosed {last : Prop} {run opened : List Char} (hLast : last)
    (hRun : ∀ c ∈ run, c ∉ ['+', '-', '(']) (hOpened : ')' ∉ opened)
    (hInk : ∀ c ∈ run ++ '(' :: opened, isInk c = true) :
    IsPlainText last (run ++ '(' :: opened) where
  ne_nil := by simp
  isBlank_eq c hc := by
    have hBoth := hInk c hc
    simp_all [isInk]
  not_mem_comma := not_mem_of_isInk hInk
  sign before c after hSplit hSign := by
    rcases eq_of_append_cons_eq hSplit with hMem | ⟨-, rfl, -⟩ | ⟨mid, rfl, -⟩
    · have hNot := hRun c hMem
      rcases hSign with rfl | rfl <;> simp at hNot
    · rcases hSign with hSign | hSign <;> cases hSign
    · simp
  opened before after hSplit := by
    refine ⟨hLast, ?_⟩
    rcases eq_of_append_cons_eq hSplit with hMem | ⟨-, -, rfl⟩ | ⟨mid, -, rfl⟩
    · have hNot := hRun '(' hMem
      simp at hNot
    · exact hOpened
    · exact fun hClosed => hOpened (by simp [hClosed])
  word hWord := by
    have hOpen := hWord '(' (by simp)
    cases hOpen

theorem Pool.isProper_of_fits {p : Pool} (h : p.toDraft.Fits) : p.toDraft.IsProper where
  times := ⟨p.one_le_times, Nat.le_of_lt_succ h.times⟩
  count := ⟨p.one_le_count, Nat.le_of_lt_succ h.count⟩
  sides := ⟨p.two_le_sides, Nat.le_of_lt_succ h.sides⟩
  amounts := by
    simp only [List.forall_mem_cons, List.not_mem_nil, false_imp_iff, implies_true, and_true]
    exact ⟨Nat.le_of_lt_succ h.explode, Nat.le_of_lt_succ h.reroll, Nat.le_of_lt_succ h.keep,
      Nat.le_of_lt_succ h.drop, Nat.le_of_lt_succ h.multiplier, Nat.le_of_lt_succ h.target⟩

namespace Operand

/-- A closed operand is proper wherever it stands. -/
theorem IsClosed.isProper {o : Operand} (h : o.IsClosed) (last : Prop) : o.IsProper last := by
  cases h with
  | @literal n h =>
      have hMax : maxLiteral = 2 ^ 63 - 1 := rfl
      exact IsProper.literal (Int.natCast_nonneg n) (by omega)
  | dice h => exact IsProper.dice (Pool.isProper_of_fits h)
  | @word w hNe hWord hPlain =>
      refine IsProper.plain ?_
      rw [String.toList_ofList]
      refine isPlainText_of_run hNe (fun c hc => isInk_of_isWordChar (hWord c hc)) ?_ fun _ => ?_
      · exact fun c hc => of_isWordChar (fun c => c ∉ ['+', '-', '(']) (hWord c hc)
          (by decide +kernel)
      · have hGives := Piece.gives_ofWord w
        rw [hPlain] at hGives
        generalize hText : Operand.plain (String.ofList w) = o at hGives
        cases hGives with
        | literal | dice => cases hText
        | word hLiteral hPool => exact ⟨hLiteral, hPool⟩
  | @stray run hNe hLoose hInk =>
      refine IsProper.plain ?_
      rw [String.toList_ofList]
      refine isPlainText_of_run hNe hInk (fun c hc => not_mem_of_isLoose (hLoose c hc)) ?_
      intro hWord
      obtain ⟨c, hc⟩ := List.exists_mem_of_ne_nil run hNe
      have hBoth := hLoose c hc
      simp [isLoose, hWord c hc] at hBoth

/-- An operand with an open parenthesis is proper where nothing follows it. -/
theorem IsUnclosed.isProper {o : Operand} (h : o.IsUnclosed) {last : Prop} (hLast : last) :
    o.IsProper last := by
  rcases h with ⟨hLoose, hOpened, hInk⟩
  refine IsProper.plain ?_
  rw [String.toList_ofList]
  exact isPlainText_unclosed hLast (fun c hc => not_mem_of_isLoose (hLoose c hc)) hOpened hInk

end Operand

/-- A text without closing parentheses and commas that is its own label has nothing but blanks to
lose, and none at its ends. -/
theorem isLabel_of_labelOf {label : String} (h : labelOf label.toList = some label)
    (hClose : ')' ∉ label.toList) (hComma : ',' ∉ label.toList) : IsLabel label.toList := by
  obtain ⟨hNe, hTrim⟩ := labelOf_eq_some_iff.1 h
  have hEq : trim label.toList = label.toList := by
    rw [← String.toList_ofList (l := trim label.toList), hTrim]
  exact ⟨hEq ▸ hNe, hEq, hClose, hComma⟩

/-- A section that was read is proper, item by item. -/
theorem Section.WellFormed.isProper {s : Section} (h : s.WellFormed) : s.IsProper where
  label label hLabel := by
    obtain ⟨hOf, hClose, hComma⟩ := h.label label hLabel
    exact isLabel_of_labelOf hOf hClose hComma
  first := h.first
  later item hItem := by
    have hNotLead := h.items.ne_lead item hItem
    rcases hJoint : item.joint with _ | _ | _
    · exact absurd hJoint hNotLead
    · exact .inl rfl
    · exact .inr rfl
  operands before item after hSplit := by
    have hRow := h.items
    rw [hSplit] at hRow
    rcases hRow.isClosed_or_last with hClosed | ⟨hUnclosed, hLast⟩
    · exact hClosed.isProper _
    · exact hUnclosed.isProper hLast

namespace Script

/-- Every section of a script that was read is proper, and a lone section has a label or an
operand. -/
theorem sections_isProper (line : String) :
    (∀ s ∈ (read line).sections, s.IsProper) ∧
      ∀ only, (read line).sections = [only] → only.label?.isSome ∨ only.items ≠ [] := by
  refine ⟨fun s hs => (wellFormed_of_mem_sections hs).isProper, ?_⟩
  intro only hOnly
  have hNe := sections_ofChars_ne line.toList
  rw [← read, hOnly] at hNe
  rcases only with ⟨_ | label, items⟩
  · exact .inr fun hItems => hNe (by rw [show items = [] from hItems])
  · exact .inl rfl

/-- A label, dice that are taken away, a number and a parenthesis that stays open. -/
theorem sections_isProper_of_open_line :
    ∃ s : Section, (read "( To Hit )+- 2D6k1 + 0 07 ?(-1").sections = [s] ∧
      s.text = "(To Hit) - 2d6k1 + 7 + ?(-1" ∧ s.IsProper ∧ (s.label?.isSome ∨ s.items ≠ []) := by
  have hOnly : (read "( To Hit )+- 2D6k1 + 0 07 ?(-1").sections =
      [Section.read "( To Hit )+- 2D6k1 + 0 07 ?(-1".toList] := by decide +kernel
  have hProper := (sections_isProper "( To Hit )+- 2D6k1 + 0 07 ?(-1").1
  rw [hOnly] at hProper
  exact ⟨_, hOnly, by decide +kernel, hProper _ List.mem_cons_self,
    (sections_isProper "( To Hit )+- 2D6k1 + 0 07 ?(-1").2 _ hOnly⟩

end Script
end DiceTray
