import DiceTray.Proofs.Pool.Checking
import DiceTray.Proofs.Pool.Spans

/-! Where reading stops. Reading a text goes through its tokens stage by stage, and gives up at the
first token that cannot follow, at the first number that is too long, or at the end of the text if
that comes too early, whichever is first. -/
namespace DiceTray

namespace Mark

/-- How many digits a number may have after the given marks: two for times and count, which come
before the dice mark, and three for all numbers after it. -/
def digitLimit (before : List Mark) : Nat := if .dice ∈ before then 3 else 2

/-- What is asked for where something else follows the given marks: the dice mark, then the number
of sides, then any affix. -/
def wantedAfter (before : List Mark) : List Mark :=
  if .dice ∉ before then [.dice] else if .dice ∉ before.dropLast then [.number] else modifiers

end Mark

namespace Stage

def isEarly : Stage → Bool
  | .start | .first | .times | .second => true
  | .dice | .settled | .bare => false

/-- The dice mark ends the early stages, and the stage right after it is told by that mark alone. -/
theorem isEarly_of_next {s s' : Stage} {mark : Mark} (h : s.next mark = some s') :
    (s'.isEarly = true ↔ s.isEarly = true ∧ mark ≠ .dice) ∧
      (s' = .dice ↔ s.isEarly = true ∧ mark = .dice) := by
  cases s <;> cases mark <;> cases h <;> decide

theorem after_concat_eq_some_iff {s s'' : Stage} {marks : List Mark} {mark : Mark} :
    s.after (marks ++ [mark]) = some s'' ↔
      ∃ s', s.after marks = some s' ∧ s'.next mark = some s'' := by
  rw [after_append, Option.bind_eq_some_iff]
  refine exists_congr fun s' => and_congr_right fun _ => ?_
  rw [after_cons, Option.bind_eq_some_iff]
  simp [after_nil]

/-- The stage is early as long as there is no dice mark, and the dice mark ends that; the last mark
alone decides whether this is the stage right after it. -/
theorem isEarly_of_after {s : Stage} {marks : List Mark} (h : Stage.start.after marks = some s) :
    (s.isEarly = true ↔ .dice ∉ marks) ∧ (s = .dice ↔ .dice ∈ marks ∧ .dice ∉ marks.dropLast) := by
  induction marks using List.reverseRecOn generalizing s with
  | nil => cases h; simp [isEarly]
  | append_singleton marks mark ih =>
      obtain ⟨s', hBefore, hNext⟩ := after_concat_eq_some_iff.1 h
      obtain ⟨hEarly, _⟩ := ih hBefore
      obtain ⟨hEarlyNext, hDiceNext⟩ := isEarly_of_next hNext
      rw [hEarlyNext, hDiceNext, hEarly, List.dropLast_concat, List.mem_append, List.mem_singleton]
      constructor
      · rw [not_or, ne_comm]
      · constructor
        · rintro ⟨hNone, rfl⟩
          exact ⟨.inr rfl, hNone⟩
        · rintro ⟨hMem, hNone⟩
          exact ⟨hNone, (hMem.resolve_left hNone).symm⟩

/-- How long a number may be is told by the marks before it. -/
theorem limit_of_after {s : Stage} {marks : List Mark} (h : Stage.start.after marks = some s) :
    s.limit = Mark.digitLimit marks := by
  have hEarly := (isEarly_of_after h).1
  rw [Mark.digitLimit]
  by_cases hDice : .dice ∈ marks
  · rw [if_pos hDice]
    cases s <;> simp_all [isEarly, limit, sidesDigits, amountDigits]
  · rw [if_neg hDice]
    cases s <;> simp_all [isEarly, limit, groupDigits]

/-- What can come next is told by the marks before it. -/
theorem wanted_of_after {s : Stage} {marks : List Mark} (h : Stage.start.after marks = some s) :
    s.wanted = Mark.wantedAfter marks := by
  obtain ⟨hEarly, hDice⟩ := isEarly_of_after h
  rw [Mark.wantedAfter]
  by_cases hMem : .dice ∈ marks
  · rw [if_neg (not_not_intro hMem)]
    by_cases hLast : .dice ∈ marks.dropLast
    · rw [if_neg (not_not_intro hLast)]
      cases s <;> simp_all [isEarly, wanted]
    · rw [if_pos hLast, hDice.2 ⟨hMem, hLast⟩, wanted]
  · rw [if_pos hMem]
    cases s <;> simp_all [isEarly, wanted]

/-- Whatever is asked for can follow. -/
theorem next_of_mem_wanted {s : Stage} {mark : Mark} (h : mark ∈ s.wanted) :
    ∃ s', s.next mark = some s' := by
  cases s with
  | start | first | times | second | dice =>
      obtain rfl := List.mem_singleton.1 h
      exact ⟨_, rfl⟩
  | settled | bare => exact ⟨_, next_of_modifier rfl ((Mark.mem_modifiers_iff mark).1 h)⟩

/-- The tokens lead from one stage to another without a fault. -/
inductive Passes : Stage → List Token → Stage → Prop where
  | nil (s : Stage) : Passes s [] s
  | cons {s s' s'' : Stage} {t : Token} {rest : List Token} (step : s.next t.mark = some s')
      (short : t.mark = .number → t.text.length ≤ s.limit) (tail : Passes s' rest s'') :
      Passes s (t :: rest) s''

/-- Some token is the first fault, unless all go through. -/
theorem passes_or (s : Stage) (tokens : List Token) :
    (∃ s', s.Passes tokens s') ∨
      ∃ before t after s', tokens = before ++ t :: after ∧ s.Passes before s' ∧
        (s'.next t.mark = none ∨
          (s'.next t.mark).isSome = true ∧ t.mark = .number ∧ s'.limit < t.text.length) := by
  induction tokens generalizing s with
  | nil => exact .inl ⟨s, .nil s⟩
  | cons t rest ih =>
      cases hNext : s.next t.mark with
      | none => exact .inr ⟨[], t, rest, s, rfl, .nil s, .inl hNext⟩
      | some s' =>
          by_cases hLong : t.mark = .number ∧ s.limit < t.text.length
          · exact .inr ⟨[], t, rest, s, rfl, .nil s, .inr ⟨by rw [hNext]; rfl, hLong⟩⟩
          · have hShort : t.mark = .number → t.text.length ≤ s.limit :=
              fun hMark => Nat.le_of_not_lt fun h => hLong ⟨hMark, h⟩
            rcases ih s' with ⟨s'', hRest⟩ | ⟨before, u, after, s'', rfl, hBefore, hFault⟩
            · exact .inl ⟨s'', .cons hNext hShort hRest⟩
            · exact .inr ⟨t :: before, u, after, s'', rfl, .cons hNext hShort hBefore, hFault⟩

/-- Tokens that pass are walked over. -/
theorem Passes.check_append {s s' : Stage} {before : List Token} (h : s.Passes before s')
    (rest : List Token) : s.check (before ++ rest) = s'.check rest := by
  induction h with
  | nil => rfl
  | cons step short _ ih =>
      rw [List.cons_append, check, step, ← ih]
      exact if_neg fun hLong => Nat.not_lt_of_le (short hLong.1) hLong.2

/-- Tokens pass one more token if its mark leads on and, if it is a number, it is short enough. -/
theorem passes_concat_iff {s s'' : Stage} {tokens : List Token} {t : Token} :
    s.Passes (tokens ++ [t]) s'' ↔ ∃ s', s.Passes tokens s' ∧ s'.next t.mark = some s'' ∧
      (t.mark = .number → t.text.length ≤ s'.limit) := by
  induction tokens generalizing s with
  | nil =>
      constructor
      · intro h
        cases h with
        | cons step short tail => cases tail; exact ⟨s, .nil s, step, short⟩
      · rintro ⟨_, ⟨⟩, step, short⟩
        exact .cons step short (.nil _)
  | cons u tokens ih =>
      constructor
      · intro h
        cases h with
        | cons step short tail =>
            obtain ⟨s', hTokens, hLast⟩ := ih.1 tail
            exact ⟨s', .cons step short hTokens, hLast⟩
      · rintro ⟨s', hTokens, hLast⟩
        cases hTokens with
        | cons step short tail => exact .cons step short (ih.2 ⟨s', tail, hLast⟩)

end Stage

/-- No token is at fault: each can follow the ones before it, and no number is too long. -/
def InOrder (tokens : List Token) : Prop :=
  ∀ before t after, tokens = before ++ t :: after →
    Mark.AreViable (Mark.ofTokens (before ++ [t])) ∧
      (t.mark = .number → t.text.length ≤ Mark.digitLimit (Mark.ofTokens before))

theorem inOrder_nil : InOrder [] := by
  intro before t after h
  cases before <;> cases h

/-- Tokens in order stay so with one more token if their marks stay viable and it is no number that
is too long. -/
theorem inOrder_concat_iff {tokens : List Token} {t : Token} :
    InOrder (tokens ++ [t]) ↔ InOrder tokens ∧ Mark.AreViable (Mark.ofTokens (tokens ++ [t])) ∧
      (t.mark = .number → t.text.length ≤ Mark.digitLimit (Mark.ofTokens tokens)) := by
  constructor
  · intro h
    refine ⟨?_, h tokens t [] rfl⟩
    rintro before u after rfl
    exact h before u (after ++ [t]) (by simp)
  · rintro ⟨hTokens, hLast⟩ before u after h
    rcases List.eq_nil_or_concat after with rfl | ⟨after, v, rfl⟩
    · obtain ⟨rfl, hEnd⟩ := List.append_inj' h rfl
      cases hEnd
      exact hLast
    · rw [List.concat_eq_append, ← List.cons_append, ← List.append_assoc] at h
      exact hTokens before u after (List.append_inj' h rfl).1

namespace Stage

/-- To pass from the start is to be in order and to have marks that lead through the stages. -/
theorem passes_iff {tokens : List Token} {s : Stage} :
    Stage.start.Passes tokens s ↔
      InOrder tokens ∧ Stage.start.after (Mark.ofTokens tokens) = some s := by
  induction tokens using List.reverseRecOn generalizing s with
  | nil =>
      constructor
      · rintro ⟨⟩
        exact ⟨inOrder_nil, rfl⟩
      · rintro ⟨_, ⟨⟩⟩
        exact .nil _
  | append_singleton tokens t ih =>
      rw [passes_concat_iff, inOrder_concat_iff, Mark.ofTokens_concat, after_concat_eq_some_iff]
      constructor
      · rintro ⟨s', hTokens, hNext, hShort⟩
        obtain ⟨hOrder, hAfter⟩ := ih.1 hTokens
        refine ⟨⟨hOrder, areViable_iff.2 ⟨s, after_concat_eq_some_iff.2 ⟨s', hAfter, hNext⟩⟩, ?_⟩,
          s', hAfter, hNext⟩
        rwa [← limit_of_after hAfter]
      · rintro ⟨⟨hOrder, _, hShort⟩, s', hAfter, hNext⟩
        rw [← limit_of_after hAfter] at hShort
        exact ⟨s', ih.2 ⟨hOrder, hAfter⟩, hNext, hShort⟩

end Stage

/-- The fault is the first in the tokens, as far as their marks and the lengths of numbers go.
Nothing before it is at fault. -/
inductive Fault.IsFirst (tokens : List Token) : Fault → Prop where
  /-- A token that cannot follow the ones before it. -/
  | unexpected {before after : List Token} {found : Token}
      (split : tokens = before ++ found :: after) (inOrder : InOrder before)
      (viable : Mark.AreViable (Mark.ofTokens before))
      (stuck : ¬ Mark.AreViable (Mark.ofTokens (before ++ [found]))) :
      IsFirst tokens (.unexpected found (Mark.wantedAfter (Mark.ofTokens before)))
  /-- A number that can follow the tokens before it, but is too long. -/
  | tooLong {before after : List Token} {number : Token}
      (split : tokens = before ++ number :: after) (inOrder : InOrder before)
      (viable : Mark.AreViable (Mark.ofTokens (before ++ [number])))
      (isNumber : number.mark = .number)
      (long : Mark.digitLimit (Mark.ofTokens before) < number.text.length) :
      IsFirst tokens (.tooLong number (Mark.digitLimit (Mark.ofTokens before)))
  /-- The end of tokens that are in order, but are no term yet. -/
  | incomplete (inOrder : InOrder tokens) (viable : Mark.AreViable (Mark.ofTokens tokens))
      (unfinished : ¬ Mark.AreTerm (Mark.ofTokens tokens)) :
      IsFirst tokens (.incomplete (Mark.wantedAfter (Mark.ofTokens tokens)))

namespace Stage

variable {tokens : List Token}

/-- Marks stay viable exactly if the stage that they lead to goes on with the next. -/
theorem areViable_concat_iff {s : Stage} {t : Token}
    (h : Stage.start.after (Mark.ofTokens tokens) = some s) :
    Mark.AreViable (Mark.ofTokens (tokens ++ [t])) ↔ (s.next t.mark).isSome = true := by
  rw [areViable_iff, Mark.ofTokens_concat, Option.isSome_iff_exists]
  refine exists_congr fun s'' => ?_
  rw [after_concat_eq_some_iff, h]
  simp

theorem areViable_of_concat {t : Token} (h : Mark.AreViable (Mark.ofTokens (tokens ++ [t]))) :
    Mark.AreViable (Mark.ofTokens tokens) := by
  obtain ⟨more, hTerm⟩ := h
  rw [Mark.ofTokens_concat, List.append_assoc] at hTerm
  exact ⟨_, hTerm⟩

/-- Whether marks are those of a term is told by the stage that they lead to. -/
theorem areTerm_iff_isComplete {s : Stage} {marks : List Mark}
    (h : Stage.start.after marks = some s) : Mark.AreTerm marks ↔ s.isComplete = true := by
  rw [areTerm_iff, h]
  simp

/-- Tokens in order that are viable lead to a stage, on which alone the rest depends. -/
theorem exists_passes (hOrder : InOrder tokens) (hViable : Mark.AreViable (Mark.ofTokens tokens)) :
    ∃ s, Stage.start.Passes tokens s ∧ Stage.start.after (Mark.ofTokens tokens) = some s := by
  obtain ⟨s, hAfter⟩ := areViable_iff.1 hViable
  exact ⟨s, passes_iff.2 ⟨hOrder, hAfter⟩, hAfter⟩

/-- The walk gets as far as the first fault and ends there. Either the token in question is the last
one, or it is among those before it. -/
theorem check_of_isFirst {fault : Fault} (h : fault.IsFirst tokens) :
    Stage.start.check tokens = .error fault := by
  cases h with
  | unexpected split inOrder viable stuck =>
      obtain ⟨s, hPasses, hAfter⟩ := exists_passes inOrder viable
      rw [areViable_concat_iff hAfter, Option.not_isSome_iff_eq_none] at stuck
      rw [split, hPasses.check_append, check_of_next_eq_none stuck, wanted_of_after hAfter]
  | tooLong split inOrder viable isNumber long =>
      obtain ⟨s, hPasses, hAfter⟩ := exists_passes inOrder (areViable_of_concat viable)
      rw [areViable_concat_iff hAfter] at viable
      rw [← limit_of_after hAfter] at long ⊢
      rw [split, hPasses.check_append, check_of_long viable isNumber long]
  | incomplete inOrder viable unfinished =>
      obtain ⟨s, hPasses, hAfter⟩ := exists_passes inOrder viable
      rw [areTerm_iff_isComplete hAfter] at unfinished
      have hEnd := hPasses.check_append []
      rw [List.append_nil] at hEnd
      rw [hEnd, check, if_neg unfinished, wanted_of_after hAfter]

/-- Going through the stages either finds the first fault, or there is none and the tokens are a
term. -/
theorem check_cases (tokens : List Token) :
    (∃ fault : Fault, fault.IsFirst tokens) ∨
      InOrder tokens ∧ Mark.AreTerm (Mark.ofTokens tokens) ∧ Stage.start.check tokens = .ok () := by
  rcases Stage.start.passes_or tokens with
    ⟨s, hPasses⟩ | ⟨before, t, after, s, split, hPasses, hFault⟩
  · obtain ⟨hOrder, hAfter⟩ := passes_iff.1 hPasses
    by_cases hComplete : s.isComplete = true
    · have hEnd := hPasses.check_append []
      rw [List.append_nil, check, if_pos hComplete] at hEnd
      exact .inr ⟨hOrder, (areTerm_iff_isComplete hAfter).2 hComplete, hEnd⟩
    · refine .inl ⟨_, .incomplete hOrder (areViable_iff.2 ⟨s, hAfter⟩) ?_⟩
      rwa [areTerm_iff_isComplete hAfter]
  · obtain ⟨hOrder, hAfter⟩ := passes_iff.1 hPasses
    rcases hFault with hNext | ⟨hNext, hNumber, hLong⟩
    · refine .inl ⟨_, .unexpected split hOrder (areViable_iff.2 ⟨s, hAfter⟩) ?_⟩
      rw [areViable_concat_iff hAfter, hNext]
      exact Bool.false_ne_true
    · rw [limit_of_after hAfter] at hLong
      exact .inl ⟨_, .tooLong split hOrder ((areViable_concat_iff hAfter).2 hNext) hNumber hLong⟩

/-- A walk fails with the first fault and with no other. -/
theorem check_eq_error_iff {fault : Fault} :
    Stage.start.check tokens = .error fault ↔ fault.IsFirst tokens := by
  refine ⟨fun h => ?_, check_of_isFirst⟩
  rcases check_cases tokens with ⟨first, hFirst⟩ | ⟨_, _, hOk⟩
  · obtain rfl : first = fault := Except.error.inj ((check_of_isFirst hFirst).symm.trans h)
    exact hFirst
  · rw [hOk] at h
    cases h

end Stage

namespace Phrase

variable {tokens : List Token}

/-- Reading a phrase fails with the first fault of its tokens. -/
theorem ofTokens_eq_error_iff {fault : Fault} :
    ofTokens tokens = .error fault ↔ fault.IsFirst tokens := by
  rw [← Stage.check_eq_error_iff, ← ofTokens_check]
  cases ofTokens tokens <;> simp [Except.map]

/-- A phrase is read only from tokens that are in order and have the marks of a term. -/
theorem inOrder_of_ofTokens {p : Phrase} (h : ofTokens tokens = .ok p) :
    InOrder tokens ∧ Mark.AreTerm (Mark.ofTokens tokens) := by
  rcases Stage.check_cases tokens with ⟨fault, hFirst⟩ | ⟨hOrder, hTerm, _⟩
  · rw [ofTokens_eq_error_iff.2 hFirst] at h
    cases h
  · exact ⟨hOrder, hTerm⟩

end Phrase

namespace Mark

/-- Whatever is asked for can follow, and something is. -/
theorem areViable_of_mem_wantedAfter {marks : List Mark} (h : AreViable marks) :
    wantedAfter marks ≠ [] ∧ ∀ mark ∈ wantedAfter marks, AreViable (marks ++ [mark]) := by
  obtain ⟨s, hAfter⟩ := Stage.areViable_iff.1 h
  rw [← Stage.wanted_of_after hAfter]
  refine ⟨by cases s <;> decide, fun mark hMark => Stage.areViable_iff.2 ?_⟩
  obtain ⟨s', hNext⟩ := Stage.next_of_mem_wanted hMark
  exact ⟨s', Stage.after_concat_eq_some_iff.2 ⟨s, hAfter, hNext⟩⟩

end Mark

namespace Pool

/-- Reading a pool fails with the first fault of the text, or else with a flaw of the term that the
text is. -/
theorem ofChars_eq_error_iff {cs : List Char} {fault : Fault} :
    ofChars cs = .error fault ↔ fault.IsFirst (Token.scan 0 cs) ∨
      ∃ (t : RollTerm) (flaw : Flaw),
        t.chars = cs ∧ t.IsPaired ∧ t.HasFlaw flaw ∧ fault = .unsound flaw := by
  rw [← Phrase.ofTokens_eq_error_iff]
  cases hTokens : Phrase.ofTokens (Token.scan 0 cs) with
  | error first =>
      have hChars : ofChars cs = .error first := by rw [ofChars, hTokens]; rfl
      rw [hChars, Except.error.injEq, Except.error.injEq]
      refine ⟨.inl, fun h => h.resolve_right ?_⟩
      rintro ⟨t, _, rfl, hPaired, _, _⟩
      rw [Phrase.ofTokens_scan 0 t hPaired] at hTokens
      cases hTokens
  | ok phrase =>
      obtain ⟨t, rfl, hPaired, _⟩ := Phrase.ofTokens_scan_eq_ok_iff.1 hTokens
      rw [ofChars_of_isPaired hPaired]
      constructor
      · intro h
        cases hBuild : t.draft.build with
        | error flaw =>
            rw [hBuild] at h
            cases h
            exact .inr ⟨t, flaw, rfl, hPaired, RollTerm.build_draft_eq_error_iff.1 hBuild, rfl⟩
        | ok p => rw [hBuild] at h; cases h
      · rintro (h | ⟨u, flaw, hChars, hPairedOther, hFlaw, rfl⟩)
        · cases h
        · rw [← ofChars_of_isPaired hPaired, ← hChars, ofChars_of_isPaired hPairedOther,
            RollTerm.build_draft_eq_error_iff.2 hFlaw]
          rfl

/-- The fault for which a text is not read is the first in its tokens. Only a text without such a
fault, which is a term with all numbers short enough, is refused for the dice that it describes. The
tokens stand in the text one behind the other, and are shown by their own text if they are strays,
and else by the names of their marks. Whatever is asked for can follow. The tokens of a term have
the marks of the term. -/
theorem ofChars_names_first_fault (cs : List Char) :
    (∀ fault, ofChars cs = .error fault ↔ fault.IsFirst (Token.scan 0 cs) ∨
      InOrder (Token.scan 0 cs) ∧ Mark.AreTerm (Mark.ofTokens (Token.scan 0 cs)) ∧
        ∃ (t : RollTerm) (flaw : Flaw),
          t.chars = cs ∧ t.IsPaired ∧ t.HasFlaw flaw ∧ fault = .unsound flaw) ∧
    (∀ before t after, Token.scan 0 cs = before ++ t :: after →
      cs = before.flatMap Token.text ++ t.text ++ after.flatMap Token.text ∧
        t.StandsBetween (before.flatMap Token.text) (after.flatMap Token.text) ∧
        (t.mark = .stray → t.shown = t.text) ∧
        (t.mark ≠ .stray → t.shown = t.mark.name.toList)) ∧
    (∀ marks, Mark.AreViable marks → Mark.wantedAfter marks ≠ [] ∧
      ∀ mark ∈ Mark.wantedAfter marks, Mark.AreViable (marks ++ [mark])) ∧
    ∀ t : RollTerm, t.chars = cs → t.IsPaired → Mark.ofTokens (Token.scan 0 cs) = t.marks := by
  refine ⟨fun fault => ?_, fun before t after h => ⟨?_, ?_, fun hStray => if_pos hStray,
    fun hMark => if_neg hMark⟩, fun _ => Mark.areViable_of_mem_wantedAfter, ?_⟩
  · rw [ofChars_eq_error_iff]
    refine or_congr_right ⟨?_, fun h => h.2.2⟩
    rintro ⟨t, flaw, rfl, hPaired, hFlaw⟩
    obtain ⟨hOrder, hTerm⟩ := Phrase.inOrder_of_ofTokens (Phrase.ofTokens_scan 0 t hPaired)
    exact ⟨hOrder, hTerm, t, flaw, rfl, hPaired, hFlaw⟩
  · have hText := Token.flatMap_text_scan 0 cs
    rw [h, List.flatMap_append, List.flatMap_cons, ← List.append_assoc] at hText
    exact hText.symm
  · exact Token.standsBetween_of_scan (Token.cutsDigits_nil cs) h
  · rintro t rfl hPaired
    exact Mark.ofTokens_scan_chars hPaired

/-- An accented letter in place of the number of sides; it takes two bytes. -/
theorem ofChars_names_first_fault_of_accent :
    ofChars ['2', 'd', 'é'] = .error (.unexpected ⟨.stray, ['é'], 2⟩ [.number]) ∧
      (⟨.stray, ['é'], 2⟩ : Token).StandsBetween ['2', 'd'] [] ∧
      (⟨.stray, ['é'], 2⟩ : Token).shown = ['é'] ∧
      (⟨.number, ['2'], 0⟩ : Token).shown = Mark.number.name.toList ∧
      Mark.AreViable [.number, .dice, .number] := by
  have hScan : Token.scan 0 ['2', 'd', 'é'] =
      [⟨.number, ['2'], 0⟩, ⟨.dice, ['d'], 1⟩, ⟨.stray, ['é'], 2⟩] := by
    simp [Token.scan_cons, Mark.front, byteLength, Char.utf8Size]
  have hPasses : Stage.start.Passes [⟨.number, ['2'], 0⟩, ⟨.dice, ['d'], 1⟩] .dice :=
    .cons rfl (by decide) (.cons rfl (by decide) (.nil _))
  obtain ⟨hOrder, hAfter⟩ := Stage.passes_iff.1 hPasses
  have hViable : Mark.AreViable [.number, .dice] := Stage.areViable_iff.2 ⟨_, hAfter⟩
  have hStuck : ¬ Mark.AreViable [.number, .dice, .stray] := by
    intro h
    obtain ⟨_, ⟨⟩⟩ := Stage.areViable_iff.1 h
  obtain ⟨hFault, hPlaces, hWanted, _⟩ := ofChars_names_first_fault ['2', 'd', 'é']
  refine ⟨(hFault _).2 (.inl ?_), ?_, ?_, ?_, ?_⟩
  · exact @Fault.IsFirst.unexpected _ [_, _] [] _ hScan hOrder hViable hStuck
  · exact (hPlaces [_, _] _ [] hScan).2.1
  · exact (hPlaces [_, _] _ [] hScan).2.2.1 rfl
  · exact (hPlaces [] _ [_, _] hScan).2.2.2 (by decide)
  · exact (hWanted _ hViable).2 .number (by decide)

end Pool
end DiceTray
