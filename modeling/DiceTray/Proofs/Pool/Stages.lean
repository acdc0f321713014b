import DiceTray.Proofs.Pool.Grammar

/-! How far a list of marks goes with the grammar of roll terms. Digits and their number are not
looked at. A list of marks is viable if more marks can make it the marks of a term; whether it is
depends on the stage alone that it has reached, and each stage tells which marks can come next. -/
namespace DiceTray

def Affix.marks (a : Affix) : List Mark := a.sigil.mark :: a.amount?.elim [] fun _ => [.number]

def Faces.mark : Faces → Mark
  | .percent => .percent
  | .figure _ => .number

def RollTerm.marks (t : RollTerm) : List Mark :=
  t.times?.elim [] (fun _ => [.number, .times]) ++ t.count?.elim [] (fun _ => [.number]) ++
    .dice :: t.faces.mark :: t.affixes.flatMap Affix.marks

namespace Mark

def ofTokens (tokens : List Token) : List Mark := tokens.map Token.mark

theorem ofTokens_concat (tokens : List Token) (t : Token) :
    ofTokens (tokens ++ [t]) = ofTokens tokens ++ [t.mark] := List.map_append

/-- The text of affixes is scanned into their marks. -/
theorem ofTokens_scan_affixes (start : Nat) {affixes : List Affix}
    (h : affixes.IsChain Affix.MayPrecede) :
    ofTokens (Token.scan start (affixes.flatMap Affix.chars)) = affixes.flatMap Affix.marks := by
  induction affixes generalizing start with
  | nil => rw [List.flatMap_nil, Token.scan_nil]; rfl
  | cons a rest ih =>
      rw [Token.scan_affixes start h, List.flatMap_cons, Affix.marks]
      cases a.amount? with
      | none => exact congrArg (_ :: ·) (ih _ h.tail)
      | some f =>
          rw [Option.elim_some, Token.scan_figure _ f _ (Affix.isDigit_head?_flatMap rest)]
          exact congrArg (_ :: _ :: ·) (ih _ h.tail)

/-- The text of faces and affixes is scanned into their marks. -/
theorem ofTokens_scan_faces (start : Nat) (faces : Faces) {affixes : List Affix}
    (h : affixes.IsChain Affix.MayPrecede) :
    ofTokens (Token.scan start (faces.chars ++ affixes.flatMap Affix.chars)) =
      faces.mark :: affixes.flatMap Affix.marks := by
  cases faces with
  | percent =>
      rw [Faces.chars, List.singleton_append, Token.scan_percent]
      exact congrArg (_ :: ·) (ofTokens_scan_affixes _ h)
  | figure f =>
      rw [Faces.chars, Token.scan_figure _ f _ (Affix.isDigit_head?_flatMap affixes)]
      exact congrArg (_ :: ·) (ofTokens_scan_affixes _ h)

/-- So is the text with the count and the dice mark before them. -/
theorem ofTokens_scan_count (start : Nat) (count? : Option (Figure 2)) (faces : Faces)
    {affixes : List Affix} (h : affixes.IsChain Affix.MayPrecede) :
    ofTokens (Token.scan start (count?.elim [] Figure.digits ++
        'd' :: (faces.chars ++ affixes.flatMap Affix.chars))) =
      count?.elim [] (fun _ => [.number]) ++
        .dice :: faces.mark :: affixes.flatMap Affix.marks := by
  cases count? with
  | none =>
      rw [Option.elim_none, List.nil_append, Token.scan_dice]
      exact congrArg (_ :: ·) (ofTokens_scan_faces _ faces h)
  | some f =>
      rw [Option.elim_some, Token.scan_figure _ f _ (by simp), Token.scan_dice]
      exact congrArg (_ :: _ :: ·) (ofTokens_scan_faces _ faces h)

/-- The text of a paired term is scanned into the marks of the term. -/
theorem ofTokens_scan_chars {t : RollTerm} (h : t.IsPaired) :
    ofTokens (Token.scan 0 t.chars) = t.marks := by
  rw [RollTerm.chars, List.append_assoc, List.append_assoc, List.cons_append, RollTerm.marks,
    List.append_assoc]
  cases t.times? with
  | none => exact ofTokens_scan_count 0 t.count? t.faces h
  | some f =>
      rw [Option.elim_some, List.append_assoc, List.singleton_append,
        Token.scan_figure _ f _ (by simp), Token.scan_times]
      exact congrArg (_ :: _ :: ·) (ofTokens_scan_count _ t.count? t.faces h)

def AreTerm (marks : List Mark) : Prop := ∃ t : RollTerm, t.marks = marks

/-- Marks that can be continued to those of some term. -/
def AreViable (marks : List Mark) : Prop := ∃ more, AreTerm (marks ++ more)

end Mark

/-- What has been written of a term, as far as it decides about what can follow. -/
inductive Stage where
  /-- Nothing yet. -/
  | start
  /-- A number, which may be the times or the count. -/
  | first
  /-- The times mark. -/
  | times
  /-- A number after the times mark. -/
  | second
  /-- The dice mark, which stands before the number of sides. -/
  | dice
  /-- A term that does not end in the mark of an affix. -/
  | settled
  /-- A term that ends in the mark of an affix. -/
  | bare
deriving DecidableEq, Repr

namespace Stage

/-- The stage after one more mark, if that can follow. -/
def next : Stage → Mark → Option Stage
  | .start, .number => some .first
  | .first, .times => some .times
  | .times, .number => some .second
  | .start, .dice | .first, .dice | .times, .dice | .second, .dice => some .dice
  | .dice, .number | .dice, .percent | .bare, .number => some .settled
  | .settled, mark | .bare, mark => if mark.modifier?.isSome then some .bare else none
  | _, _ => none

/-- The stage after some more marks, if they can follow. -/
def after (s : Stage) (marks : List Mark) : Option Stage := marks.foldlM next s

def isComplete : Stage → Bool
  | .settled | .bare => true
  | _ => false

/-- Marks that complete a term. -/
def completion : Stage → List Mark
  | .start | .first | .times | .second => [.dice, .number]
  | .dice => [.number]
  | .settled | .bare => []

theorem after_nil (s : Stage) : s.after [] = some s := rfl

theorem after_cons (s : Stage) (mark : Mark) (marks : List Mark) :
    s.after (mark :: marks) = (s.next mark).bind fun s' => s'.after marks := rfl

/-- Marks and then more marks lead to where the second lead from where the first do. -/
theorem after_append (s : Stage) (marks more : List Mark) :
    s.after (marks ++ more) = (s.after marks).bind fun s' => s'.after more :=
  List.foldlM_append

/-- From every stage there is a way to complete a term. -/
theorem after_completion (s : Stage) :
    ∃ s', s.after s.completion = some s' ∧ s'.isComplete = true := by
  cases s with
  | start | first | times | second | dice => exact ⟨.settled, rfl, rfl⟩
  | settled => exact ⟨.settled, rfl, rfl⟩
  | bare => exact ⟨.bare, rfl, rfl⟩

theorem next_settled (mark : Mark) :
    Stage.settled.next mark = if mark.modifier?.isSome then some .bare else none := by
  cases mark <;> rfl

/-- Only a number can follow the mark of an affix but not its amount. -/
theorem next_bare {mark : Mark} (h : mark ≠ .number) :
    Stage.bare.next mark = Stage.settled.next mark := by
  cases mark with
  | number => exact absurd rfl h
  | _ => rfl

/-- A complete term can be followed by any modifier. -/
theorem next_of_modifier {s : Stage} (h : s.isComplete = true) {mark : Mark}
    (hMark : mark.modifier?.isSome = true) : s.next mark = some .bare := by
  have hNumber : mark ≠ .number := by
    rintro rfl
    cases hMark
  cases s with
  | settled => rw [next_settled, if_pos hMark]
  | bare => rw [next_bare hNumber, next_settled, if_pos hMark]
  | start | first | times | second | dice => cases h

/-- What else follows a complete term is a number behind a bare modifier. -/
theorem eq_number_of_next {s s' : Stage} (hs : s.isComplete = true) {mark : Mark}
    (hMark : ¬ mark.modifier?.isSome = true) (h : s.next mark = some s') :
    s = .bare ∧ mark = .number ∧ s' = .settled := by
  cases s with
  | settled =>
      rw [next_settled, if_neg hMark] at h
      cases h
  | bare =>
      by_cases hNumber : mark = .number
      · subst hNumber
        cases h
        exact ⟨rfl, rfl, rfl⟩
      · rw [next_bare hNumber, next_settled, if_neg hMark] at h
        cases h
  | start | first | times | second | dice => cases hs

/-- The marks of affixes lead from one complete stage to another. -/
theorem after_affixes {s : Stage} (h : s.isComplete = true) (affixes : List Affix) :
    ∃ s', s.after (affixes.flatMap Affix.marks) = some s' ∧ s'.isComplete = true := by
  induction affixes generalizing s with
  | nil => exact ⟨s, rfl, h⟩
  | cons a affixes ih =>
      have hModifier : a.sigil.mark.modifier?.isSome = true := by rw [a.modifier?_mark]; rfl
      rw [List.flatMap_cons, Affix.marks, List.cons_append, after_cons,
        next_of_modifier h hModifier]
      cases a.amount? with
      | none => exact ih rfl
      | some f => exact ih (s := .settled) rfl

theorem after_faces (faces : Faces) (affixes : List Affix) :
    ∃ s, Stage.dice.after (faces.mark :: affixes.flatMap Affix.marks) = some s ∧
      s.isComplete = true := by
  have hFaces : Stage.dice.next faces.mark = some .settled := by
    cases faces <;> rfl
  rw [after_cons, hFaces]
  exact after_affixes rfl affixes

/-- The marks of a term lead from the start to a complete stage. -/
theorem after_marks (t : RollTerm) :
    ∃ s, Stage.start.after t.marks = some s ∧ s.isComplete = true := by
  rw [RollTerm.marks]
  cases t.times? <;> cases t.count? <;> exact after_faces t.faces t.affixes

theorem exists_sigil_of_modifier {mark : Mark} (h : mark.modifier?.isSome = true) :
    ∃ s : Sigil, s.mark = mark := by
  cases mark with
  | explode => exact ⟨.e, rfl⟩
  | chain => exact ⟨.ie, rfl⟩
  | keep => exact ⟨.k, rfl⟩
  | dice => exact ⟨.d, rfl⟩
  | reroll => exact ⟨.r, rfl⟩
  | multiply => exact ⟨.star, rfl⟩
  | target => exact ⟨.t, rfl⟩
  | number | times | percent | stray => cases h

def nought (limit : Nat) (h : 0 < limit) : Figure limit := Figure.mk ['0'] (by simp) (by simp) h

/-- After a term there are the marks of affixes; after one that ends in the mark of an affix, its
amount may come first. A mark begins an affix, and a number that comes first later on is the amount
of this one; or it is itself such a number, and a settled term is left behind it. -/
theorem exists_affixes {s s' : Stage} {marks : List Mark} (hComplete : s.isComplete = true)
    (h : s.after marks = some s') :
    ∃ affixes : List Affix, affixes.flatMap Affix.marks = marks ∨
      s = .bare ∧ .number :: affixes.flatMap Affix.marks = marks := by
  induction marks generalizing s with
  | nil => exact ⟨[], .inl rfl⟩
  | cons mark marks ih =>
      obtain ⟨middle, hNext, hRest⟩ := Option.bind_eq_some_iff.1 h
      by_cases hModifier : mark.modifier?.isSome = true
      · obtain ⟨sigil, rfl⟩ := exists_sigil_of_modifier hModifier
        rw [next_of_modifier hComplete hModifier] at hNext
        cases hNext
        obtain ⟨affixes, rfl | ⟨_, rfl⟩⟩ := ih rfl hRest
        · exact ⟨⟨sigil, none⟩ :: affixes, .inl rfl⟩
        · exact ⟨⟨sigil, some (nought 3 (by decide))⟩ :: affixes, .inl rfl⟩
      · obtain ⟨rfl, rfl, rfl⟩ := eq_number_of_next hComplete hModifier hNext
        obtain ⟨affixes, rfl | ⟨hBare, _⟩⟩ := ih rfl hRest
        · exact ⟨affixes, .inr ⟨rfl, rfl⟩⟩
        · cases hBare

/-- Marks behind a settled term are those of affixes. -/
theorem exists_affixes_of_settled {s : Stage} {marks : List Mark}
    (h : Stage.settled.after marks = some s) :
    ∃ affixes : List Affix, affixes.flatMap Affix.marks = marks := by
  obtain ⟨affixes, hMarks | ⟨hBare, _⟩⟩ := exists_affixes rfl h
  · exact ⟨affixes, hMarks⟩
  · cases hBare

/-- More marks have to follow where there is no term yet. -/
theorem exists_next_of_after {s s' : Stage} {marks : List Mark} (hs : s.isComplete = false)
    (hComplete : s'.isComplete = true) (h : s.after marks = some s') :
    ∃ mark rest middle, marks = mark :: rest ∧ s.next mark = some middle ∧
      middle.after rest = some s' := by
  cases marks with
  | nil =>
      cases h
      rw [hs] at hComplete
      cases hComplete
  | cons mark rest =>
      obtain ⟨middle, hNext, hRest⟩ := Option.bind_eq_some_iff.1 h
      exact ⟨mark, rest, middle, rfl, hNext, hRest⟩

/-- Marks behind the dice mark that complete a term are those of faces and affixes. -/
theorem exists_faces {s : Stage} {marks : List Mark} (hComplete : s.isComplete = true)
    (h : Stage.dice.after marks = some s) :
    ∃ (faces : Faces) (affixes : List Affix),
      faces.mark :: affixes.flatMap Affix.marks = marks := by
  obtain ⟨mark, rest, middle, rfl, hNext, hRest⟩ := exists_next_of_after rfl hComplete h
  cases mark with
  | number =>
      cases hNext
      obtain ⟨affixes, rfl⟩ := exists_affixes_of_settled hRest
      exact ⟨.figure (nought 3 (by decide)), affixes, rfl⟩
  | percent =>
      cases hNext
      obtain ⟨affixes, rfl⟩ := exists_affixes_of_settled hRest
      exact ⟨.percent, affixes, rfl⟩
  | times | dice | explode | chain | keep | reroll | multiply | target | stray => cases hNext

theorem exists_faces_of_second {s : Stage} {marks : List Mark} (hComplete : s.isComplete = true)
    (h : Stage.second.after marks = some s) :
    ∃ (faces : Faces) (affixes : List Affix),
      .dice :: faces.mark :: affixes.flatMap Affix.marks = marks := by
  obtain ⟨mark, rest, middle, rfl, hNext, hRest⟩ := exists_next_of_after rfl hComplete h
  cases mark with
  | dice =>
      cases hNext
      obtain ⟨faces, affixes, rfl⟩ := exists_faces hComplete hRest
      exact ⟨faces, affixes, rfl⟩
  | number | times | percent | explode | chain | keep | reroll | multiply | target | stray =>
      cases hNext

/-- After the times mark there may be a count. -/
theorem exists_count {s : Stage} {marks : List Mark} (hComplete : s.isComplete = true)
    (h : Stage.times.after marks = some s) :
    ∃ (count? : Option (Figure 2)) (faces : Faces) (affixes : List Affix),
      count?.elim [] (fun _ => [.number]) ++ .dice :: faces.mark :: affixes.flatMap Affix.marks =
        marks := by
  obtain ⟨mark, rest, middle, rfl, hNext, hRest⟩ := exists_next_of_after rfl hComplete h
  cases mark with
  | number =>
      cases hNext
      obtain ⟨faces, affixes, rfl⟩ := exists_faces_of_second hComplete hRest
      exact ⟨some (nought 2 (by decide)), faces, affixes, rfl⟩
  | dice =>
      cases hNext
      obtain ⟨faces, affixes, rfl⟩ := exists_faces hComplete hRest
      exact ⟨none, faces, affixes, rfl⟩
  | times | percent | explode | chain | keep | reroll | multiply | target | stray => cases hNext

/-- A number and what leads on from it to a complete stage are the marks of a term. -/
theorem areTerm_of_first {s : Stage} {marks : List Mark} (hComplete : s.isComplete = true)
    (h : Stage.first.after marks = some s) : Mark.AreTerm (.number :: marks) := by
  obtain ⟨mark, rest, middle, rfl, hNext, hRest⟩ := exists_next_of_after rfl hComplete h
  cases mark with
  | times =>
      cases hNext
      obtain ⟨count?, faces, affixes, rfl⟩ := exists_count hComplete hRest
      exact ⟨⟨some (nought 2 (by decide)), count?, faces, affixes⟩, rfl⟩
  | dice =>
      cases hNext
      obtain ⟨faces, affixes, rfl⟩ := exists_faces hComplete hRest
      exact ⟨⟨none, some (nought 2 (by decide)), faces, affixes⟩, rfl⟩
  | number | percent | explode | chain | keep | reroll | multiply | target | stray => cases hNext

/-- The marks of terms are those that go through all stages. -/
theorem areTerm_iff {marks : List Mark} :
    Mark.AreTerm marks ↔ ∃ s, Stage.start.after marks = some s ∧ s.isComplete = true := by
  constructor
  · rintro ⟨t, rfl⟩
    exact after_marks t
  · rintro ⟨s, h, hComplete⟩
    obtain ⟨mark, rest, middle, rfl, hNext, hRest⟩ := exists_next_of_after rfl hComplete h
    cases mark with
    | number =>
        cases hNext
        exact areTerm_of_first hComplete hRest
    | dice =>
        cases hNext
        obtain ⟨faces, affixes, rfl⟩ := exists_faces hComplete hRest
        exact ⟨⟨none, none, faces, affixes⟩, rfl⟩
    | times | percent | explode | chain | keep | reroll | multiply | target | stray => cases hNext

/-- Marks are viable if they reach any stage. -/
theorem areViable_iff {marks : List Mark} :
    Mark.AreViable marks ↔ ∃ s, Stage.start.after marks = some s := by
  constructor
  · rintro ⟨more, hTerm⟩
    obtain ⟨_, h, _⟩ := areTerm_iff.1 hTerm
    rw [after_append] at h
    obtain ⟨s, hStage, _⟩ := Option.bind_eq_some_iff.1 h
    exact ⟨s, hStage⟩
  · rintro ⟨s, hStage⟩
    obtain ⟨s', hCompletion, hComplete⟩ := s.after_completion
    refine ⟨s.completion, areTerm_iff.2 ⟨s', ?_, hComplete⟩⟩
    rw [after_append, hStage]
    exact hCompletion

end Stage
end DiceTray
