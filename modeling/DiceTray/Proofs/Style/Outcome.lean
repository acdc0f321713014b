import DiceTray.Proofs.Group.Extent
import DiceTray.Proofs.Script.RoundTrip
import DiceTray.Proofs.Section.Evaluation
import DiceTray.Proofs.Style.Group
import DiceTray.Shaker.Tape

/-! An outcome shown plainly and the section it came from. Both are written with the same gaps
between operands; a section that has a label sets its first operand off like any other, and an
outcome does not. Main statement: without its dice an outcome looks like its section with the total
behind it, but for the blank behind a minus that follows a label; with its dice, the groups stand
behind the pools that they were thrown from, and nothing else is different. -/
namespace DiceTray
open Text

variable {σ : Type} {t : Table σ} {s rolled : Section} {state next : σ}

/-- The outcome as if its dice had never been drawn. -/
def Outcome.unrolled (o : Outcome) : Outcome := { o with items := o.items.map Item.unrolled }

def Joint.leadingGap : Joint → List Char
  | .signed .minus => ['-']
  | .lead | .signed .plus => []

def Joint.followingGap : Joint → List Char
  | .lead => [' ']
  | .signed sign => ' ' :: sign.chars ++ [' ']

def labelChars (label : String) : List Char := '(' :: label.toList ++ [')']

def totalChars (total : Int) : List Char := ['=', ' '] ++ signedNumeral total

/-- The operands in a row, written in some way, and then the total. -/
def rowChars (write : Operand → List Char) (total : Int) : List Item → List Char
  | [] => totalChars total
  | first :: rest =>
    first.joint.leadingGap ++ write first.operand ++
      rest.flatMap (fun item => item.joint.followingGap ++ write item.operand) ++
      ' ' :: totalChars total

/-- An outcome with its operands written in some way. -/
def Outcome.layout (write : Operand → List Char) (o : Outcome) : List Char :=
  o.label?.elim [] (fun label => labelChars label ++ [' ']) ++ rowChars write o.total o.items

/-- The groups of a throw, each told by the faces of its tally in order. -/
def Operand.groupChars : Operand → List Char
  | .dice ⟨_, some groups⟩ => ' ' :: [' '].intercalate
      (groups.map fun g => '[' :: [',', ' '].intercalate (g.tally.map numeral) ++ [']'])
  | _ => []

/-- The first operand of a section stands behind a leading gap. -/
theorem Section.leadingChars_eq (item : Item) :
    leadingChars item = item.joint.leadingGap ++ item.operand.chars := by
  rcases item with ⟨_ | _ | _, operand⟩ <;> rfl

/-- Any other stands behind a following gap. -/
theorem Section.followingChars_eq (item : Item) :
    followingChars item = item.joint.followingGap ++ item.operand.chars := by
  rcases item with ⟨_ | _ | _, operand⟩ <;> rfl

namespace Style

/-- Outcomes have the same leading gaps as sections. -/
theorem leading_eq (s : Style) (item : Item) :
    s.leading item = item.joint.leadingGap ++ s.operand item.operand := by
  rcases item with ⟨_ | _ | _, operand⟩ <;> rfl

/-- With the blank that joins them they have the same following gaps. -/
theorem blank_cons_following_eq (s : Style) (item : Item) :
    ' ' :: s.following item = item.joint.followingGap ++ s.operand item.operand := by
  rcases item with ⟨_ | _ | _, operand⟩ <;> rfl

/-- Operands and total joined by blanks make the row of an outcome. -/
theorem intercalate_items (s : Style) (total : Int) (items : List Item) :
    [' '].intercalate (s.items items ++ [totalChars total]) = rowChars s.operand total items := by
  cases items with
  | nil => exact List.intercalate_singleton
  | cons first rest =>
      have hRest : (rest.map s.following).flatMap ([' '] ++ ·) =
          rest.flatMap fun item => item.joint.followingGap ++ s.operand item.operand := by
        rw [List.flatMap_map]
        exact congrArg (rest.flatMap ·) (funext s.blank_cons_following_eq)
      rw [items, List.cons_append, intercalate_cons, List.flatMap_append, hRest, s.leading_eq]
      simp [rowChars]

/-- A plain outcome is laid out with its operands in plain style. -/
theorem plain_outcome_eq_layout (o : Outcome) : plain.outcome o = o.layout plain.operand := by
  have hRow : [' '].intercalate (plain.items o.items ++ [totalChars o.total]) =
      rowChars plain.operand o.total o.items := plain.intercalate_items o.total o.items
  rw [Outcome.layout, ← hRow]
  change [' '].intercalate (_ ++ plain.items o.items ++ [totalChars o.total]) = _
  cases o.label? with
  | none => rfl
  | some label =>
      have hNe : plain.items o.items ++ [totalChars o.total] ≠ [] := by simp
      exact List.intercalate_cons_of_ne_nil hNe

/-- A plain operand is its text with its groups behind it. -/
theorem plain_operand_eq (o : Operand) : plain.operand o = o.chars ++ o.groupChars := by
  rcases o with value | text | ⟨pool, _ | groups⟩ | text
  case dice.some =>
    have hGroups : groups.map (plain.group pool) =
        groups.map fun g => '[' :: [',', ' '].intercalate (g.tally.map numeral) ++ [']'] :=
      List.map_congr_left fun g _ => plain_group_eq pool g
    change pool.chars ++ ' ' :: [' '].intercalate (groups.map (plain.group pool)) = _
    rw [hGroups]
    rfl
  all_goals exact (List.append_nil _).symm

theorem plain_operand_unrolled (o : Operand) : plain.operand o.unrolled = o.chars := by
  cases o <;> rfl

/-- Without its dice a plain outcome is laid out with the texts of its operands. -/
theorem plain_outcome_unrolled (o : Outcome) :
    plain.outcome o.unrolled = o.layout Operand.chars := by
  have hRow : ∀ items : List Item, rowChars plain.operand o.total (items.map Item.unrolled) =
      rowChars Operand.chars o.total items := by
    intro items
    cases items with
    | nil => rfl
    | cons first rest =>
        rw [List.map_cons, rowChars, rowChars, List.flatMap_map]
        simp only [Item.unrolled, plain_operand_unrolled]
  rw [plain_outcome_eq_layout, Outcome.layout, Outcome.layout, ← hRow]
  rfl

end Style

namespace Section

theorem chars_unlabelled (first : Item) (rest : List Item) :
    chars ⟨none, first :: rest⟩ = first.joint.leadingGap ++ first.operand.chars ++
      rest.flatMap fun item => item.joint.followingGap ++ item.operand.chars := by
  change leadingChars first ++ rest.flatMap followingChars = _
  rw [leadingChars_eq, funext followingChars_eq]

/-- Behind a label every operand of a section stands behind a following gap, the first like the
others. -/
theorem chars_labelled (label : String) (items : List Item) :
    chars ⟨some label, items⟩ = labelChars label ++
      items.flatMap fun item => item.joint.followingGap ++ item.operand.chars := by
  rw [chars, funext followingChars_eq, labelChars]
  simp

/-- The operands of a section that was read all take part in the total. -/
theorem WellFormed.scores (h : s.WellFormed) : ∀ item ∈ s.items, item.operand.scores = true := by
  intro item hItem
  have hOperand := h.isClosed_or_isUnclosed hItem
  generalize item.operand = o at hOperand
  rcases hOperand with hClosed | hUnclosed
  · cases hClosed <;> rfl
  · cases hUnclosed
    rfl

/-- So do they however the dice lie, and none of them labels the section. -/
theorem WellFormed.outcome_eq (h : s.unrolled.WellFormed) :
    s.outcome = ⟨sumItems s.items, s.label?, s.items⟩ := by
  have hScores : ∀ item ∈ s.items, item.operand.scores = true := by
    intro item hItem
    have hUnrolled := h.scores item.unrolled (List.mem_map_of_mem hItem)
    rcases item with ⟨joint, operand⟩
    cases operand <;> exact hUnrolled
  have hNotes : s.items.findSome? (fun item => item.operand.note?) = none := by
    refine List.findSome?_eq_none_iff.2 fun item hItem => ?_
    have hItemScores := hScores item hItem
    rcases item with ⟨joint, operand⟩
    cases operand with
    | note text => cases hItemScores
    | literal _ | dice _ | plain _ => rfl
  rw [outcome, List.filter_eq_self.2 hScores, hNotes]
  cases s.label? <;> rfl

/-- Without its dice an outcome has the items of the section, whatever was drawn. -/
theorem unrolled_outcome_of_roll (h : s.unrolled.WellFormed)
    (hRoll : (s.roll t).run state = (rolled, next)) :
    rolled.outcome.unrolled = Outcome.unrolled ⟨rolled.outcome.total, s.label?, s.items⟩ := by
  have hUnrolled : rolled.unrolled = s.unrolled := (roll_settles hRoll).1
  have hOutcome := WellFormed.outcome_eq (hUnrolled ▸ h)
  have hLabel : rolled.label? = s.label? := (congrArg label? hUnrolled :)
  have hItems : rolled.items.map Item.unrolled = s.items.map Item.unrolled :=
    (congrArg items hUnrolled :)
  rw [hOutcome, Outcome.unrolled, Outcome.unrolled, hLabel, hItems]

/-- A first operand that is not taken away, or has no label before it, stands where it stands in the
section. -/
theorem layout_eq_chars (hBare : s.label? ≠ none ∨ s.items ≠ [])
    (hFirst : ∀ first ∈ s.items.head?, first.joint.IsFirst)
    (hMinus : s.label? = none ∨ ∀ first ∈ s.items.head?, first.joint ≠ .signed .minus)
    (total : Int) : Outcome.layout Operand.chars ⟨total, s.label?, s.items⟩ =
      s.chars ++ ' ' :: totalChars total := by
  rcases s with ⟨_ | label, _ | ⟨first, rest⟩⟩
  · simp at hBare
  · rw [chars_unlabelled]
    rfl
  · simp [chars_labelled, Outcome.layout, rowChars]
  · have hLead : first.joint = .lead := by
      simpa [Joint.IsFirst, hMinus.resolve_left (Option.some_ne_none label) first rfl]
        using hFirst first rfl
    simp [chars_labelled, Outcome.layout, rowChars, hLead, Joint.leadingGap, Joint.followingGap]

/-- Behind a label the section has a blank after the minus, and the outcome has none. -/
theorem exists_chars_behind_minus {first : Item} (hMinus : first.joint = .signed .minus)
    (label : String) (rest : List Item) (total : Int) :
    ∃ behind, chars ⟨some label, first :: rest⟩ =
        labelChars label ++ [' ', '-', ' '] ++ first.operand.chars ++ behind ∧
      Outcome.layout Operand.chars ⟨total, some label, first :: rest⟩ =
        labelChars label ++ [' ', '-'] ++ first.operand.chars ++ behind ++
          ' ' :: totalChars total := by
  refine ⟨rest.flatMap fun item => item.joint.followingGap ++ item.operand.chars, ?_, ?_⟩
  · simp [chars_labelled, hMinus, Joint.followingGap, Sign.chars]
  · simp [Outcome.layout, rowChars, hMinus, Joint.leadingGap]

/-- Every throw of a rolled section holds as many groups as its pool says. -/
theorem exists_groups_of_roll (h : (s.roll t).run state = (rolled, next)) {w : Throw}
    (hw : w ∈ rolled.throws) :
    ∃ groups, w.groups? = some groups ∧ groups.length = w.pool.times := by
  have hThrows : (s.throws.mapM (Throw.roll t)).run state = (rolled.throws, next) := by
    rw [← throws_roll, StateT.run_map, h]
    rfl
  obtain ⟨v, -, before, after, hRoll⟩ := exists_of_mem_mapM_run hThrows hw
  obtain ⟨groups, rfl, hLength, -⟩ := Throw.exists_groups_of_roll hRoll
  exact ⟨groups, rfl, hLength⟩

/-- A section that was read from some text, rolled on any table, and what it comes to, shown
plainly. Without its dice that is the section as written with the total behind it. Only where a
label stands before an operand that is taken away there is a blank less. With its dice the groups of
each throw, as many as its pool says, are written behind the pool. -/
theorem plain_outcome_shows_section (t : Table σ) (s : Section) (state : σ)
    (h : s.unrolled.IsRead) (hBare : s.label? ≠ none ∨ s.items ≠ []) :
    let o := ((s.roll t).run state).1.outcome
    (s.label? = none ∨ (∀ first ∈ s.items.head?, first.joint ≠ .signed .minus) →
      Style.plain.outcome o.unrolled = s.chars ++ ' ' :: totalChars o.total) ∧
    (∀ label first rest, s.label? = some label → s.items = first :: rest →
      first.joint = .signed .minus →
        ∃ behind, s.chars = labelChars label ++ [' ', '-', ' '] ++ first.operand.chars ++ behind ∧
          Style.plain.outcome o.unrolled =
            labelChars label ++ [' ', '-'] ++ first.operand.chars ++ behind ++
              ' ' :: totalChars o.total) ∧
    (Style.plain.outcome o.unrolled = o.layout Operand.chars ∧
      Style.plain.outcome o = o.layout fun operand => operand.chars ++ operand.groupChars) ∧
    ∀ item ∈ o.items, ∀ w, item.operand = .dice w →
      ∃ groups, w.groups? = some groups ∧ groups.length = w.pool.times := by
  rcases hRoll : (s.roll t).run state with ⟨rolled, next⟩
  intro o
  obtain ⟨text, hText⟩ := h
  have hWellFormed : s.unrolled.WellFormed := Script.wellFormed_of_mem_sections hText
  have hPlain : Style.plain.outcome o.unrolled =
      Outcome.layout Operand.chars ⟨o.total, s.label?, s.items⟩ := by
    rw [unrolled_outcome_of_roll hWellFormed hRoll, Style.plain_outcome_unrolled]
  have hFirst : ∀ first ∈ s.items.head?, first.joint.IsFirst := by
    intro first hHead
    refine hWellFormed.first first.unrolled ?_
    rw [unrolled, List.head?_map]
    exact Option.mem_map_of_mem Item.unrolled hHead
  refine ⟨?_, ?_, ⟨Style.plain_outcome_unrolled o, ?_⟩, ?_⟩
  · intro hMinus
    rw [hPlain, layout_eq_chars hBare hFirst hMinus]
  · intro label first rest hLabel hItems hMinus
    obtain ⟨behind, hChars, hLayout⟩ := exists_chars_behind_minus hMinus label rest o.total
    rw [← hLabel, ← hItems] at hChars hLayout
    exact ⟨behind, hChars, hPlain.trans hLayout⟩
  · rw [Style.plain_outcome_eq_layout, funext Style.plain_operand_eq]
  · rintro item hItem w hDice
    refine exists_groups_of_roll hRoll ?_
    exact List.mem_filterMap.2 ⟨item, List.mem_of_mem_filter hItem, by rw [hDice]; rfl⟩

/-- Dice that are taken away, behind a label and without one. -/
theorem plain_outcome_shows_section_of_taken_dice :
    let p : Pool := ⟨{ count := 2, sides := 6, keep := 1 }, by decide, by decide, by decide⟩
    let taken : Item := ⟨.signed .minus, .dice { pool := p }⟩
    let s : Section := ⟨some "Hit", [taken, ⟨.signed .plus, .literal 3⟩]⟩
    let r : Section := ⟨none, [taken]⟩
    let t : Table Nat := { shaker := Tape.cycle #[5, 2] }
    let o := ((s.roll t).run 0).1.outcome
    let q := ((r.roll t).run 0).1.outcome
    (s.unrolled.IsRead ∧ r.unrolled.IsRead ∧ s.label? ≠ none ∧ r.items ≠ []) ∧
      (∃ behind, s.chars = labelChars "Hit" ++ [' ', '-', ' '] ++ taken.operand.chars ++ behind ∧
        Style.plain.outcome o.unrolled =
          labelChars "Hit" ++ [' ', '-'] ++ taken.operand.chars ++ behind ++
            ' ' :: totalChars o.total) ∧
      Style.plain.outcome q.unrolled = r.chars ++ ' ' :: totalChars q.total := by
  intro p taken s r t o q
  have hs : s.unrolled.IsRead := ⟨"( Hit )-2D6k1+03", by decide +kernel⟩
  have hr : r.unrolled.IsRead := ⟨"- 2d6k1", by decide +kernel⟩
  have hLabel : s.label? ≠ none := by decide
  have hItems : r.items ≠ [] := by decide
  obtain ⟨-, hBehind, -⟩ := plain_outcome_shows_section t s 0 hs (.inl hLabel)
  obtain ⟨hSame, -⟩ := plain_outcome_shows_section t r 0 hr (.inr hItems)
  exact ⟨⟨hs, hr, hLabel, hItems⟩, hBehind "Hit" taken _ rfl rfl rfl, hSame (.inl rfl)⟩

end Section
end DiceTray
