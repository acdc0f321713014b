import DiceTray.Style
import DiceTray.Text.Fields
import Mathlib.Data.List.Forall2

/-! Reading a group off its text. The texts of its dice have no comma in them, so they can be cut
apart again; what is left of such a text without its marks is the face, and its marks tell the rest.
Main statement: a group set in Markdown can be told but for its total, and without marks its tally
can. -/
namespace DiceTray
open Text

/-- The text without the characters that marks are made of. -/
def withoutMarks (cs : List Char) : List Char := cs.filter fun c => c ≠ '*' && c ≠ '~'

def IsStruck (text : List Char) : Prop := ∃ inner, text = between ['~', '~'] inner

/-- The text is bold, and may be struck through besides. -/
def IsBold (text : List Char) : Prop :=
  ∃ inner, text = between ['*', '*'] inner ∨ text = between ['~', '~'] (between ['*', '*'] inner)

/-- The dice of a group in the order of the tally, each with its mark. -/
def Group.marked (g : Group) : List (Nat × Bool) :=
  g.tally.zipIdx.map fun (face, place) => (face, g.isKept place)

namespace Group

theorem map_fst_marked (g : Group) : g.marked.map Prod.fst = g.tally := by
  rw [marked, List.map_map]
  exact List.zipIdx_map_fst 0 g.tally

theorem getElem?_marked (g : Group) (place : Nat) :
    g.marked[place]? = g.tally[place]?.map fun face => (face, g.isKept place) := by
  rw [marked, List.getElem?_map, List.getElem?_zipIdx, Option.map_map, Nat.zero_add]
  rfl

/-- Dice with their marks are told by the tally and by which of its places count. -/
theorem marked_eq_marked_iff {g h : Group} :
    g.marked = h.marked ↔
      g.tally = h.tally ∧ ∀ place < g.tally.length, g.isKept place = h.isKept place := by
  constructor
  · intro hMarked
    have hTally : g.tally = h.tally := by rw [← g.map_fst_marked, hMarked, h.map_fst_marked]
    refine ⟨hTally, fun place hPlace => ?_⟩
    have hDie : g.marked[place]? = h.marked[place]? := by rw [hMarked]
    rw [getElem?_marked, getElem?_marked, ← hTally, List.getElem?_eq_getElem hPlace] at hDie
    exact congrArg Prod.snd (Option.some.inj hDie)
  · rintro ⟨hTally, hKept⟩
    refine List.ext_getElem? fun place => ?_
    rw [getElem?_marked, getElem?_marked, ← hTally]
    rcases Nat.lt_or_ge place g.tally.length with hPlace | hPast
    · rw [hKept place hPlace]
    · rw [List.getElem?_eq_none hPast]
      rfl

end Group

/-- Texts can be told from the text they are joined to, if none is empty and none has a comma in
it. -/
theorem eq_of_intercalate_comma_eq {as bs : List (List Char)}
    (hAs : ∀ cs ∈ as, cs ≠ [] ∧ ',' ∉ cs) (hBs : ∀ cs ∈ bs, cs ≠ [] ∧ ',' ∉ cs)
    (h : [',', ' '].intercalate as = [',', ' '].intercalate bs) : as = bs := by
  have hNonempty : ∀ first rest, (∀ cs ∈ first :: rest, cs ≠ [] ∧ ',' ∉ cs) →
      [',', ' '].intercalate (first :: rest) ≠ [] := by
    intro first rest hTexts hNil
    rw [intercalate_cons] at hNil
    exact (hTexts first List.mem_cons_self).1 (List.append_eq_nil_iff.1 hNil).1
  have hFields : ∀ first rest, (∀ cs ∈ first :: rest, cs ≠ [] ∧ ',' ∉ cs) →
      fields ',' ([',', ' '].intercalate (first :: rest)) = first :: rest.map (' ' :: ·) :=
    fun first rest hTexts => fields_intercalate_blank (by decide)
      (hTexts first List.mem_cons_self).2 fun cs hcs => (hTexts cs (List.mem_cons_of_mem _ hcs)).2
  rcases as with _ | ⟨a, as⟩ <;> rcases bs with _ | ⟨b, bs⟩
  · rfl
  · exact absurd h.symm (hNonempty b bs hBs)
  · exact absurd h (hNonempty a as hAs)
  · have hCut := congrArg (fields ',') h
    rw [hFields a as hAs, hFields b bs hBs, List.cons.injEq] at hCut
    rw [hCut.1, (List.map_injective_iff.2 (List.cons_injective)) hCut.2]

theorem withoutMarks_append (as bs : List Char) :
    withoutMarks (as ++ bs) = withoutMarks as ++ withoutMarks bs := List.filter_append ..

/-- Leaving the marks out of joined texts is leaving them out of each, if the joint has none. -/
theorem withoutMarks_intercalate {joint : List Char} (h : withoutMarks joint = joint)
    (texts : List (List Char)) :
    withoutMarks (joint.intercalate texts) = joint.intercalate (texts.map withoutMarks) := by
  induction texts with
  | nil => rfl
  | cons first rest ih =>
      cases rest with
      | nil => simp
      | cons second rest =>
          rw [List.intercalate_cons_cons, withoutMarks_append, withoutMarks_append, h, ih]
          simp

namespace Style

def diceTexts (s : Style) (pool : Pool) (g : Group) : List (List Char) :=
  g.marked.map fun (face, kept) => s.die pool kept face

/-- A group is written as the texts of its dice, with commas between them. -/
theorem group_eq (s : Style) (pool : Pool) (g : Group) :
    s.group pool g = '[' :: [',', ' '].intercalate (s.diceTexts pool g) ++ [']'] := by
  rw [group, diceTexts, Group.marked, List.map_map]
  rfl

theorem diceTexts_plain (pool : Pool) (g : Group) :
    plain.diceTexts pool g = g.tally.map numeral := by
  rw [diceTexts, ← g.map_fst_marked, List.map_map]
  rfl

/-- In plain style a group shows its tally and nothing else. -/
theorem plain_group_eq (pool : Pool) (g : Group) :
    plain.group pool g = '[' :: [',', ' '].intercalate (g.tally.map numeral) ++ [']'] := by
  rw [group_eq, diceTexts_plain]

theorem mem_between {c : Char} {mark text : List Char} :
    c ∈ between mark text ↔ c ∈ mark ∨ c ∈ text := by
  simp [between, or_comm]

/-- Marks around a text are among those left out. -/
theorem withoutMarks_between {mark : List Char} (h : withoutMarks mark = []) (text : List Char) :
    withoutMarks (between mark text) = withoutMarks text := by
  rw [between, withoutMarks_append, withoutMarks_append, h, List.nil_append, List.append_nil]

/-- Numerals have no marks in them. -/
theorem withoutMarks_numeral (n : Nat) : withoutMarks (numeral n) = numeral n := by
  refine List.filter_eq_self.2 fun c hc => ?_
  have hDigit := isDigit_of_mem_numeral hc
  have hStar : c ≠ '*' := by rintro rfl; cases hDigit
  have hTilde : c ≠ '~' := by rintro rfl; cases hDigit
  simp [hStar, hTilde]

variable (pool : Pool) (kept : Bool) (face : Nat)

/-- What a character in the text of a die is there for. -/
theorem mem_markdown_die {c : Char} (h : c ∈ markdown.die pool kept face) :
    c.isDigit = true ∨ c = '*' ∧ (face = 1 ∨ face = pool.sides) ∨ c = '~' ∧ kept = false := by
  have hDigit : c ∈ numeral face → c.isDigit = true := isDigit_of_mem_numeral
  simp only [markdown] at h
  grind [mem_between]

/-- What a die has besides its marks is its face. -/
theorem withoutMarks_markdown_die : withoutMarks (markdown.die pool kept face) = numeral face := by
  simp only [markdown]
  split_ifs
  · rw [withoutMarks_between rfl, withoutMarks_numeral]
  · rw [withoutMarks_numeral]
  · rw [withoutMarks_between rfl, withoutMarks_between rfl, withoutMarks_numeral]
  · rw [withoutMarks_between rfl, withoutMarks_numeral]

/-- Only dice that do not count are struck through. -/
theorem isStruck_markdown_die_iff : IsStruck (markdown.die pool kept face) ↔ kept = false := by
  constructor
  · rintro ⟨inner, hText⟩
    have hTilde : '~' ∈ markdown.die pool kept face := by simp [hText, mem_between]
    simpa using mem_markdown_die pool kept face hTilde
  · rintro rfl
    exact ⟨_, rfl⟩

/-- Only the lowest and the highest face are bold. -/
theorem isBold_markdown_die_iff :
    IsBold (markdown.die pool kept face) ↔ face = 1 ∨ face = pool.sides := by
  constructor
  · intro hBold
    have hStar : '*' ∈ markdown.die pool kept face := by
      rcases hBold with ⟨inner, hText | hText⟩ <;> simp [hText, mem_between]
    simpa using mem_markdown_die pool kept face hStar
  · intro hEnd
    refine ⟨numeral face, ?_⟩
    cases kept <;> simp [markdown, hEnd]

/-- The text of a die tells its face and whether it counts. -/
theorem markdown_die_inj {kept' : Bool} {face' : Nat}
    (h : markdown.die pool kept face = markdown.die pool kept' face') :
    face = face' ∧ kept = kept' := by
  have hFace : numeral face = numeral face' := by
    rw [← withoutMarks_markdown_die pool kept, h, withoutMarks_markdown_die]
  have hKept : kept = false ↔ kept' = false := by
    rw [← isStruck_markdown_die_iff pool kept face, h, isStruck_markdown_die_iff]
  exact ⟨numeral_injective hFace, by simpa using hKept⟩

theorem markdown_die_ne_nil : markdown.die pool kept face ≠ [] := by
  intro hNil
  have hText := withoutMarks_markdown_die pool kept face
  rw [hNil] at hText
  exact numeral_ne_nil face hText.symm

/-- No die brings in a comma, so the commas of a group stand between dice. -/
theorem comma_not_mem_markdown_die : ',' ∉ markdown.die pool kept face := by
  intro hComma
  simpa using mem_markdown_die pool kept face hComma

variable (g h : Group)

/-- Without marks a group is set as in plain style. -/
theorem withoutMarks_markdown_group :
    withoutMarks (markdown.group pool g) = plain.group pool g := by
  have hTexts : (markdown.diceTexts pool g).map withoutMarks = plain.diceTexts pool g := by
    rw [diceTexts, List.map_map]
    exact List.map_congr_left fun die _ => withoutMarks_markdown_die pool die.2 die.1
  have hJoint : withoutMarks [',', ' '] = [',', ' '] := by decide
  rw [group_eq, group_eq, ← hTexts, ← withoutMarks_intercalate hJoint, withoutMarks_append]
  rfl

/-- Groups with the same text have dice with the same texts. -/
theorem diceTexts_eq_of_group_eq {s : Style} {pool pool' : Pool}
    (hTexts : ∀ pool kept face, s.die pool kept face ≠ [] ∧ ',' ∉ s.die pool kept face)
    (hGroup : s.group pool g = s.group pool' h) : s.diceTexts pool g = s.diceTexts pool' h := by
  rw [group_eq, group_eq] at hGroup
  have hJoined := List.append_cancel_right (List.cons.inj hGroup).2
  exact eq_of_intercalate_comma_eq (List.forall_mem_map.2 fun _ _ => hTexts _ _ _)
    (List.forall_mem_map.2 fun _ _ => hTexts _ _ _) hJoined

/-- The Markdown of a group tells its dice with their marks and nothing else. -/
theorem markdown_group_eq_iff :
    markdown.group pool g = markdown.group pool h ↔ g.marked = h.marked := by
  constructor
  · intro hGroup
    have hTexts : ∀ pool kept face,
        markdown.die pool kept face ≠ [] ∧ ',' ∉ markdown.die pool kept face := fun _ _ _ =>
      ⟨markdown_die_ne_nil _ _ _, comma_not_mem_markdown_die _ _ _⟩
    have hDice := diceTexts_eq_of_group_eq g h hTexts hGroup
    refine List.map_injective_iff.2 (fun die die' hDie => ?_) hDice
    obtain ⟨hFace, hKept⟩ := markdown_die_inj pool die.2 die.1 hDie
    exact Prod.ext hFace hKept
  · intro hMarked
    rw [group_eq, group_eq, diceTexts, diceTexts, hMarked]

/-- The plain text of a group tells its tally and nothing else, not even the pool. -/
theorem plain_group_eq_iff (pool' : Pool) :
    plain.group pool g = plain.group pool' h ↔ g.tally = h.tally := by
  constructor
  · intro hGroup
    have hTexts : ∀ pool kept face,
        plain.die pool kept face ≠ [] ∧ ',' ∉ plain.die pool kept face := fun _ _ face =>
      ⟨numeral_ne_nil face, fun hComma => by cases isDigit_of_mem_numeral hComma⟩
    have hDice := diceTexts_eq_of_group_eq g h hTexts hGroup
    rw [diceTexts_plain, diceTexts_plain] at hDice
    exact List.map_injective_iff.2 (fun _ _ => numeral_injective) hDice
  · intro hTally
    rw [plain_group_eq, plain_group_eq, hTally]

/-- In Markdown the text of a group tells the tally and which of its dice count, and it tells no
more than that. Without the characters of its marks it is the plain text, which tells the tally,
whatever the pools are. The dice stand between commas in the order of the tally; a die is bold
exactly if its face is the lowest or the highest, and struck through exactly if it does not
count. -/
theorem markdown_group_tells_dice (pool : Pool) (g h : Group) :
    (markdown.group pool g = markdown.group pool h ↔
      g.tally = h.tally ∧ ∀ place < g.tally.length, g.isKept place = h.isKept place) ∧
    withoutMarks (markdown.group pool g) = plain.group pool g ∧
    (∀ pool', plain.group pool g = plain.group pool' h ↔ g.tally = h.tally) ∧
    ∃ texts, markdown.group pool g = '[' :: [',', ' '].intercalate texts ++ [']'] ∧
      List.Forall₂ (fun text die => ',' ∉ text ∧ withoutMarks text = numeral die.1 ∧
        (IsBold text ↔ die.1 = 1 ∨ die.1 = pool.sides) ∧
        (IsStruck text ↔ g.isKept die.2 = false)) texts g.tally.zipIdx := by
  refine ⟨?_, withoutMarks_markdown_group pool g, plain_group_eq_iff pool g h, ?_⟩
  · rw [markdown_group_eq_iff, Group.marked_eq_marked_iff]
  · refine ⟨markdown.diceTexts pool g, group_eq _ _ _, ?_⟩
    rw [diceTexts, Group.marked, List.map_map, List.forall₂_map_left_iff]
    refine List.forall₂_same.2 fun die _ => ?_
    exact ⟨comma_not_mem_markdown_die pool _ _, withoutMarks_markdown_die pool _ _,
      isBold_markdown_die_iff pool _ _, isStruck_markdown_die_iff pool _ _⟩

example :
    let pool : Pool := ⟨{ sides := 6, count := 4, drop := 1 }, by decide, by decide, by decide⟩
    markdown.group pool (pool.score [3, 1, 6, 4]) = "[3, ~~**1**~~, **6**, 4]".toList := by
  cbv

end Style
end DiceTray
