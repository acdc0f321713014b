import DiceTray.Proofs.Script.Dice

/-! Joining scripts. A script that has no sections still takes the place of one in a longer script,
that of a section with nothing in it. Main statement: a comma between two texts puts their scripts
one after the other, as they are written and as they are played. -/
namespace DiceTray
open Text

theorem Section.isBare_iff {s : Section} : s.isBare = true ↔ s.label? = none ∧ s.items = [] := by
  rw [isBare, Bool.and_eq_true, Option.isNone_iff_eq_none, List.isEmpty_iff]

theorem Section.eq_of_isBare {s : Section} (h : s.isBare = true) : s = {} := by
  obtain ⟨hLabel, hItems⟩ := isBare_iff.1 h
  rcases s with ⟨label?, items⟩
  rw [show label? = none from hLabel, show items = [] from hItems]

theorem two_le_length_fields {separator : Char} {cs : List Char} (h : separator ∈ cs) :
    2 ≤ (fields separator cs).length := by
  have hCount := List.count_pos_iff.2 h
  rw [length_fields]
  omega

namespace Script

variable {σ : Type}

/-- The sections of one script and then those of another. -/
instance : Append Script where
  append a b := ⟨a.sections ++ b.sections⟩

theorem sections_append (a b : Script) : (a ++ b).sections = a.sections ++ b.sections := rfl

/-- The script, with a section that has nothing in it if there is no other. -/
def padded (s : Script) : Script := if s.sections = [] then ⟨[{}]⟩ else s

/-- A padded script has one section for each field between commas. -/
theorem padded_ofChars (cs : List Char) :
    (ofChars cs).padded = ⟨(fields ',' cs).map Section.read⟩ := by
  rw [ofChars]
  split
  · rename_i only hOnly
    rw [hOnly]
    cases hBare : only.isBare with
    | true => rw [Section.eq_of_isBare hBare]; rfl
    | false => rfl
  · have hNe : (fields ',' cs).map Section.read ≠ [] :=
      mt List.map_eq_nil_iff.1 (fields_ne_nil ',' cs)
    rw [padded, if_neg hNe]

/-- A comma keeps all sections, bare or not. -/
theorem ofChars_of_mem {cs : List Char} (h : ',' ∈ cs) :
    ofChars cs = ⟨(fields ',' cs).map Section.read⟩ := by
  have hLength := two_le_length_fields h
  rw [ofChars]
  split
  · rename_i only hOnly
    have hOne := congrArg List.length hOnly
    rw [List.length_map, List.length_singleton] at hOne
    omega
  · rfl

/-- A comma between two texts puts their padded scripts one behind the other. -/
theorem ofChars_append (as bs : List Char) :
    ofChars (as ++ ',' :: bs) = (ofChars as).padded ++ (ofChars bs).padded := by
  rw [ofChars_of_mem (by simp), padded_ofChars, padded_ofChars, fields_append, List.map_append]
  rfl

/-- A text without a comma has its one section, unless that is bare. -/
theorem sections_ofChars_of_not_mem {cs : List Char} (h : ',' ∉ cs) :
    (ofChars cs).sections = if (Section.read cs).isBare then [] else [Section.read cs] := by
  rw [ofChars, fields_of_not_mem h, List.map_singleton]
  change (if (Section.read cs).isBare then (⟨[]⟩ : Script) else ⟨[Section.read cs]⟩).sections = _
  split <;> rfl

theorem sections_ofChars_eq_nil_iff {cs : List Char} :
    (ofChars cs).sections = [] ↔ ',' ∉ cs ∧ (Section.read cs).isBare = true := by
  by_cases hComma : ',' ∈ cs
  · simp [ofChars_of_mem hComma, hComma, fields_ne_nil]
  · rw [sections_ofChars_of_not_mem hComma]
    simp [hComma]

/-- A script that is not empty has one section more than there are commas. -/
theorem length_sections_ofChars {cs : List Char} (h : (ofChars cs).sections ≠ []) :
    (ofChars cs).sections.length = cs.count ',' + 1 := by
  have hPadded : (ofChars cs).padded = ofChars cs := if_neg h
  rw [← hPadded, padded_ofChars, List.length_map, length_fields]

/-- A bare section is written as nothing, so padding does not show. -/
theorem chars_padded (s : Script) : s.padded.chars = s.chars := by
  rw [padded]
  split
  · rename_i hNil
    rw [chars, chars, hNil]
    rfl
  · rfl

theorem chars_append {a b : Script} (ha : a.sections ≠ []) (hb : b.sections ≠ []) :
    (a ++ b).chars = a.chars ++ ',' :: ' ' :: b.chars := by
  rcases a with ⟨_ | ⟨first, as⟩⟩
  · exact absurd rfl ha
  · rcases b with ⟨_ | ⟨second, bs⟩⟩
    · exact absurd rfl hb
    · rw [chars, sections_append, chars, chars]
      simp [intercalate_cons]

theorem padded_ne_nil (s : Script) : s.padded.sections ≠ [] := by
  rw [padded]
  split
  · simp
  · assumption

/-- Evaluating one script and then another is evaluating both in a row. -/
theorem evaluate_append (t : Table σ) (a b : Script) :
    (a ++ b).evaluate t = do
      let (first, a) ← a.evaluate t
      let (second, b) ← b.evaluate t
      return (first ++ second, a ++ b) := by
  rw [evaluate, evaluate, evaluate, sections_append, List.mapM_append]
  simp only [bind_assoc, pure_bind, List.map_append]
  rfl

/-- What was shown before stays in front of what a script draws. -/
theorem evaluate_recording_run {t : Table σ} {s : Script} {state next : σ} {drawn : List Nat}
    {result : List Outcome × Script} (shown : List Nat)
    (h : (s.evaluate t.recording).run (state, []) = (result, next, drawn)) :
    (s.evaluate t.recording).run (state, shown) = (result, next, shown ++ drawn) := by
  rw [evaluate_eq, map_run_eq_iff] at h ⊢
  obtain ⟨rolled, hRecorded, hResult⟩ := h
  obtain ⟨hRoll, dice, hDice, rfl⟩ := roll_recording_run_eq_iff.1 hRecorded
  exact ⟨rolled, roll_recording_run_eq_iff.2 ⟨hRoll, dice, hDice, rfl⟩, hResult⟩

/-- A table that records shows the draws of the first script and then those of the second. -/
theorem evaluate_recording_run_append (t : Table σ) (a b : Script) (state : σ) :
    let first := (a.evaluate t.recording).run (state, [])
    let second := (b.evaluate t.recording).run (first.2.1, [])
    ((a ++ b).evaluate t.recording).run (state, []) =
      ((first.1.1 ++ second.1.1, first.1.2 ++ second.1.2), second.2.1,
        first.2.2 ++ second.2.2) := by
  obtain ⟨first, middle, drawn, hFirst⟩ : ∃ first middle drawn,
      (a.evaluate t.recording).run (state, []) = (first, middle, drawn) := ⟨_, _, _, rfl⟩
  obtain ⟨second, next, later, hSecond⟩ : ∃ second next later,
      (b.evaluate t.recording).run (middle, []) = (second, next, later) := ⟨_, _, _, rfl⟩
  have hAfter := evaluate_recording_run drawn hSecond
  simp only [hFirst, hSecond]
  rw [evaluate_append, bind_run_eq_iff]
  exact ⟨first, (middle, drawn), hFirst, bind_run_eq_iff.2 ⟨second, _, hAfter, rfl⟩⟩

/-- A comma joins two texts to a script whose sections are those of the first, bare ones among them,
and then those of the second. It is written as they are, and it is evaluated like the first and
then, from where the shaker is left, the second, with the same draws in the same order. A text has
no section if there is no comma in it and its only section has nothing in it, and else it has one
more than it has commas. -/
theorem read_append (a b : String) :
    (read (a ++ "," ++ b)).sections = (read a).padded.sections ++ (read b).padded.sections ∧
      (read (a ++ "," ++ b)).text = (read a).text ++ ", " ++ (read b).text ∧
      (∀ (σ : Type) (t : Table σ), (read (a ++ "," ++ b)).evaluate t = do
        let (first, left) ← (read a).padded.evaluate t
        let (second, right) ← (read b).padded.evaluate t
        return (first ++ second, ⟨left.sections ++ right.sections⟩)) ∧
      (∀ (σ : Type) (t : Table σ) (state : σ),
        let first := ((read a).padded.evaluate t.recording).run (state, [])
        let second := ((read b).padded.evaluate t.recording).run (first.2.1, [])
        ((read (a ++ "," ++ b)).evaluate t.recording).run (state, []) =
          ((first.1.1 ++ second.1.1, ⟨first.1.2.sections ++ second.1.2.sections⟩),
            second.2.1, first.2.2 ++ second.2.2)) ∧
      ∀ line : String,
        ((read line).sections = [] ↔ ',' ∉ line.toList ∧
          (Section.read line.toList).label? = none ∧ (Section.read line.toList).items = []) ∧
        ((read line).sections = [] ∨ (read line).sections.length = line.toList.count ',' + 1) := by
  have hJoined : read (a ++ "," ++ b) = (read a).padded ++ (read b).padded := by
    have hChars : (a ++ "," ++ b).toList = a.toList ++ ',' :: b.toList := by simp
    rw [read, hChars, ofChars_append, read, read]
  have hChars : (read (a ++ "," ++ b)).chars = (read a).chars ++ ',' :: ' ' :: (read b).chars := by
    rw [hJoined, chars_append (padded_ne_nil _) (padded_ne_nil _), chars_padded, chars_padded]
  refine ⟨congrArg sections hJoined, ?_, ?_, ?_, ?_⟩
  · apply String.toList_injective
    simp [text, hChars]
  · intro σ t
    rw [hJoined]
    exact evaluate_append t _ _
  · intro σ t state
    rw [hJoined]
    exact evaluate_recording_run_append t _ _ state
  · intro line
    refine ⟨by rw [← Section.isBare_iff]; exact sections_ofChars_eq_nil_iff, ?_⟩
    by_cases hNil : (read line).sections = []
    · exact .inl hNil
    · exact .inr (length_sections_ofChars hNil)

/-- Two texts that have no section alone have one each when they are joined. -/
example : (read "()").sections = [] ∧ (read "(),").sections = [{}, {}] := by decide +kernel

end Script
end DiceTray
