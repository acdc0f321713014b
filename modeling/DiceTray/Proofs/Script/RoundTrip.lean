import DiceTray.Proofs.Section.RoundTrip
import DiceTray.Script

/-! Writing a script and reading it again. Sections may come from several texts; as long as each of
them was read from some text, the script they make up is read back, but for idle settings. A lone
section with nothing in it is written like a script without sections. -/
namespace DiceTray
open Text

/-- Some text has this section. -/
def Section.IsRead (s : Section) : Prop := ∃ text, s ∈ (Script.read text).sections

namespace Script

def tidy (s : Script) : Script := ⟨s.sections.map Section.tidy⟩

theorem chars_tidy (s : Script) : s.tidy.chars = s.chars := by
  rw [chars, chars, tidy, List.map_map]
  exact congrArg _ (List.map_congr_left fun s _ => s.chars_tidy)

theorem text_tidy (s : Script) : s.tidy.text = s.text := by
  rw [text, text, s.chars_tidy]

/-- The sections of a text are those of its fields, unless there is just one and it is bare. -/
theorem sections_ofChars_subset (cs : List Char) :
    (ofChars cs).sections ⊆ (fields ',' cs).map Section.read := by
  rw [ofChars]
  split
  · rename_i only h
    rw [h]
    split <;> simp
  · simp

/-- No text is read as a lone bare section. -/
theorem sections_ofChars_ne (cs : List Char) : (ofChars cs).sections ≠ [⟨none, []⟩] := by
  rw [ofChars]
  split
  · split
    · simp
    · rename_i only _ hBare
      intro hEq
      rw [List.singleton_inj.1 hEq] at hBare
      exact hBare rfl
  · rename_i hMany
    exact fun hEq => hMany _ hEq

/-- Whatever is read is well-formed. -/
theorem wellFormed_of_mem_sections {cs : List Char} {s : Section} (h : s ∈ (ofChars cs).sections) :
    s.WellFormed := by
  obtain ⟨field, hField, rfl⟩ := List.mem_map.1 (sections_ofChars_subset cs h)
  exact Section.wellFormed_read (not_mem_of_mem_fields hField)

/-- The fields of a written script are its sections. -/
theorem map_read_fields {first : Section} {rest : List Section} (hFirst : first.WellFormed)
    (hRest : ∀ s ∈ rest, s.WellFormed) :
    (fields ',' (chars ⟨first :: rest⟩)).map Section.read = (first :: rest).map Section.tidy := by
  have hCommas : ∀ cs ∈ rest.map Section.chars, ',' ∉ cs := by
    intro cs hcs
    obtain ⟨s, hs, rfl⟩ := List.mem_map.1 hcs
    exact (hRest s hs).not_mem_chars
  have hRead : ∀ s ∈ rest, Section.read (' ' :: s.chars) = s.tidy := by
    intro s hs
    rw [Section.read_blank s.chars (by decide), (hRest s hs).read_chars]
  rw [chars, List.map_cons, fields_intercalate_blank (by decide) hFirst.not_mem_chars hCommas,
    List.map_cons, List.map_cons, hFirst.read_chars, List.map_map, List.map_map]
  exact congrArg _ (List.map_congr_left hRead)

theorem ofChars_nil : ofChars [] = ⟨[]⟩ := by
  have hRead : Section.read [] = ⟨none, []⟩ := by
    rw [Section.read_of_hasNoAside (hasNoAside_of_not_mem List.not_mem_nil)]
    simp [Section.readItems, strip, signedOperands, itemsOf]
  simp [ofChars, fields, hRead, Section.isBare]

/-- Well-formed sections are read back from the script they make up, but for idle settings, unless
there is just one and it is bare. -/
theorem ofChars_chars {sections : List Section} (h : ∀ s ∈ sections, s.WellFormed)
    (hNe : sections ≠ [⟨none, []⟩]) : ofChars (chars ⟨sections⟩) = tidy ⟨sections⟩ := by
  cases sections with
  | nil => exact ofChars_nil
  | cons first rest =>
      have hFields := map_read_fields (h first List.mem_cons_self) fun s hs =>
        h s (List.mem_cons_of_mem _ hs)
      rw [ofChars, hFields]
      cases rest with
      | nil =>
          have hBare : first.tidy.isBare ≠ true := by
            rcases first with ⟨_ | label, _ | ⟨item, items⟩⟩
            all_goals simp_all [Section.tidy, Section.isBare]
          simp [hBare, tidy]
      | cons second rest => rfl

/-- What is read is read back from its own text, but for idle settings. -/
theorem read_text_read (line : String) : read (read line).text = (read line).tidy := by
  rw [read, text, String.toList_ofList]
  exact ofChars_chars (fun s hs => wellFormed_of_mem_sections hs) (sections_ofChars_ne line.toList)

/-- Sections that were read, from any texts and in any order, are read back from the script they
make up: as many of them, in the same order, and each like it was. -/
theorem alike_read_text (sections : List Section) (h : ∀ s ∈ sections, s.IsRead) :
    (sections = [⟨none, []⟩] → text ⟨sections⟩ = "" ∧ read (text ⟨sections⟩) = ⟨[]⟩) ∧
    (sections ≠ [⟨none, []⟩] →
      List.Forall₂ Section.Alike sections (read (text ⟨sections⟩)).sections) ∧
    (read (text ⟨sections⟩)).text = text ⟨sections⟩ ∧
    ∀ line : String, (read (read line).text).text = (read line).text := by
  have hWellFormed : ∀ s ∈ sections, s.WellFormed := by
    intro s hs
    obtain ⟨line, hLine⟩ := h s hs
    exact wellFormed_of_mem_sections hLine
  have hRead : sections ≠ [⟨none, []⟩] → read (text ⟨sections⟩) = tidy ⟨sections⟩ := by
    intro hNe
    rw [read, text, String.toList_ofList]
    exact ofChars_chars hWellFormed hNe
  have hBare : sections = [⟨none, []⟩] → text ⟨sections⟩ = "" ∧ read (text ⟨sections⟩) = ⟨[]⟩ := by
    rintro rfl
    exact ⟨rfl, ofChars_nil⟩
  refine ⟨hBare, ?_, ?_, ?_⟩
  · intro hNe
    rw [hRead hNe]
    exact forall₂_map_of_forall Section.alike_tidy sections
  · by_cases hNe : sections = [⟨none, []⟩]
    · obtain ⟨hText, hEmpty⟩ := hBare hNe
      rw [hEmpty, hText]
      rfl
    · rw [hRead hNe, text_tidy]
  · intro line
    rw [read_text_read, text_tidy]

/-- A section with idle settings and an open parenthesis, and two bare sections of another line. -/
theorem alike_read_text_of_two_lines :
    let sections := (read "(fire) 2D6ie0*1 -- 007 )(?").sections ++ (read ",").sections
    (∀ s ∈ sections, s.IsRead) ∧ text ⟨sections⟩ = "(fire) 2d6 - 7 + )(?, , " ∧
      List.Forall₂ Section.Alike sections (read (text ⟨sections⟩)).sections := by
  intro sections
  have hRead : ∀ s ∈ sections, s.IsRead := by
    intro s hs
    rcases List.mem_append.1 hs with hs | hs
    · exact ⟨_, hs⟩
    · exact ⟨_, hs⟩
  have hNe : sections ≠ [⟨none, []⟩] := by decide +kernel
  exact ⟨hRead, by decide +kernel, (alike_read_text sections hRead).2.1 hNe⟩

end Script
end DiceTray
