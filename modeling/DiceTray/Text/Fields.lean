/-!
Cutting a text at a separator. `fields` keeps every field, also an empty one, so the text has one
field more than separators (`length_fields`), and texts joined by a separator are cut on their own
(`fields_append`, `fields_intercalate`). `lines` ends a line at a line feed, with or without a
carriage return before it (`lines_line_feed`, `lines_line_return`).
-/
namespace DiceTray.Text

/-- The parts of the text between the separators, in order; a text without the separator is its
own only field. -/
def fields (separator : Char) : List Char → List (List Char)
  | [] => [[]]
  | c :: rest =>
    if c = separator then [] :: fields separator rest
    else (fields separator rest).modifyHead (c :: ·)

/-- The lines of a text. A line feed ends a line and takes one carriage return before it along;
text after the last line feed is a line as it stands, unless it is empty. -/
def lines (cs : List Char) : List (List Char) :=
  let parts := fields '\n' cs
  parts.dropLast.map dropReturn ++ (parts.getLast?.filter (· ≠ [])).toList
where
  /-- The line without the carriage return at its end, if it has one. -/
  dropReturn (line : List Char) : List Char :=
    if line.getLast? = some '\r' then line.dropLast else line

theorem fields_ne_nil (separator : Char) (cs : List Char) : fields separator cs ≠ [] := by
  induction cs with
  | nil => simp [fields]
  | cons c rest ih =>
    rw [fields]
    split
    · simp
    · cases h : fields separator rest with
      | nil => exact absurd h ih
      | cons => simp

/-- A text has one field more than it has separators. -/
theorem length_fields (separator : Char) (cs : List Char) :
    (fields separator cs).length = cs.count separator + 1 := by
  induction cs with
  | nil => rfl
  | cons c rest ih =>
    rw [fields]
    split
    · simp_all
    · simp_all

/-- A text without the separator is one field. -/
theorem fields_of_not_mem {separator : Char} {cs : List Char} (h : separator ∉ cs) :
    fields separator cs = [cs] := by
  induction cs with
  | nil => rfl
  | cons c rest ih =>
    rw [List.mem_cons, not_or] at h
    rw [fields, if_neg (fun hc => h.1 hc.symm), ih h.2]
    rfl

/-- A separator between two texts keeps their fields apart. -/
theorem fields_append (separator : Char) (as bs : List Char) :
    fields separator (as ++ separator :: bs) = fields separator as ++ fields separator bs := by
  induction as with
  | nil => simp [fields]
  | cons c rest ih =>
    simp only [List.cons_append, fields]
    split
    · rw [ih, List.cons_append]
    · rw [ih]
      cases h : fields separator rest with
      | nil => exact absurd h (fields_ne_nil separator rest)
      | cons => rfl

/-- The fields have the characters of the text, but for the separators. -/
theorem mem_of_mem_fields {separator c : Char} {cs field : List Char}
    (h : field ∈ fields separator cs) (hc : c ∈ field) : c ∈ cs ∧ c ≠ separator := by
  induction cs generalizing field with
  | nil =>
      rw [fields, List.mem_singleton] at h
      rw [h] at hc
      cases hc
  | cons d rest ih =>
      rw [fields] at h
      split at h
      · rcases List.mem_cons.1 h with rfl | h
        · cases hc
        · exact (ih h hc).imp_left (List.mem_cons_of_mem d)
      · rename_i hd
        cases hFields : fields separator rest with
        | nil => exact absurd hFields (fields_ne_nil separator rest)
        | cons first more =>
            rw [hFields] at h ih
            rcases List.mem_cons.1 h with rfl | h
            · rcases List.mem_cons.1 hc with rfl | hc
              · exact ⟨List.mem_cons_self, hd⟩
              · exact (ih List.mem_cons_self hc).imp_left (List.mem_cons_of_mem d)
            · exact (ih (List.mem_cons_of_mem _ h) hc).imp_left (List.mem_cons_of_mem d)

/-- No field has a separator in it. -/
theorem not_mem_of_mem_fields {separator : Char} {cs field : List Char}
    (h : field ∈ fields separator cs) : separator ∉ field :=
  fun hc => (mem_of_mem_fields h hc).2 rfl

/-- Joined texts are the first of them and then the others, each after a joint. -/
theorem intercalate_cons (joint first : List Char) (rest : List (List Char)) :
    joint.intercalate (first :: rest) = first ++ rest.flatMap (joint ++ ·) := by
  induction rest generalizing first with
  | nil => simp
  | cons second rest ih =>
      rw [List.intercalate_cons_cons, ih, List.flatMap_cons, List.append_assoc, List.append_assoc]

/-- Texts joined by the separator are cut apart again. -/
theorem fields_intercalate {separator : Char} {first : List Char} {rest : List (List Char)}
    (hFirst : separator ∉ first) (hRest : ∀ cs ∈ rest, separator ∉ cs) :
    fields separator ([separator].intercalate (first :: rest)) = first :: rest := by
  induction rest generalizing first with
  | nil => rw [List.intercalate_singleton, fields_of_not_mem hFirst]
  | cons second rest ih =>
      have hSecond := ih (hRest second List.mem_cons_self) fun cs hcs =>
        hRest cs (List.mem_cons_of_mem _ hcs)
      rw [List.intercalate_cons_cons, List.append_assoc, List.singleton_append, fields_append,
        fields_of_not_mem hFirst, hSecond]
      rfl

/-- Texts joined by the separator and a blank are cut apart again; the blanks stay with the texts
after them. -/
theorem fields_intercalate_blank {separator blank : Char} (hBlank : blank ≠ separator)
    {first : List Char} {rest : List (List Char)} (hFirst : separator ∉ first)
    (hRest : ∀ cs ∈ rest, separator ∉ cs) :
    fields separator ([separator, blank].intercalate (first :: rest)) =
      first :: rest.map (blank :: ·) := by
  have hJoined : [separator, blank].intercalate (first :: rest) =
      [separator].intercalate (first :: rest.map (blank :: ·)) := by
    rw [intercalate_cons, intercalate_cons, List.flatMap_map]
    rfl
  have hBlanks : ∀ cs ∈ rest.map (blank :: ·), separator ∉ cs := by
    intro cs hcs
    obtain ⟨text, hText, rfl⟩ := List.mem_map.1 hcs
    exact fun h => (List.mem_cons.1 h).elim (Ne.symm hBlank) (hRest text hText)
  rw [hJoined, fields_intercalate hFirst hBlanks]

/-- A line feed ends the lines before it; what comes after is cut into lines on its own. -/
theorem lines_append (as bs : List Char) :
    lines (as ++ '\n' :: bs) = (fields '\n' as).map lines.dropReturn ++ lines bs := by
  have hNe : fields '\n' bs ≠ [] := fields_ne_nil '\n' bs
  have hLast : (fields '\n' as ++ fields '\n' bs).getLast? = (fields '\n' bs).getLast? := by
    rw [List.getLast?_append, List.getLast?_eq_some_getLast hNe, Option.some_or]
  rw [lines, lines, fields_append, List.dropLast_append_of_ne_nil hNe, hLast, List.map_append,
    List.append_assoc]

/-- Text after a line feed is cut into lines on its own. -/
theorem lines_append_of_getLast? {as : List Char} (bs : List Char)
    (h : as = [] ∨ as.getLast? = some '\n') : lines (as ++ bs) = lines as ++ lines bs := by
  rcases h with rfl | h
  · rfl
  · obtain ⟨before, rfl⟩ := List.getLast?_eq_some_iff.1 h
    have hEnd : lines (before ++ ['\n']) = (fields '\n' before).map lines.dropReturn := by
      rw [lines_append]
      exact List.append_nil _
    rw [List.append_assoc, List.singleton_append, lines_append, hEnd]

/-- Text that no line feed ends is a line as it stands. -/
theorem lines_of_not_mem {cs : List Char} (h : '\n' ∉ cs) :
    lines cs = if cs = [] then [] else [cs] := by
  rw [lines, fields_of_not_mem h]
  by_cases hNil : cs = [] <;> simp [hNil]

/-- The first line of a text ends at its first line feed. -/
theorem lines_line {line : List Char} (rest : List Char) (h : '\n' ∉ line) :
    lines (line ++ '\n' :: rest) = lines.dropReturn line :: lines rest := by
  rw [lines_append, fields_of_not_mem h]
  rfl

theorem lines_line_feed {line : List Char} (rest : List Char) (h : '\n' ∉ line)
    (hReturn : line.getLast? ≠ some '\r') :
    lines (line ++ '\n' :: rest) = line :: lines rest := by
  rw [lines_line rest h, lines.dropReturn, if_neg hReturn]

/-- One carriage return before the line feed is not of the line. -/
theorem lines_line_return {line : List Char} (rest : List Char) (h : '\n' ∉ line) :
    lines (line ++ '\r' :: '\n' :: rest) = line :: lines rest := by
  have hLine : '\n' ∉ line ++ ['\r'] := by simp [h]
  have hEnd := lines_line rest hLine
  simpa [lines.dropReturn] using hEnd

end DiceTray.Text
