import DiceTray.Proofs.Script.Joining
import DiceTray.Proofs.Section.LetterCase

/-! The layout of a script. Blanks outside the labels do not matter, a label may stand anywhere in
its section, and the case of letters outside the labels shows in plain text only. -/
namespace DiceTray
open Text

/-- The text with the change made outside the first aside of every field. -/
def outsideLabels (change : List Char → List Char) (cs : List Char) : List Char :=
  [','].intercalate ((fields ',' cs).map (outsideAside change))

/-- A change that makes no comma and works outside labels works on each field by itself. -/
theorem fields_outsideLabels {change : List Char → List Char}
    (hChange : ∀ cs, ',' ∉ cs → ',' ∉ change cs) (cs : List Char) :
    fields ',' (outsideLabels change cs) = (fields ',' cs).map (outsideAside change) := by
  have hFields : ∀ field ∈ fields ',' cs, ',' ∉ outsideAside change field := fun field hField =>
    not_mem_outsideAside hChange (not_mem_of_mem_fields hField)
  rw [outsideLabels]
  cases hSplit : fields ',' cs with
  | nil => exact absurd hSplit (fields_ne_nil ',' cs)
  | cons first rest =>
      rw [hSplit, List.forall_mem_cons] at hFields
      exact fields_intercalate hFields.1 (List.forall_mem_map.2 hFields.2)

/-- Blanks can be taken out before or after a text is cut up. -/
theorem fields_strip {separator : Char} (h : isBlank separator = false) (cs : List Char) :
    fields separator (strip cs) = (fields separator cs).map strip := by
  induction cs with
  | nil => rfl
  | cons c rest ih =>
      cases hBlank : isBlank c with
      | true =>
          have hc : c ≠ separator := by
            rintro rfl
            rw [h] at hBlank
            cases hBlank
          have hDrop : ∀ cs, strip (c :: cs) = strip cs := fun cs => by simp [strip, hBlank]
          rw [hDrop, ih, fields, if_neg hc]
          cases hFields : fields separator rest with
          | nil => exact absurd hFields (fields_ne_nil separator rest)
          | cons first more => simp [hDrop]
      | false =>
          have hKeep : ∀ cs, strip (c :: cs) = c :: strip cs := fun cs => by simp [strip, hBlank]
          rw [hKeep, fields, fields, ih]
          split
          · rfl
          · cases hFields : fields separator rest with
            | nil => exact absurd hFields (fields_ne_nil separator rest)
            | cons first more => simp [hKeep]

namespace Script

/-- The script with capitals made small in plain text. -/
def folded (s : Script) : Script := ⟨s.sections.map Section.folded⟩

/-- What a change outside its aside makes of every section, it makes of a script outside its labels.
Only a lone section can be left out, and it is bare before and after. -/
theorem ofChars_outsideLabels {change : List Char → List Char} {view : Section → Section}
    (hChange : ∀ cs, ',' ∉ cs → ',' ∉ change cs)
    (hRead : ∀ cs, Section.read (outsideAside change cs) = view (Section.read cs))
    (hBare : ∀ s, (view s).isBare = s.isBare) (cs : List Char) :
    ofChars (outsideLabels change cs) = ⟨(ofChars cs).sections.map view⟩ := by
  have hSections : (fields ',' (outsideLabels change cs)).map Section.read =
      ((fields ',' cs).map Section.read).map view := by
    rw [fields_outsideLabels hChange, List.map_map, List.map_map]
    exact List.map_congr_left fun field _ => hRead field
  rw [ofChars, ofChars, hSections]
  rcases (fields ',' cs).map Section.read with _ | ⟨only, _ | ⟨second, rest⟩⟩
  · rfl
  · simp only [List.map_cons, List.map_nil, hBare]
    split <;> rfl
  · rfl

/-- Blanks outside of labels make no difference. -/
theorem ofChars_outsideLabels_strip (cs : List Char) :
    ofChars (outsideLabels strip cs) = ofChars cs := by
  have hChange : ∀ cs, ',' ∉ cs → ',' ∉ strip cs := fun cs hComma hMem =>
    hComma ((strip_sublist cs).subset hMem)
  have hRead : ∀ cs, Section.read (outsideAside strip cs) = id (Section.read cs) :=
    Section.read_outsideAside_strip
  rw [ofChars_outsideLabels hChange hRead fun _ => rfl, List.map_id]

/-- Without a parenthesis there is no label, so no blank matters. -/
theorem ofChars_strip {cs : List Char} (h : '(' ∉ cs) : ofChars (strip cs) = ofChars cs := by
  have hFields : (fields ',' (strip cs)).map Section.read = (fields ',' cs).map Section.read := by
    rw [fields_strip (by decide), List.map_map]
    refine List.map_congr_left fun field hField => ?_
    have hOpen : HasNoAside field :=
      hasNoAside_of_not_mem fun hMem => h (mem_of_mem_fields hField hMem).1
    have hRead := Section.read_outsideAside_strip field
    rwa [outsideAside_of_hasNoAside strip hOpen] at hRead
  rw [ofChars, ofChars, hFields]

/-- Small letters for capitals outside of labels only fold the plain texts. -/
theorem ofChars_outsideLabels_toLower (cs : List Char) :
    ofChars (outsideLabels (List.map Char.toLower) cs) = (ofChars cs).folded := by
  refine ofChars_outsideLabels ?_ Section.read_outsideAside_toLower ?_ cs
  · exact fun cs => mt (mem_map_toLower_iff (by decide)).1
  · intro s
    rw [Section.isBare, Section.isBare, Section.folded, List.isEmpty_map]

/-- Layout does not matter. Texts that are the same but for blanks outside their labels are the same
script. Wherever a label stands in a section, even inside a number or a roll term, the items are
those of the text around it, and the section is labelled by what is inside without the blanks at its
ends. Texts that are the same but for the case of letters outside their labels are the same script
but for the case of letters in plain text. -/
theorem read_layout :
    (∀ a b : String, outsideLabels strip a.toList = outsideLabels strip b.toList →
      read a = read b) ∧
    (∀ before inside after : List Char, '(' ∉ before ++ after → ',' ∉ before ++ after →
      ')' ∉ inside → ',' ∉ inside →
        let cs := before ++ '(' :: (inside ++ ')' :: after)
        (Section.read cs).items = (Section.read (before ++ after)).items ∧
          (Section.read cs).label? =
            (if trim inside = [] then none else some (String.ofList (trim inside))) ∧
          (ofChars cs).sections = if (Section.read cs).isBare then [] else [Section.read cs]) ∧
    ∀ a b : String, outsideLabels (List.map Char.toLower) a.toList =
        outsideLabels (List.map Char.toLower) b.toList →
      (read a).folded = (read b).folded := by
  refine ⟨?_, ?_, ?_⟩
  · intro a b h
    rw [read, read, ← ofChars_outsideLabels_strip, h, ofChars_outsideLabels_strip]
  · intro before inside after hOpen hComma hInside hInsideComma cs
    have hBefore : '(' ∉ before := fun h => hOpen (List.mem_append_left _ h)
    have hRead : Section.read cs =
        { label? := labelOf inside, items := Section.readItems (before ++ after) } :=
      Section.read_aside after hBefore hInside
    have hAround : Section.read (before ++ after) =
        { items := Section.readItems (before ++ after) } :=
      Section.read_of_hasNoAside (hasNoAside_of_not_mem hOpen)
    have hNoComma : ',' ∉ cs := by
      simp_all [cs]
    refine ⟨by rw [hRead, hAround], ?_, sections_ofChars_of_not_mem hNoComma⟩
    rw [hRead]
    change labelOf inside = _
    rw [labelOf]
    cases trim inside <;> rfl
  · intro a b h
    rw [read, read, ← ofChars_outsideLabels_toLower, h, ofChars_outsideLabels_toLower]

/-- Blanks between the characters of a roll term, a label inside another, and capitals. -/
theorem read_layout_of_three_pairs :
    (outsideLabels strip "( To Hit )2 d 6 ,\t+ 1".toList =
        outsideLabels strip "( To Hit ) 2d6, +1 ".toList ∧
      read "( To Hit )2 d 6 ,\t+ 1" = read "( To Hit ) 2d6, +1 ") ∧
    (('(' ∉ "2d6".toList ∧ ',' ∉ "2d6".toList ∧ ')' ∉ " a (b ".toList ∧ ',' ∉ " a (b ".toList) ∧
      (Section.read "2d( a (b )6".toList).items = (Section.read "2d6".toList).items) ∧
    (outsideLabels (List.map Char.toLower) "(Hit) 2D6K1, Foo-BAR".toList =
        outsideLabels (List.map Char.toLower) "(Hit) 2d6k1, fOO-bar".toList ∧
      (read "(Hit) 2D6K1, Foo-BAR").folded = (read "(Hit) 2d6k1, fOO-bar").folded) := by
  have hBlanks : outsideLabels strip "( To Hit )2 d 6 ,\t+ 1".toList =
      outsideLabels strip "( To Hit ) 2d6, +1 ".toList := by decide +kernel
  have hAround : '(' ∉ "2d6".toList ∧ ',' ∉ "2d6".toList := by decide
  have hInside : ')' ∉ " a (b ".toList ∧ ',' ∉ " a (b ".toList := by decide
  have hCase : outsideLabels (List.map Char.toLower) "(Hit) 2D6K1, Foo-BAR".toList =
      outsideLabels (List.map Char.toLower) "(Hit) 2d6k1, fOO-bar".toList := by decide +kernel
  have hLabel := read_layout.2.1 "2d".toList " a (b ".toList "6".toList hAround.1 hAround.2
    hInside.1 hInside.2
  exact ⟨⟨hBlanks, read_layout.1 _ _ hBlanks⟩,
    ⟨⟨hAround.1, hAround.2, hInside.1, hInside.2⟩, hLabel.1⟩, hCase, read_layout.2.2 _ _ hCase⟩

end Script
end DiceTray
