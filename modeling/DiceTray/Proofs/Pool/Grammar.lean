import DiceTray.Pool.Reading
import DiceTray.Proofs.Pool.Scanning

/-! Reading accepts the grammar of roll terms and nothing else. A paired term is scanned into its
own figures and sigils, and the reader takes these back one by one; conversely, whatever the reader
takes has the letters of some term. The two directions meet because every term can be paired. -/
namespace DiceTray
open Text

/-- Two steps succeed exactly if each does. -/
theorem Except.bind_eq_ok_iff {ε α β : Type} {x : Except ε α} {f : α → Except ε β} {b : β} :
    x >>= f = .ok b ↔ ∃ a, x = .ok a ∧ f a = .ok b := by
  cases x <;> simp [bind, Except.bind]

def Affix.suffix (a : Affix) : Suffix where
  modifier := match a.sigil with
    | .e | .bang => .explode
    | .ie | .bangs => .chain
    | .k => .keep
    | .d => .drop
    | .r => .reroll
    | .star => .multiply
    | .t => .target
  amount? := a.amount?.map Figure.value

def RollTerm.phrase (t : RollTerm) : Phrase where
  times? := t.times?.map Figure.value
  count? := t.count?.map Figure.value
  sides := t.faces.value
  suffixes := t.affixes.map Affix.suffix

theorem Affix.modifier?_mark (a : Affix) : a.sigil.mark.modifier? = some a.suffix.modifier := by
  cases h : a.sigil <;> simp [Affix.suffix, Sigil.mark, Mark.modifier?, h]

/-- Applying what an affix says is the change that it makes, where a bare one goes by the sides. -/
theorem Affix.apply_suffix (a : Affix) (sides : Nat) (d : Draft) :
    d.apply a.suffix.modifier (a.suffix.amount?.getD sides) = a.change sides d := by
  have hAmount : (a.amount?.map Figure.value).getD sides = a.amount?.elim sides Figure.value := by
    cases a.amount? <;> rfl
  cases h : a.sigil <;> simp [Affix.suffix, Affix.change, h, hAmount, Draft.apply]

/-- A term and the phrase that it is read as describe the same draft. -/
theorem RollTerm.draft_phrase (t : RollTerm) : t.phrase.draft = t.draft := by
  have hGroups : ∀ f? : Option (Figure 2),
      (f?.map Figure.value).getD 1 = f?.elim 1 Figure.value := by
    intro f?
    cases f? <;> rfl
  simp only [Phrase.draft, RollTerm.phrase, RollTerm.draft, RollTerm.times, RollTerm.count, hGroups,
    List.foldl_map, Affix.apply_suffix]

namespace Phrase

/-- A number token is read to its value if it is short enough. -/
theorem amount_eq_ok_iff {limit n : Nat} {t : Token} :
    amount limit t = .ok n ↔ t.text.length ≤ limit ∧ value t.text = n := by
  by_cases h : limit < t.text.length
  · simp [amount, h]
  · simp [amount, h, Nat.le_of_not_lt h]

theorem amount_figure {limit start : Nat} (f : Figure limit) :
    amount limit ⟨.number, f.digits, start⟩ = .ok f.value :=
  amount_eq_ok_iff.2 ⟨f.length_le, rfl⟩

/-- A modifier without a number behind it is bare. -/
theorem suffixesOf_bare {t : Token} {rest : List Token} {modifier : Modifier}
    (hModifier : t.mark.modifier? = some modifier)
    (hRest : ∀ next ∈ rest.head?, next.mark ≠ .number) :
    suffixesOf (t :: rest) = (suffixesOf rest).map (⟨modifier, none⟩ :: ·) := by
  cases rest with
  | nil => simp [suffixesOf, modifierOf, hModifier, Except.map]
  | cons next later =>
      have hNext : next.mark ≠ .number := hRest next (by simp)
      rw [suffixesOf, modifierOf, hModifier]
      simp only [if_neg hNext]
      cases suffixesOf (next :: later) <;> rfl

/-- A modifier takes the number behind it. -/
theorem suffixesOf_number {t next : Token} {rest : List Token} {modifier : Modifier}
    (hModifier : t.mark.modifier? = some modifier) (hNumber : next.mark = .number) :
    suffixesOf (t :: next :: rest) = amount amountDigits next >>= fun n =>
      (suffixesOf rest).map (⟨modifier, some n⟩ :: ·) := by
  rw [suffixesOf, modifierOf, hModifier]
  simp only [if_pos hNumber]
  cases amount amountDigits next with
  | error fault => rfl
  | ok n => cases suffixesOf rest <;> rfl

theorem suffixesOf_figure {t : Token} {start : Nat} {rest : List Token} {modifier : Modifier}
    (hModifier : t.mark.modifier? = some modifier) (f : Figure amountDigits) :
    suffixesOf (t :: ⟨.number, f.digits, start⟩ :: rest) =
      (suffixesOf rest).map (⟨modifier, some f.value⟩ :: ·) := by
  rw [suffixesOf_number hModifier rfl, amount_figure f]
  rfl

/-- Paired affixes are read back one by one. -/
theorem suffixesOf_scan (start : Nat) (affixes : List Affix)
    (h : affixes.IsChain Affix.MayPrecede) :
    suffixesOf (Token.scan start (affixes.flatMap Affix.chars)) =
      .ok (affixes.map Affix.suffix) := by
  induction affixes generalizing start with
  | nil => simp [suffixesOf]
  | cons a rest ih =>
      have hHead := Affix.isDigit_head?_flatMap rest
      rw [Token.scan_affixes start h]
      cases hAmount : a.amount? with
      | none =>
          rw [Option.elim_none, List.nil_append,
            suffixesOf_bare a.modifier?_mark (Token.mark_ne_number_of_head? hHead), ih _ h.tail]
          simp [Except.map, Affix.suffix, hAmount]
      | some f =>
          rw [Option.elim_some, Token.scan_figure _ f _ hHead,
            suffixesOf_figure a.modifier?_mark f, ih _ h.tail, List.map_cons]
          simp only [Except.map, Affix.suffix, hAmount, Option.map_some]
          rfl

/-- A figure is taken where there is one, and nothing is taken where there is none. -/
theorem amount?_scan {limit : Nat} (start : Nat) (f? : Option (Figure limit)) (rest : List Char)
    (h : ∀ c ∈ rest.head?, c.isDigit = false) :
    ∃ stop, amount? limit (Token.scan start (f?.elim [] Figure.digits ++ rest)) =
      .ok (f?.map Figure.value, Token.scan stop rest) := by
  cases f? with
  | none =>
      refine ⟨start, ?_⟩
      rw [Option.elim_none, List.nil_append]
      cases hTokens : Token.scan start rest with
      | nil => rfl
      | cons t later =>
          have hHead : ∀ t ∈ (Token.scan start rest).head?, t.mark ≠ .number :=
            Token.mark_ne_number_of_head? h
          rw [hTokens] at hHead
          have ht : t.mark ≠ .number := hHead t (by simp)
          simp [amount?, ht]
  | some f =>
      refine ⟨start + byteLength f.digits, ?_⟩
      rw [Option.elim_some, Token.scan_figure _ f _ h]
      simp only [amount?, if_true, amount_figure f]
      rfl

/-- A number without a times mark behind it is the count. -/
theorem groups?_of_amount? {tokens rest : List Token} {n? : Option Nat}
    (hAmount : amount? groupDigits tokens = .ok (n?, rest))
    (hRest : ∀ t ∈ rest.head?, t.mark ≠ .times) :
    groups? tokens = .ok ((none, n?), rest) := by
  rw [groups?, hAmount]
  cases n? with
  | none => rfl
  | some n =>
      cases rest with
      | nil => rfl
      | cons t later =>
          have ht : t.mark ≠ .times := hRest t (by simp)
          simp only [bind, Except.bind, if_neg ht]
          rfl

/-- A number with a times mark behind it is the times, and the count comes after. -/
theorem groups?_of_times {tokens later : List Token} {t : Token} {n : Nat}
    (hTimes : amount? groupDigits tokens = .ok (some n, t :: later)) (hMark : t.mark = .times) :
    groups? tokens = amount? groupDigits later >>= fun second =>
      .ok ((some n, second.1), second.2) := by
  rw [groups?, hTimes]
  simp only [bind, Except.bind, if_pos hMark]
  cases amount? groupDigits later <;> rfl

/-- Times and count are taken back where they are written. -/
theorem groups?_scan (start : Nat) (times? count? : Option (Figure 2)) (rest : List Char) :
    ∃ stop, groups? (Token.scan start (times?.elim [] (fun f => f.digits ++ ['x']) ++
        (count?.elim [] Figure.digits ++ 'd' :: rest))) =
      .ok ((times?.map Figure.value, count?.map Figure.value), Token.scan stop ('d' :: rest)) := by
  have hDice : ∀ c ∈ ('d' :: rest).head?, c.isDigit = false := by simp
  cases times? with
  | none =>
      obtain ⟨stop, hCount⟩ := amount?_scan start count? ('d' :: rest) hDice
      refine ⟨stop, groups?_of_amount? hCount ?_⟩
      simp [Token.scan_dice]
  | some f =>
      have hTimes : ∀ c ∈ ('x' :: (count?.elim [] Figure.digits ++ 'd' :: rest)).head?,
          c.isDigit = false := by simp
      obtain ⟨middle, hFirst⟩ := amount?_scan start (some f) _ hTimes
      obtain ⟨stop, hCount⟩ := amount?_scan (middle + byteLength ['x']) count? ('d' :: rest) hDice
      rw [Token.scan_times, Option.map_some] at hFirst
      refine ⟨stop, ?_⟩
      rw [Option.elim_some, List.append_assoc, List.singleton_append, Option.map_some]
      exact (groups?_of_times hFirst rfl).trans (congrArg (· >>= _) hCount)

theorem sidesOf_scan (start : Nat) (faces : Faces) (rest : List Char)
    (h : ∀ c ∈ rest.head?, c.isDigit = false) :
    ∃ stop, sidesOf (Token.scan start (faces.chars ++ rest)) =
      .ok (faces.value, Token.scan stop rest) := by
  cases faces with
  | percent =>
      refine ⟨start + byteLength ['%'], ?_⟩
      rw [Faces.chars, List.singleton_append, Token.scan_percent, sidesOf, if_pos rfl]
      rfl
  | figure f =>
      refine ⟨start + byteLength f.digits, ?_⟩
      have hAmount : amount sidesDigits ⟨.number, f.digits, start⟩ = .ok f.value := amount_figure f
      rw [Faces.chars, Token.scan_figure _ f _ h, sidesOf, if_neg (by simp), if_pos rfl, hAmount]
      rfl

/-- A paired term is read as its phrase. -/
theorem ofTokens_scan (start : Nat) (t : RollTerm) (h : t.IsPaired) :
    ofTokens (Token.scan start t.chars) = .ok t.phrase := by
  have hAffixes := Affix.isDigit_head?_flatMap t.affixes
  obtain ⟨middle, hGroups⟩ := groups?_scan start t.times? t.count?
    (t.faces.chars ++ t.affixes.flatMap Affix.chars)
  obtain ⟨stop, hSides⟩ := sidesOf_scan (middle + byteLength ['d']) t.faces _ hAffixes
  have hSuffixes := suffixesOf_scan stop t.affixes h
  rw [RollTerm.chars, List.append_assoc, List.append_assoc, List.cons_append, ofTokens, hGroups]
  simp only [bind, Except.bind, Token.scan_dice, afterDice, if_true, hSides, hSuffixes]
  rfl

/-- Every token is written as its mark demands. -/
def WrittenTokens (tokens : List Token) : Prop := ∀ t ∈ tokens, t.mark.Writes t.text

/-- A number that was read is a figure of no more digits than the limit. -/
theorem exists_figure {limit n : Nat} {t : Token} (hWrites : t.mark.Writes t.text)
    (hMark : t.mark = .number) (h : amount limit t = .ok n) :
    ∃ f : Figure limit, f.digits = t.text ∧ f.value = n := by
  rw [hMark] at hWrites
  obtain ⟨hLength, hValue⟩ := amount_eq_ok_iff.1 h
  exact ⟨⟨t.text, hWrites.1, hWrites.2, hLength⟩, rfl, hValue⟩

theorem exists_sigil {t : Token} {modifier : Modifier} (hWrites : t.mark.Writes t.text)
    (h : modifierOf t = .ok modifier) : ∃ s : Sigil, s.chars = t.text := by
  rw [modifierOf] at h
  cases hMark : t.mark with
  | number | times | percent | stray => simp [hMark, Mark.modifier?] at h
  | dice | explode | chain | keep | reroll | multiply | target =>
      rw [hMark] at hWrites
      obtain ⟨s, _, hChars⟩ := hWrites
      exact ⟨s, hChars⟩

/-- Tokens that were read as suffixes are the text of some affixes. -/
theorem exists_affixes {tokens : List Token} {suffixes : List Suffix}
    (hWrites : WrittenTokens tokens) (h : suffixesOf tokens = .ok suffixes) :
    ∃ affixes : List Affix, affixes.flatMap Affix.chars = tokens.flatMap Token.text := by
  fun_induction suffixesOf tokens generalizing suffixes with
  | case1 => exact ⟨[], rfl⟩
  | case2 t =>
      obtain ⟨modifier, hModifier, _⟩ := Except.bind_eq_ok_iff.1 h
      obtain ⟨s, hs⟩ := exists_sigil (hWrites t (by simp)) hModifier
      exact ⟨[⟨s, none⟩], by simp [Affix.chars, hs]⟩
  | case3 t next rest ihAmount ihBare =>
      obtain ⟨modifier, hModifier, h⟩ := Except.bind_eq_ok_iff.1 h
      obtain ⟨s, hs⟩ := exists_sigil (hWrites t (by simp)) hModifier
      split at h
      · rename_i hNumber
        obtain ⟨n, hAmount, h⟩ := Except.bind_eq_ok_iff.1 h
        obtain ⟨later, hLater, _⟩ := Except.bind_eq_ok_iff.1 h
        change amount 3 next = _ at hAmount
        obtain ⟨f, hf, _⟩ := exists_figure (hWrites next (by simp)) hNumber hAmount
        obtain ⟨affixes, hAffixes⟩ := ihAmount (fun u hu => hWrites u (by simp [hu])) hLater
        refine ⟨⟨s, some f⟩ :: affixes, ?_⟩
        simp [Affix.chars, hs, hf, hAffixes]
      · obtain ⟨later, hLater, _⟩ := Except.bind_eq_ok_iff.1 h
        obtain ⟨affixes, hAffixes⟩ :=
          ihBare (fun u hu => hWrites u (List.mem_cons_of_mem _ hu)) hLater
        refine ⟨⟨s, none⟩ :: affixes, ?_⟩
        rw [List.flatMap_cons, hAffixes]
        simp [Affix.chars, hs]

/-- Whether or not a number was there to be read, a figure or none accounts for the text. -/
theorem exists_figure? {limit : Nat} {tokens rest : List Token} {n? : Option Nat}
    (hWrites : WrittenTokens tokens) (h : amount? limit tokens = .ok (n?, rest)) :
    ∃ f? : Option (Figure limit), f?.map Figure.value = n? ∧
      f?.elim [] Figure.digits ++ rest.flatMap Token.text = tokens.flatMap Token.text ∧
      WrittenTokens rest := by
  cases tokens with
  | nil =>
      cases h
      exact ⟨none, rfl, rfl, hWrites⟩
  | cons t later =>
      rw [amount?] at h
      split at h
      · rename_i hMark
        obtain ⟨n, hAmount, h⟩ := Except.bind_eq_ok_iff.1 h
        obtain ⟨f, hDigits, hValue⟩ := exists_figure (hWrites t (by simp)) hMark hAmount
        cases h
        refine ⟨some f, by simp [hValue], by simp [hDigits], fun u hu => hWrites u (by simp [hu])⟩
      · cases h
        exact ⟨none, rfl, rfl, hWrites⟩

/-- The number at the front is the times if a times mark follows, and else the count. -/
theorem exists_groups {tokens rest : List Token} {values : Option Nat × Option Nat}
    (hWrites : WrittenTokens tokens) (h : groups? tokens = .ok (values, rest)) :
    ∃ times? count? : Option (Figure 2),
      times?.elim [] (fun f => f.digits ++ ['x']) ++
        (count?.elim [] Figure.digits ++ rest.flatMap Token.text) = tokens.flatMap Token.text ∧
      WrittenTokens rest := by
  obtain ⟨⟨first?, middle⟩, hFirst, h⟩ := Except.bind_eq_ok_iff.1 h
  change amount? 2 tokens = _ at hFirst
  obtain ⟨f?, hValue, hChars, hMiddle⟩ := exists_figure? hWrites hFirst
  simp only at h
  split at h
  · rename_i first t later
    split at h
    · rename_i hMark
      obtain ⟨⟨second?, after⟩, hSecond, h⟩ := Except.bind_eq_ok_iff.1 h
      change amount? 2 later = _ at hSecond
      cases h
      obtain ⟨g?, _, hLater, hRest⟩ :=
        exists_figure? (fun u hu => hMiddle u (List.mem_cons_of_mem _ hu)) hSecond
      have hText : t.text = ['x'] := by
        have hTimes := hMiddle t (by simp)
        rwa [hMark] at hTimes
      obtain ⟨f, rfl, _⟩ := Option.map_eq_some_iff.1 hValue
      refine ⟨some f, g?, ?_, hRest⟩
      rw [← hChars, List.flatMap_cons, ← hLater, hText]
      simp
    · cases h
      exact ⟨none, f?, hChars, hMiddle⟩
  · cases h
    exact ⟨none, f?, hChars, hMiddle⟩

/-- Tokens that were read as sides begin with the text of some faces. -/
theorem exists_faces {tokens rest : List Token} {sides : Nat}
    (hWrites : WrittenTokens tokens) (h : sidesOf tokens = .ok (sides, rest)) :
    ∃ faces : Faces, faces.chars ++ rest.flatMap Token.text = tokens.flatMap Token.text ∧
      WrittenTokens rest := by
  cases tokens with
  | nil => cases h
  | cons t later =>
      have hLater : WrittenTokens later := fun u hu => hWrites u (List.mem_cons_of_mem _ hu)
      have ht := hWrites t (by simp)
      rw [sidesOf] at h
      split at h
      · rename_i hMark
        rw [hMark] at ht
        cases h
        refine ⟨.percent, ?_, hLater⟩
        rw [List.flatMap_cons, ht, Faces.chars]
      · split at h
        · rename_i hMark
          obtain ⟨n, hAmount, h⟩ := Except.bind_eq_ok_iff.1 h
          obtain ⟨f, hDigits, _⟩ := exists_figure ht hMark hAmount
          cases h
          refine ⟨.figure f, ?_, hLater⟩
          rw [List.flatMap_cons, ← hDigits]
          rfl
        · cases h

/-- Whatever is read has the letters of a term. -/
theorem exists_rollTerm {tokens : List Token} {p : Phrase}
    (hWrites : WrittenTokens tokens) (h : ofTokens tokens = .ok p) :
    ∃ t : RollTerm, t.chars = tokens.flatMap Token.text := by
  obtain ⟨⟨⟨times?, count?⟩, rest⟩, hGroups, h⟩ := Except.bind_eq_ok_iff.1 h
  obtain ⟨afterMark, hDice, h⟩ := Except.bind_eq_ok_iff.1 h
  obtain ⟨⟨sides, last⟩, hSides, h⟩ := Except.bind_eq_ok_iff.1 h
  obtain ⟨suffixes, hSuffixes, _⟩ := Except.bind_eq_ok_iff.1 h
  obtain ⟨timesFigure?, countFigure?, hTokens, hRest⟩ := exists_groups hWrites hGroups
  cases rest with
  | nil => cases hDice
  | cons t later =>
      rw [afterDice] at hDice
      split at hDice
      · rename_i hMark
        cases hDice
        have hText : t.text = ['d'] := by
          have ht := hRest t (by simp)
          rw [hMark] at ht
          obtain ⟨s, hSigil, hChars⟩ := ht
          cases s <;> simp_all [Sigil.mark, Sigil.chars]
        obtain ⟨faces, hFaces, hLast⟩ :=
          exists_faces (fun u hu => hRest u (List.mem_cons_of_mem _ hu)) hSides
        obtain ⟨affixes, hAffixes⟩ := exists_affixes hLast hSuffixes
        refine ⟨⟨timesFigure?, countFigure?, faces, affixes⟩, ?_⟩
        rw [← hTokens, List.flatMap_cons, hText, ← hFaces, ← hAffixes]
        simp [RollTerm.chars]
      · cases hDice

/-- Reading takes exactly the terms of the grammar, with exclamation marks paired from the left. A
term found for the text need not be paired, but a paired one has the same letters and is read. -/
theorem ofTokens_scan_eq_ok_iff {cs : List Char} {p : Phrase} :
    ofTokens (Token.scan 0 cs) = .ok p ↔
      ∃ t : RollTerm, t.chars = cs ∧ t.IsPaired ∧ t.phrase = p := by
  constructor
  · intro h
    obtain ⟨t, hChars⟩ := exists_rollTerm (fun _ => Token.writes_of_mem_scan) h
    rw [Token.flatMap_text_scan] at hChars
    obtain ⟨paired, hSame, hPaired, _⟩ := t.exists_isPaired
    refine ⟨paired, hSame.trans hChars, hPaired, ?_⟩
    have hRead := ofTokens_scan 0 paired hPaired
    rw [hSame, hChars, h] at hRead
    exact (Except.ok.inj hRead).symm
  · rintro ⟨t, rfl, hPaired, rfl⟩
    exact ofTokens_scan 0 t hPaired

end Phrase

namespace Pool

/-- A text is read as a pool exactly if it is a paired term that says its settings. -/
theorem ofChars_eq_ok_iff {cs : List Char} {p : Pool} :
    ofChars cs = .ok p ↔ ∃ t : RollTerm, t.chars = cs ∧ t.IsPaired ∧ t.draft = p.toDraft := by
  constructor
  · intro h
    obtain ⟨phrase, hPhrase, h⟩ := Except.bind_eq_ok_iff.1 h
    obtain ⟨t, hChars, hPaired, rfl⟩ := Phrase.ofTokens_scan_eq_ok_iff.1 hPhrase
    refine ⟨t, hChars, hPaired, ?_⟩
    rw [RollTerm.draft_phrase] at h
    cases hBuild : t.draft.build with
    | error flaw => rw [hBuild] at h; cases h
    | ok q =>
        rw [hBuild] at h
        cases h
        exact (Draft.toDraft_of_build hBuild).symm
  · rintro ⟨t, hChars, hPaired, hDraft⟩
    have hPhrase := Phrase.ofTokens_scan_eq_ok_iff.2 ⟨t, hChars, hPaired, rfl⟩
    rw [ofChars, hPhrase]
    simp only [bind, Except.bind, RollTerm.draft_phrase, hDraft, Draft.build_toDraft]
    rfl

/-- The letters of a paired term are read as its draft is built. -/
theorem ofChars_of_isPaired {t : RollTerm} (h : t.IsPaired) :
    ofChars t.chars = t.draft.build.mapError Fault.unsound := by
  rw [ofChars, Phrase.ofTokens_scan 0 t h, ← t.draft_phrase]
  rfl

theorem exists_draft_of_isSound {t : RollTerm} (h : t.IsSound) :
    ∃ p : Pool, t.draft = p.toDraft := by
  obtain ⟨hSides, hCount, hTimes⟩ := h
  rw [← RollTerm.sides_draft] at hSides
  rw [← RollTerm.count_draft] at hCount
  rw [← RollTerm.times_draft] at hTimes
  exact ⟨⟨t.draft, hSides, hCount, hTimes⟩, rfl⟩

end Pool
end DiceTray
