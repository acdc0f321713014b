import DiceTray.Proofs.Pool.Places
import DiceTray.Proofs.Section.Words

/-! Reading the plain spelling of a phrase whose numbers may be too long. Reading goes from one
place to the next, and gives either the phrase again or the verdict on its places. Main statement:
the canonical text of a pool is read back exactly if its numbers are short enough, and otherwise the
first that is not is at fault. -/
namespace DiceTray
open Text

namespace Phrase

/-- The token of a place is read to its number if the place passes. -/
theorem amount_token (x : Place) :
    amount x.limit x.token = Place.verdict [x] >>= fun _ => .ok x.number := by
  have hText : x.token.text = numeral x.number := rfl
  rw [amount, hText, value_numeral, Place.verdict, List.find?_singleton, Place.isOverlong]
  by_cases hLong : x.limit < (numeral x.number).length
  · rw [if_pos hLong, if_pos (decide_eq_true hLong)]
    rfl
  · rw [if_neg hLong, decide_eq_false hLong]
    rfl

/-- A numeral that may be left out is read back, unless it does not pass. -/
theorem amount?_scan_optional (before : List Char) (limit : Nat) (n? : Option Nat)
    {rest : List Char} (h : ∀ c ∈ rest.head?, c.isDigit = false) :
    amount? limit (Token.scan (byteLength before) (optionalNumeral n? ++ rest)) =
      Place.verdict (Place.optional before limit n?) >>= fun _ =>
        .ok (n?, Token.scan (byteLength (before ++ optionalNumeral n?)) rest) := by
  rw [Token.scan_optional before limit n? h]
  cases n? with
  | none =>
      rw [optionalNumeral, Option.elim_none, List.append_nil]
      change amount? limit (Token.scan (byteLength before) rest) =
        .ok (none, Token.scan (byteLength before) rest)
      have hHead : ∀ t ∈ (Token.scan (byteLength before) rest).head?, t.mark ≠ .number :=
        Token.mark_ne_number_of_head? h
      cases hTokens : Token.scan (byteLength before) rest with
      | nil => rfl
      | cons t later =>
          rw [hTokens] at hHead
          rw [amount?, if_neg (hHead t rfl)]
  | some n =>
      change amount? limit (Place.token { before, number := n, limit } :: _) = _
      rw [amount?, if_pos (Place.mark_token _), amount_token { before, number := n, limit },
        bind_assoc]
      rfl

/-- The sides are read back, unless their numeral does not pass. -/
theorem sidesOf_scan_numeral (before : List Char) (n : Nat) {rest : List Char}
    (h : ∀ c ∈ rest.head?, c.isDigit = false) :
    sidesOf (Token.scan (byteLength before) (numeral n ++ rest)) =
      Place.verdict [{ before, number := n, limit := sidesDigits }] >>= fun _ =>
        .ok (n, Token.scan (byteLength (before ++ numeral n)) rest) := by
  rw [Token.scan_numeral before sidesDigits n h, sidesOf, if_neg (by simp [Place.token]),
    if_pos (Place.mark_token _), amount_token { before, number := n, limit := sidesDigits },
    bind_assoc]
  rfl

/-- Suffixes are read one by one, up to the first number that is too long. -/
theorem suffixesOf_scan_chars (before : List Char) (suffixes : List Suffix) :
    suffixesOf (Token.scan (byteLength before) (suffixes.flatMap Suffix.chars)) =
      Place.verdict (Suffix.places before suffixes) >>= fun _ => .ok suffixes := by
  induction suffixes generalizing before with
  | nil => rw [List.flatMap_nil, Token.scan_nil]; rfl
  | cons s rest ih =>
      have hRest := Suffix.isDigit_head?_flatMap rest
      have hModifier := s.modifier.modifier?_mark_sigil
      rcases s with ⟨modifier, amount?⟩
      rw [List.flatMap_cons, Suffix.chars, List.append_assoc, Token.scan_modifier, Suffix.places,
        Place.verdict_append, bind_assoc, Suffix.chars, ← List.append_assoc]
      cases amount? with
      | none =>
          rw [optionalNumeral, Option.elim_none, List.nil_append, List.append_nil,
            suffixesOf_bare hModifier (Token.mark_ne_number_of_head? hRest), ih]
          cases Place.verdict (Suffix.places (before ++ modifier.chars) rest) <;> rfl
      | some n =>
          have hAmount :=
            amount_token { before := before ++ modifier.chars, number := n, limit := amountDigits }
          rw [optionalNumeral, Option.elim_some, Token.scan_numeral _ amountDigits _ hRest,
            suffixesOf_number hModifier rfl, hAmount, bind_assoc, ih]
          cases Place.verdict (Suffix.places (before ++ modifier.chars ++ numeral n) rest) <;> rfl

/-- Times and count are read in this order, and the count is not looked at if the times are too
long. -/
theorem groups?_scan_optional (p : Phrase) (rest : List Char) :
    groups? (Token.scan 0 (p.timesChars ++ (optionalNumeral p.count? ++ 'd' :: rest))) =
      Place.verdict p.groupPlaces >>= fun _ => .ok ((p.times?, p.count?),
        Token.scan (byteLength (p.timesChars ++ optionalNumeral p.count?)) ('d' :: rest)) := by
  have hDice : ∀ c ∈ ('d' :: rest).head?, c.isDigit = false := by simp
  have hCount := amount?_scan_optional p.timesChars groupDigits p.count? hDice
  rw [groupPlaces, Place.verdict_append, bind_assoc]
  cases hTimes : p.times? with
  | none =>
      rw [timesChars_of_none hTimes] at hCount ⊢
      change groups? (Token.scan (byteLength []) (optionalNumeral p.count? ++ 'd' :: rest)) =
        Place.verdict (Place.optional [] groupDigits p.count?) >>= fun _ => _
      cases hVerdict : Place.verdict (Place.optional [] groupDigits p.count?) with
      | error fault =>
          rw [hVerdict] at hCount
          exact congrArg (· >>= _) hCount
      | ok _ =>
          rw [hVerdict] at hCount
          refine groups?_of_amount? hCount ?_
          simp [Token.scan_dice]
  | some n =>
      have hTimesMark : ∀ c ∈ ('x' :: (optionalNumeral p.count? ++ 'd' :: rest)).head?,
          c.isDigit = false := by simp
      have hFirst := amount?_scan_optional [] groupDigits (some n) hTimesMark
      rw [timesChars_of_some hTimes] at hCount ⊢
      rw [List.append_assoc, List.singleton_append]
      change groups? (Token.scan (byteLength []) (optionalNumeral (some n) ++ _)) = _
      cases hVerdict : Place.verdict (Place.optional [] groupDigits (some n)) with
      | error fault =>
          rw [hVerdict] at hFirst
          exact congrArg (· >>= _) hFirst
      | ok _ =>
          rw [hVerdict, Token.scan_times, ← byteLength_append] at hFirst
          refine (groups?_of_times hFirst rfl).trans ((congrArg (· >>= _) hCount).trans ?_)
          rw [bind_assoc]
          rfl

/-- A phrase is read back from its plain spelling, unless one of its numbers is too long. -/
theorem ofTokens_scan_chars (p : Phrase) :
    ofTokens (Token.scan 0 p.chars) = Place.verdict p.places >>= fun _ => .ok p := by
  have hGroups := p.groups?_scan_optional (numeral p.sides ++ p.suffixes.flatMap Suffix.chars)
  have hSides := sidesOf_scan_numeral p.groupChars p.sides (Suffix.isDigit_head?_flatMap p.suffixes)
  have hSuffixes := suffixesOf_scan_chars (p.groupChars ++ numeral p.sides) p.suffixes
  rw [Token.scan_dice, ← byteLength_append, ← groupChars] at hGroups
  rw [p.chars_eq, ofTokens, hGroups, places, Place.verdict_append]
  cases Place.verdict p.groupPlaces with
  | error fault => rfl
  | ok _ =>
      change sidesOf (Token.scan (byteLength p.groupChars) _) >>= _ =
        Place.verdict ([p.sidesPlace] ++ Suffix.places _ _) >>= _
      rw [hSides, Place.verdict_append]
      change (Place.verdict [p.sidesPlace] >>= _) >>= _ = _
      cases Place.verdict [p.sidesPlace] with
      | error fault => rfl
      | ok _ =>
          change suffixesOf _ >>= _ = Place.verdict (Suffix.places _ p.suffixes) >>= _
          rw [hSuffixes]
          cases Place.verdict (Suffix.places (p.groupChars ++ numeral p.sides) p.suffixes) <;> rfl

end Phrase

theorem Suffix.forall_mem_places {P : Nat → Nat → Prop} {before : List Char}
    {suffixes : List Suffix} :
    (∀ x ∈ places before suffixes, P x.limit x.number) ↔
      ∀ s ∈ suffixes, ∀ n ∈ s.amount?, P amountDigits n := by
  induction suffixes generalizing before with
  | nil => simp [places]
  | cons s rest ih =>
      rw [places, List.forall_mem_append, List.forall_mem_cons, ih, Place.forall_mem_optional]

namespace Phrase

/-- What holds of all places of a phrase is said part by part. -/
theorem forall_mem_places (P : Nat → Nat → Prop) (p : Phrase) :
    (∀ x ∈ p.places, P x.limit x.number) ↔ (∀ n ∈ p.times?, P groupDigits n) ∧
      (∀ n ∈ p.count?, P groupDigits n) ∧ P sidesDigits p.sides ∧
        ∀ s ∈ p.suffixes, ∀ n ∈ s.amount?, P amountDigits n := by
  rw [places, groupPlaces, List.forall_mem_append, List.forall_mem_append, List.forall_mem_cons,
    Place.forall_mem_optional, Place.forall_mem_optional, Suffix.forall_mem_places, and_assoc]
  rfl

/-- The numerals fit exactly if none of them is too long. -/
theorem fits_iff {p : Phrase} : p.Fits ↔ ∀ x ∈ p.places, x.isOverlong = false := by
  have hLimit : ∀ x ∈ p.places, 0 < x.limit :=
    (forall_mem_places (fun limit _ => 0 < limit) p).2
      (by simp [groupDigits, sidesDigits, amountDigits])
  have hShort : (∀ x ∈ p.places, x.isOverlong = false) ↔ ∀ x ∈ p.places, x.number < 10 ^ x.limit :=
    forall₂_congr fun x hx => Place.isOverlong_eq_false_iff (hLimit x hx)
  rw [hShort, forall_mem_places fun limit n => n < 10 ^ limit]
  exact ⟨fun h => ⟨h.times, h.count, h.sides, h.amounts⟩,
    fun ⟨hTimes, hCount, hSides, hAmounts⟩ => ⟨hTimes, hCount, hSides, hAmounts⟩⟩

end Phrase

namespace Pool

/-- The canonical text has neither blanks nor capitals. -/
theorem read_text (p : Pool) : read p.text = ofChars p.chars := by
  have hStrip : strip p.chars = p.chars :=
    List.filter_eq_self.2 fun c hc => by
      rw [isBlank_of_isWordChar (isWordChar_of_mem_chars hc), Bool.not_false]
  rw [read, text, String.toList_ofList, hStrip, p.toLower_chars]

/-- Reading the text of a pool comes to the verdict on its places, and gives back the tidy pool if
they pass. -/
theorem read_text_eq_verdict (p : Pool) :
    read p.text = Place.verdict p.phrase.places >>= fun _ => .ok p.tidy := by
  rw [read_text, ofChars, chars, Phrase.ofTokens_scan_chars, bind_assoc]
  change (_ >>= fun _ => (p.phrase.draft.build.mapError Fault.unsound)) = _
  rw [draft_phrase, Draft.build_toDraft]
  rfl

/-- The canonical text of a pool is read exactly if its numbers are short enough: two digits for
times and count, three for all others, where a threshold for exploding dice does not matter if it
is the number of sides. What is read is the pool, but for a multiplier of one and for a chain of
explosions where no die explodes. Otherwise the first number in the text that is too long is at
fault, with its place and its limit. The places are those of all numbers in the text, in order. -/
theorem read_text_iff_short (p : Pool) :
    ((∃ q, read p.text = .ok q) ↔ p.times ≤ 99 ∧ p.count ≤ 99 ∧ p.sides ≤ 999 ∧
        p.multiplier ≤ 999 ∧ p.keep ≤ 999 ∧ p.drop ≤ 999 ∧ p.reroll ≤ 999 ∧ p.target ≤ 999 ∧
          (p.explode ≤ 999 ∨ p.explode = p.sides)) ∧
      (∀ q, read p.text = .ok q → q.toDraft = { p.toDraft with
        multiplier := if p.multiplier = 1 then 0 else p.multiplier
        chain := if p.explode = 0 then false else p.chain }) ∧
      Token.numbers (Token.scan 0 p.text.toList) = p.phrase.places.map Place.token ∧
      ∀ fault, read p.text = .error fault ↔
        ∃ x, p.phrase.places.find? Place.isOverlong = some x ∧ fault = .tooLong x.token x.limit := by
  have hRead := p.read_text_eq_verdict
  refine ⟨?_, ?_, ?_, ?_⟩
  · rw [← fits_phrase_iff, Phrase.fits_iff, ← Place.verdict_eq_ok_iff, hRead]
    cases Place.verdict p.phrase.places with
    | error fault => exact iff_of_false nofun nofun
    | ok _ => exact iff_of_true ⟨p.tidy, rfl⟩ rfl
  · intro q hq
    rw [hRead] at hq
    obtain ⟨_, _, hq⟩ := Except.bind_eq_ok_iff.1 hq
    cases hq
    exact p.toDraft_tidy
  · rw [text, String.toList_ofList]
    exact Token.numbers_scan_chars p.phrase
  · intro fault
    rw [hRead, Place.verdict]
    cases p.phrase.places.find? Place.isOverlong with
    | none => exact iff_of_false nofun nofun
    | some x =>
        constructor
        · rintro ⟨⟩
          exact ⟨x, rfl, rfl⟩
        · rintro ⟨_, ⟨⟩, rfl⟩
          rfl

/-- `12d6e6` is written as `12d6e` and read back; in `12d6e1000k1000` the first amount is at
fault. -/
theorem read_text_iff_short_of_exploding_dice :
    let short : Pool :=
      ⟨{ count := 12, sides := 6, explode := 6 }, by decide, by decide, by decide⟩
    let long : Pool := ⟨{ count := 12, sides := 6, explode := 1000, keep := 1000 }, by decide,
      by decide, by decide⟩
    (∃ q, read short.text = .ok q) ∧
      read long.text = .error (.tooLong ⟨.number, ['1', '0', '0', '0'], 5⟩ 3) :=
  ⟨(read_text_iff_short _).1.2 (by simp), ((read_text_iff_short _).2.2.2 _).2 ⟨_, rfl, rfl⟩⟩

end Pool
end DiceTray
