import DiceTray.Proofs.Pool.Canonical

/-! The numbers in the plain spelling of a phrase, each with its place. They are the numbers that
the scanner finds there, in the same order. A list of places has a verdict: it is in order, or the
first number that is too long is at fault. -/
namespace DiceTray
open Text

/-- A number in a text: what is written before it, and how many digits it may have. -/
structure Place where
  before : List Char
  number : Nat
  limit : Nat

namespace Place

def token (x : Place) : Token := ⟨.number, numeral x.number, byteLength x.before⟩

def isOverlong (x : Place) : Bool := x.limit < (numeral x.number).length

/-- The first number that is too long is at fault. -/
def verdict (places : List Place) : Except Fault Unit :=
  match places.find? isOverlong with
  | none => .ok ()
  | some x => .error (.tooLong x.token x.limit)

def optional (before : List Char) (limit : Nat) (n? : Option Nat) : List Place :=
  n?.toList.map fun number => { before, number, limit }

end Place

def Suffix.places (before : List Char) : List Suffix → List Place
  | [] => []
  | s :: rest =>
    Place.optional (before ++ s.modifier.chars) amountDigits s.amount? ++
      places (before ++ s.chars) rest

namespace Phrase

def timesChars (p : Phrase) : List Char := p.times?.elim [] fun n => numeral n ++ ['x']

def groupChars (p : Phrase) : List Char := p.timesChars ++ optionalNumeral p.count? ++ ['d']

def groupPlaces (p : Phrase) : List Place :=
  Place.optional [] groupDigits p.times? ++ Place.optional p.timesChars groupDigits p.count?

def sidesPlace (p : Phrase) : Place where
  before := p.groupChars
  number := p.sides
  limit := sidesDigits

/-- The places of all numbers in the plain spelling, from left to right. -/
def places (p : Phrase) : List Place :=
  p.groupPlaces ++ p.sidesPlace :: Suffix.places (p.groupChars ++ numeral p.sides) p.suffixes

variable {p : Phrase}

theorem timesChars_of_none (h : p.times? = none) : p.timesChars = [] := by
  rw [timesChars, h, Option.elim_none]

theorem timesChars_of_some {n : Nat} (h : p.times? = some n) :
    p.timesChars = numeral n ++ ['x'] := by
  rw [timesChars, h, Option.elim_some]

/-- The text of a phrase is made of four parts, one for each stage of reading. -/
theorem chars_eq (p : Phrase) :
    p.chars = p.timesChars ++ (optionalNumeral p.count? ++
      'd' :: (numeral p.sides ++ p.suffixes.flatMap Suffix.chars)) := by
  rw [chars, List.append_assoc, List.append_assoc, List.cons_append]
  rfl

end Phrase

namespace Place

theorem mark_token (x : Place) : x.token.mark = .number := rfl

/-- The verdict on some places and then others is that on the first, and if they pass that on the
second. -/
theorem verdict_append (xs ys : List Place) :
    verdict (xs ++ ys) = verdict xs >>= fun _ => verdict ys := by
  unfold verdict
  rw [List.find?_append]
  cases xs.find? isOverlong <;> rfl

/-- Places pass if none of their numbers is overlong. -/
theorem verdict_eq_ok_iff {places : List Place} :
    verdict places = .ok () ↔ ∀ x ∈ places, x.isOverlong = false := by
  unfold verdict
  cases hFind : places.find? isOverlong with
  | none => simpa using List.find?_eq_none.1 hFind
  | some x =>
      refine iff_of_false (by simp) fun h => ?_
      have hShort := h x (List.mem_of_find?_eq_some hFind)
      rw [List.find?_some hFind] at hShort
      cases hShort

theorem forall_mem_optional {P : Place → Prop} {before : List Char} {limit : Nat}
    {n? : Option Nat} :
    (∀ x ∈ optional before limit n?, P x) ↔ ∀ n ∈ n?, P { before, number := n, limit } := by
  cases n? <;> simp [optional]

/-- A number is short enough exactly if it is below the power of ten. -/
theorem isOverlong_eq_false_iff {x : Place} (h : 0 < x.limit) :
    x.isOverlong = false ↔ x.number < 10 ^ x.limit := by
  rw [isOverlong, decide_eq_false_iff_not, Nat.not_lt, Text.length_numeral_le_iff h]

end Place

theorem byteLength_append (as bs : List Char) :
    byteLength (as ++ bs) = byteLength as + byteLength bs := by
  induction as with
  | nil => exact (Nat.zero_add _).symm
  | cons c as ih =>
      change c.utf8Size + byteLength (as ++ bs) = c.utf8Size + byteLength as + byteLength bs
      rw [ih, Nat.add_assoc]

theorem Modifier.chars_sigil (m : Modifier) : m.sigil.chars = m.chars := by
  cases m <;> rfl

theorem Modifier.modifier?_mark_sigil (m : Modifier) : m.sigil.mark.modifier? = some m := by
  cases m <;> rfl

/-- What follows a suffix does not lengthen its number. -/
theorem Suffix.isDigit_head?_flatMap (suffixes : List Suffix) :
    ∀ c ∈ (suffixes.flatMap Suffix.chars).head?, c.isDigit = false := by
  cases suffixes with
  | nil => simp
  | cons s rest =>
      rw [List.flatMap_cons, Suffix.chars, List.append_assoc]
      cases s.modifier <;> simp [Modifier.chars]

namespace Token

/-- A numeral that ends before the rest is scanned as the token of its place. -/
theorem scan_numeral (before : List Char) (limit n : Nat) {rest : List Char}
    (h : ∀ c ∈ rest.head?, c.isDigit = false) :
    scan (byteLength before) (numeral n ++ rest) =
      Place.token { before, number := n, limit } ::
        scan (byteLength (before ++ numeral n)) rest := by
  rw [byteLength_append]
  exact scan_figure _ ⟨numeral n, numeral_ne_nil n, fun _ => isDigit_of_mem_numeral, Nat.le_refl _⟩
    rest h

/-- So is a numeral that may be left out. -/
theorem scan_optional (before : List Char) (limit : Nat) (n? : Option Nat) {rest : List Char}
    (h : ∀ c ∈ rest.head?, c.isDigit = false) :
    scan (byteLength before) (optionalNumeral n? ++ rest) =
      (Place.optional before limit n?).map Place.token ++
        scan (byteLength (before ++ optionalNumeral n?)) rest := by
  cases n? with
  | none => rw [optionalNumeral, Option.elim_none, List.append_nil]; rfl
  | some n => exact scan_numeral before limit n h

/-- A modifier is scanned as one token. -/
theorem scan_modifier (before : List Char) (m : Modifier) (rest : List Char) :
    scan (byteLength before) (m.chars ++ rest) =
      ⟨m.sigil.mark, m.chars, byteLength before⟩ :: scan (byteLength (before ++ m.chars)) rest := by
  have hPlain : m.sigil = .bang → rest.head? ≠ some '!' := by
    cases m <;> simp [Modifier.sigil]
  rw [byteLength_append, ← m.chars_sigil, scan_sigil _ _ _ hPlain]

def numbers (tokens : List Token) : List Token := tokens.filter fun t => t.mark = .number

theorem numbers_places (places : List Place) (tokens : List Token) :
    numbers (places.map Place.token ++ tokens) = places.map Place.token ++ numbers tokens := by
  have hAll : numbers (places.map Place.token) = places.map Place.token :=
    List.filter_eq_self.2 (List.forall_mem_map.2 fun _ _ => rfl)
  rw [numbers, List.filter_append]
  exact congrArg (· ++ _) hAll

/-- The number tokens of suffixes are those of their places. -/
theorem numbers_scan_suffixes (before : List Char) (suffixes : List Suffix) :
    numbers (scan (byteLength before) (suffixes.flatMap Suffix.chars)) =
      (Suffix.places before suffixes).map Place.token := by
  induction suffixes generalizing before with
  | nil =>
      rw [List.flatMap_nil, scan_nil]
      rfl
  | cons s rest ih =>
      have hMark : s.modifier.sigil.mark ≠ .number := by
        cases s.modifier <;> simp [Modifier.sigil, Sigil.mark]
      rw [List.flatMap_cons, Suffix.chars, List.append_assoc, scan_modifier,
        scan_optional _ amountDigits _ (Suffix.isDigit_head?_flatMap rest), Suffix.places,
        List.map_append, Suffix.chars, ← List.append_assoc, ← ih, ← numbers_places]
      exact List.filter_cons_of_neg (by simpa using hMark)

/-- The scanner finds the numbers of the plain spelling in their places, and no others. -/
theorem numbers_scan_chars (p : Phrase) :
    numbers (scan 0 p.chars) = p.places.map Place.token := by
  have hSuffixes := Suffix.isDigit_head?_flatMap p.suffixes
  have hGroup : numbers (scan (byteLength p.timesChars) (optionalNumeral p.count? ++
      'd' :: (numeral p.sides ++ p.suffixes.flatMap Suffix.chars))) =
      (Place.optional p.timesChars groupDigits p.count? ++ p.sidesPlace ::
        Suffix.places (p.groupChars ++ numeral p.sides) p.suffixes).map Place.token := by
    rw [scan_optional _ groupDigits _ (by simp), numbers_places, List.map_append, scan_dice,
      ← byteLength_append, ← Phrase.groupChars, scan_numeral _ sidesDigits _ hSuffixes,
      List.map_cons, ← numbers_scan_suffixes]
    rfl
  rw [p.chars_eq, Phrase.places, Phrase.groupPlaces, List.append_assoc, List.map_append, ← hGroup,
    ← numbers_places]
  cases hTimes : p.times? with
  | none =>
      rw [Phrase.timesChars_of_none hTimes]
      rfl
  | some n =>
      have hTimesMark : ∀ rest, ∀ c ∈ ('x' :: rest).head?, c.isDigit = false := by simp
      rw [Phrase.timesChars_of_some hTimes, List.append_assoc, List.singleton_append]
      change numbers (scan (byteLength []) _) = _
      rw [scan_numeral [] groupDigits n (hTimesMark _), scan_times, ← byteLength_append]
      rfl

end Token

end DiceTray
