import DiceTray.Pool.Basic
import DiceTray.Text.Numeral
import Mathlib.Data.List.Chain

/-! The grammar of roll terms, letter by letter, with the draft that each term describes. Nothing
here scans or looks ahead: a `RollTerm` is a tree, `RollTerm.chars` its letters, and
`RollTerm.draft` its meaning. Only neighbouring exclamation marks can be told apart in two ways,
and `RollTerm.IsPaired` picks the one that pairs them from the left. -/
namespace DiceTray
open Text

/-- A run of decimal digits, at least one and at most `limit`. Leading zeros are allowed. -/
structure Figure (limit : Nat) where
  digits : List Char
  ne_nil : digits ≠ []
  isDigit : ∀ c ∈ digits, c.isDigit = true
  length_le : digits.length ≤ limit

def Figure.value {limit : Nat} (f : Figure limit) : Nat := Text.value f.digits

/-- The ways of writing a modifier. -/
inductive Sigil where
  | e
  | bang
  | ie
  | bangs
  | k
  | d
  | r
  | star
  | t
deriving DecidableEq, Repr

def Sigil.chars : Sigil → List Char
  | .e => ['e']
  | .bang => ['!']
  | .ie => ['i', 'e']
  | .bangs => ['!', '!']
  | .k => ['k']
  | .d => ['d']
  | .r => ['r']
  | .star => ['*']
  | .t => ['t']

/-- A modifier as written, with its digits where there are any. -/
structure Affix where
  sigil : Sigil
  amount? : Option (Figure 3)

def Affix.chars (a : Affix) : List Char := a.sigil.chars ++ a.amount?.elim [] Figure.digits

/-- What the affix changes in a draft of dice with the given number of sides. Without digits it
means that number; exploding once and exploding on and on are written over each other. -/
def Affix.change (sides : Nat) (d : Draft) (a : Affix) : Draft :=
  let amount := a.amount?.elim sides Figure.value
  match a.sigil with
  | .e | .bang => { d with explode := amount, chain := false }
  | .ie | .bangs => { d with explode := amount, chain := true }
  | .k => { d with keep := amount }
  | .d => { d with drop := amount }
  | .r => { d with reroll := amount }
  | .star => { d with multiplier := amount }
  | .t => { d with target := amount }

/-- An affix may stand before another unless the two would be read as one: a bare exclamation mark
does not stand before another exclamation mark. -/
def Affix.MayPrecede (a b : Affix) : Prop :=
  a.sigil = .bang → a.amount? = none → b.sigil ≠ .bang ∧ b.sigil ≠ .bangs

inductive Faces where
  | percent
  | figure (f : Figure 3)

def Faces.chars : Faces → List Char
  | .percent => ['%']
  | .figure f => f.digits

def Faces.value : Faces → Nat
  | .percent => 100
  | .figure f => f.value

/-- A roll term as written: times, count, faces and affixes. -/
structure RollTerm where
  times? : Option (Figure 2)
  count? : Option (Figure 2)
  faces : Faces
  affixes : List Affix

namespace RollTerm

def chars (t : RollTerm) : List Char :=
  t.times?.elim [] (fun f => f.digits ++ ['x']) ++ t.count?.elim [] Figure.digits ++
    'd' :: t.faces.chars ++ t.affixes.flatMap Affix.chars

/-- How many groups the term asks for; one where it does not say. -/
def times (t : RollTerm) : Nat := t.times?.elim 1 Figure.value

/-- How many dice the term asks for; one where it does not say. -/
def count (t : RollTerm) : Nat := t.count?.elim 1 Figure.value

/-- The settings that the term describes: its affixes act from left to right on a draft with every
modifier off. -/
def draft (t : RollTerm) : Draft :=
  t.affixes.foldl (Affix.change t.faces.value)
    { times := t.times, count := t.count, sides := t.faces.value }

/-- Exclamation marks are paired from the left. -/
def IsPaired (t : RollTerm) : Prop := t.affixes.IsChain Affix.MayPrecede

/-- There are such dice: two sides or more, and at least one group of at least one die. -/
def IsSound (t : RollTerm) : Prop := 2 ≤ t.faces.value ∧ 1 ≤ t.count ∧ 1 ≤ t.times

end RollTerm

/-- The first letter of an affix decides whether it begins with an exclamation mark. -/
theorem Affix.head?_chars (a : Affix) (rest : List Char) :
    (a.chars ++ rest).head? = a.sigil.chars.head? := by
  cases h : a.sigil <;> simp [Affix.chars, h, Sigil.chars]

/-- Only an affix that begins with an exclamation mark can be kept from following another. -/
theorem Affix.mayPrecede_of_head?_ne {a b : Affix} (h : b.sigil.chars.head? ≠ some '!') :
    a.MayPrecede b := by
  intro _ _
  constructor
  all_goals
    intro hSigil
    simp [hSigil, Sigil.chars] at h

/-- A bare exclamation mark is not followed by another, with which it would be one mark. -/
theorem Affix.head?_ne_of_mayPrecede {a b : Affix} (h : a.MayPrecede b)
    (hSigil : a.sigil = .bang) (hBare : a.amount? = none) :
    b.sigil.chars.head? ≠ some '!' := by
  obtain ⟨hBang, hBangs⟩ := h hSigil hBare
  cases hs : b.sigil <;> simp_all [Sigil.chars]

/-- Prepend an affix to paired affixes whose letters do not begin with an exclamation mark. -/
theorem Affix.isChain_cons {a : Affix} {affixes : List Affix}
    (h : affixes.IsChain Affix.MayPrecede)
    (hHead : a.sigil = .bang → a.amount? = none →
      (affixes.flatMap Affix.chars).head? ≠ some '!') :
    (a :: affixes).IsChain Affix.MayPrecede := by
  cases affixes with
  | nil => exact List.IsChain.singleton a
  | cons b rest =>
      refine List.IsChain.cons_cons ?_ h
      intro hSigil hBare
      have hb := hHead hSigil hBare
      rw [List.flatMap_cons, Affix.head?_chars] at hb
      exact Affix.mayPrecede_of_head?_ne hb hSigil hBare

/-- Any list of affixes can be paired from the left without a change to its letters. Two lone
marks become a double one; a lone mark before a double one trades places with it. -/
theorem Affix.exists_isChain (affixes : List Affix) :
    ∃ paired : List Affix, paired.flatMap Affix.chars = affixes.flatMap Affix.chars ∧
      paired.IsChain Affix.MayPrecede := by
  match affixes with
  | [] => exact ⟨[], rfl, List.IsChain.nil⟩
  | [a] => exact ⟨[a], rfl, List.IsChain.singleton a⟩
  | a :: b :: rest =>
      by_cases hBare : a = ⟨.bang, none⟩
      · subst hBare
        rcases hb : b with ⟨sigil, amount?⟩
        by_cases hBang : sigil = .bang
        · obtain ⟨paired, hChars, hChain⟩ := exists_isChain rest
          refine ⟨⟨.bangs, amount?⟩ :: paired, ?_, Affix.isChain_cons hChain (by simp)⟩
          simp [Affix.chars, Sigil.chars, hChars, hBang]
        · by_cases hBangs : sigil = .bangs
          · obtain ⟨paired, hChars, hChain⟩ := exists_isChain (⟨.bang, amount?⟩ :: rest)
            refine ⟨⟨.bangs, none⟩ :: paired, ?_, Affix.isChain_cons hChain (by simp)⟩
            rw [List.flatMap_cons, hChars]
            simp [Affix.chars, Sigil.chars, hBangs]
          · obtain ⟨paired, hChars, hChain⟩ := exists_isChain (⟨sigil, amount?⟩ :: rest)
            refine ⟨⟨.bang, none⟩ :: paired, ?_, Affix.isChain_cons hChain ?_⟩
            · simp only [List.flatMap_cons, hChars]
            · intro _ _
              rw [hChars, List.flatMap_cons, Affix.head?_chars]
              cases sigil <;> simp_all [Sigil.chars]
      · obtain ⟨paired, hChars, hChain⟩ := exists_isChain (b :: rest)
        refine ⟨a :: paired, ?_, Affix.isChain_cons hChain ?_⟩
        · simp only [List.flatMap_cons, hChars]
        · intro hSigil hNone
          exact absurd (by cases a; simp_all) hBare
termination_by affixes.length

/-- Any term can be paired without a change to its letters, times, count or faces. -/
theorem RollTerm.exists_isPaired (t : RollTerm) :
    ∃ paired : RollTerm, paired.chars = t.chars ∧ paired.IsPaired ∧
      (t.IsSound → paired.IsSound) := by
  obtain ⟨affixes, hChars, hChain⟩ := Affix.exists_isChain t.affixes
  exact ⟨{ t with affixes }, by simp [RollTerm.chars, hChars], hChain, fun hSound => hSound⟩

/-- The affixes leave times, count and sides alone. -/
theorem Affix.foldl_change (sides : Nat) (affixes : List Affix) (d : Draft) :
    (affixes.foldl (Affix.change sides) d).times = d.times ∧
      (affixes.foldl (Affix.change sides) d).count = d.count ∧
      (affixes.foldl (Affix.change sides) d).sides = d.sides := by
  induction affixes generalizing d with
  | nil => exact ⟨rfl, rfl, rfl⟩
  | cons a rest ih =>
      obtain ⟨hTimes, hCount, hSides⟩ := ih (a.change sides d)
      rw [List.foldl_cons, hTimes, hCount, hSides]
      cases h : a.sigil <;> simp [Affix.change, h]

theorem RollTerm.times_draft (t : RollTerm) : t.draft.times = t.times :=
  (Affix.foldl_change _ _ _).1

theorem RollTerm.count_draft (t : RollTerm) : t.draft.count = t.count :=
  (Affix.foldl_change _ _ _).2.1

theorem RollTerm.sides_draft (t : RollTerm) : t.draft.sides = t.faces.value :=
  (Affix.foldl_change _ _ _).2.2

/-- What is wrong with the dice of a term; of several flaws the first, in the order sides, count,
times. -/
inductive RollTerm.HasFlaw (t : RollTerm) : Flaw → Prop where
  | sides (few : t.faces.value < 2) : t.HasFlaw (.tooFewSides t.faces.value)
  | count (enough : 2 ≤ t.faces.value) (zero : t.count = 0) : t.HasFlaw .zeroCount
  | times (enough : 2 ≤ t.faces.value) (some : 1 ≤ t.count) (zero : t.times = 0) :
      t.HasFlaw .zeroTimes

/-- A term has a flaw exactly if its settings do not make a pool for that reason. -/
theorem RollTerm.build_draft_eq_error_iff {t : RollTerm} {flaw : Flaw} :
    t.draft.build = .error flaw ↔ t.HasFlaw flaw := by
  have hSides := t.sides_draft
  have hCount := t.count_draft
  have hTimes := t.times_draft
  constructor
  · intro h
    unfold Draft.build at h
    split at h
    · cases h
      rw [hSides]
      exact .sides (by omega)
    · split at h
      · cases h
        exact .count (by omega) (by omega)
      · split at h
        · cases h
          exact .times (by omega) (by omega) (by omega)
        · cases h
  · rintro (few | ⟨enough, zero⟩ | ⟨enough, some, zero⟩)
    · rw [Draft.build, dif_pos (hSides ▸ few), hSides]
    · rw [Draft.build, dif_neg (by omega), dif_pos (by omega)]
    · rw [Draft.build, dif_neg (by omega), dif_neg (by omega), dif_pos (by omega)]

end DiceTray
