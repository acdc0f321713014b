import DiceTray.Pool.Canonical
import DiceTray.Proofs.Pool.Grammar
import Mathlib.Algebra.Group.Nat.Defs

/-! The canonical text of a pool is read back as the pool with its idle settings cleared, provided
that its numbers fit the grammar. Every pool that was read has such numbers. Clearing idle settings
changes a pool only where `Pool.Alike` looks away. -/
namespace DiceTray
open Text

/-- Two pools that differ at most in settings that are off: the multipliers nought and one, and
whether dice explode on and on where no die explodes. -/
structure Pool.Alike (p q : Pool) : Prop where
  times : p.times = q.times
  count : p.count = q.count
  sides : p.sides = q.sides
  explode : p.explode = q.explode
  chain : p.explode = 0 ∨ p.chain = q.chain
  reroll : p.reroll = q.reroll
  keep : p.keep = q.keep
  drop : p.drop = q.drop
  multiplier : p.multiplier = q.multiplier ∨ p.multiplier ≤ 1 ∧ q.multiplier ≤ 1
  target : p.target = q.target

/-- The pool with its idle settings cleared. -/
def Pool.tidy (p : Pool) : Pool :=
  { p with
    chain := p.explodes && p.chain
    multiplier := if 1 < p.multiplier then p.multiplier else 0 }

/-- Tidying a pool changes none of the settings that play. -/
theorem Pool.alike_tidy (p : Pool) : p.Alike p.tidy where
  times := rfl
  count := rfl
  sides := rfl
  explode := rfl
  chain := by
    rcases Nat.eq_zero_or_pos p.explode with h | h
    · exact .inl h
    · exact .inr (by simp [Pool.tidy, Pool.explodes, h])
  reroll := rfl
  keep := rfl
  drop := rfl
  multiplier := by
    by_cases h : 1 < p.multiplier
    · exact .inl (by simp [Pool.tidy, h])
    · exact .inr ⟨by omega, by simp [Pool.tidy, h]⟩
  target := rfl

theorem Pool.toDraft_tidy (p : Pool) :
    p.tidy.toDraft = { p.toDraft with
      multiplier := if p.multiplier = 1 then 0 else p.multiplier
      chain := if p.explode = 0 then false else p.chain } := by
  have hMultiplier : (if 1 < p.multiplier then p.multiplier else 0) =
      if p.multiplier = 1 then 0 else p.multiplier := by
    split <;> split <;> omega
  have hChain : (p.explodes && p.chain) = if p.explode = 0 then false else p.chain := by
    rcases Nat.eq_zero_or_pos p.explode with h | h
    · simp [Pool.explodes, h]
    · simp [Pool.explodes, h, Nat.ne_of_gt h]
  rw [Pool.tidy, hMultiplier, hChain]

/-- Tidying does not show in the canonical text. -/
theorem Pool.phrase_tidy (p : Pool) : p.tidy.phrase = p.phrase := by
  have hExplode : p.tidy.explodeSuffix = p.explodeSuffix := by
    by_cases h : 0 < p.explode <;> simp [Pool.explodeSuffix, Pool.explodes, Pool.tidy, h]
  have hMultiplier : suffixIf (1 < p.tidy.multiplier) .multiply p.tidy.multiplier =
      suffixIf (1 < p.multiplier) .multiply p.multiplier := by
    by_cases h : 1 < p.multiplier <;> simp [suffixIf, Pool.tidy, h]
  rw [Pool.phrase, Pool.phrase, hExplode, hMultiplier]
  rfl

/-- Idle settings do not show in the text of a pool. -/
theorem Pool.chars_tidy (p : Pool) : p.tidy.chars = p.chars := by
  rw [Pool.chars, Pool.chars, p.phrase_tidy]

/-- A number has few digits if it is small. -/
theorem Text.length_numeral_le_iff {n limit : Nat} (h : 0 < limit) :
    (numeral n).length ≤ limit ↔ n < 10 ^ limit :=
  Nat.length_toDigits_le_iff (by decide) h

/-- The value of a run of digits is small if the run is short. -/
theorem Text.value_lt {cs : List Char} (h : ∀ c ∈ cs, c.isDigit = true) :
    value cs < 10 ^ cs.length := by
  induction cs with
  | nil => decide
  | cons c cs ih =>
      have hrest : value cs < 10 ^ cs.length := ih fun d hd => h d (List.mem_cons_of_mem c hd)
      have hdigit : c.toNat - '0'.toNat ≤ 9 := by
        have hc := Char.isDigit_iff_toNat.1 (h c List.mem_cons_self)
        have hends : '0'.toNat = 48 ∧ '9'.toNat = 57 := ⟨rfl, rfl⟩
        omega
      rw [value, Nat.ofDigitChars_cons, Nat.ofDigitChars_eq_ofDigitChars_zero, List.length_cons,
        Nat.pow_succ]
      change _ + value cs < _
      have hbound : 10 ^ cs.length * (10 * 0 + (c.toNat - '0'.toNat)) ≤ 10 ^ cs.length * 9 :=
        Nat.mul_le_mul_left _ (by omega)
      omega

structure Phrase.Fits (p : Phrase) : Prop where
  times : ∀ n ∈ p.times?, n < 100
  count : ∀ n ∈ p.count?, n < 100
  sides : p.sides < 1000
  amounts : ∀ s ∈ p.suffixes, ∀ n ∈ s.amount?, n < 1000

def Figure.ofNat {limit : Nat} (n : Nat) (hLimit : 0 < limit) (h : n < 10 ^ limit) :
    Figure limit where
  digits := numeral n
  ne_nil := numeral_ne_nil n
  isDigit := fun _ hc => isDigit_of_mem_numeral hc
  length_le := (length_numeral_le_iff hLimit).2 h

/-- An optional numeral as an optional figure, whatever else is written with its digits. -/
theorem Figure.exists_optionalNumeral (limit : Nat) {n? : Option Nat} (hLimit : 0 < limit)
    (h : ∀ n ∈ n?, n < 10 ^ limit) :
    ∃ f? : Option (Figure limit), f?.map Figure.value = n? ∧
      ∀ write : List Char → List Char,
        f?.elim [] (fun f => write f.digits) = n?.elim [] (fun n => write (numeral n)) := by
  cases n? with
  | none => exact ⟨none, rfl, fun _ => rfl⟩
  | some n =>
      refine ⟨some (Figure.ofNat n hLimit (h n rfl)), ?_, fun _ => rfl⟩
      exact congrArg some (value_numeral n)

def Modifier.sigil : Modifier → Sigil
  | .explode => .e
  | .chain => .ie
  | .keep => .k
  | .drop => .d
  | .reroll => .r
  | .multiply => .star
  | .target => .t

/-- A suffix with a short amount is what some affix says. -/
theorem Suffix.exists_affix {s : Suffix} (h : ∀ n ∈ s.amount?, n < 1000) :
    ∃ a : Affix, a.chars = s.chars ∧ a.suffix = s ∧ a.sigil ≠ .bang := by
  obtain ⟨f?, hValue, hChars⟩ := Figure.exists_optionalNumeral 3 (by omega) h
  refine ⟨⟨s.modifier.sigil, f?⟩, ?_, ?_, ?_⟩
  · have hAmount : f?.elim [] Figure.digits = optionalNumeral s.amount? := hChars id
    rw [Affix.chars, Suffix.chars, hAmount]
    cases s.modifier <;> rfl
  · rcases s with ⟨modifier, amount?⟩
    cases modifier <;> simp_all [Affix.suffix, Modifier.sigil]
  · cases s.modifier <;> simp [Modifier.sigil]

/-- Suffixes with short amounts are what some affixes say, and these can stand next to each other.
-/
theorem Suffix.exists_affixes {suffixes : List Suffix}
    (h : ∀ s ∈ suffixes, ∀ n ∈ s.amount?, n < 1000) :
    ∃ affixes : List Affix, affixes.flatMap Affix.chars = suffixes.flatMap Suffix.chars ∧
      affixes.map Affix.suffix = suffixes ∧ affixes.IsChain Affix.MayPrecede := by
  induction suffixes with
  | nil => exact ⟨[], rfl, rfl, List.IsChain.nil⟩
  | cons s rest ih =>
      obtain ⟨affixes, hChars, hSuffix, hChain⟩ :=
        ih fun s' hs' => h s' (List.mem_cons_of_mem _ hs')
      obtain ⟨a, ha, haSuffix, hSigil⟩ := Suffix.exists_affix (h s List.mem_cons_self)
      refine ⟨a :: affixes, ?_, ?_, Affix.isChain_cons hChain fun hBang => absurd hBang hSigil⟩
      · rw [List.flatMap_cons, List.flatMap_cons, ha, hChars]
      · rw [List.map_cons, haSuffix, hSuffix]

/-- A phrase whose numerals fit is spelled by a term. No exclamation mark is used, so there is
nothing to pair. -/
theorem Phrase.exists_rollTerm_of_fits {p : Phrase} (h : p.Fits) :
    ∃ t : RollTerm, t.chars = p.chars ∧ t.IsPaired ∧ t.phrase = p := by
  obtain ⟨times?, hTimesValue, hTimes⟩ := Figure.exists_optionalNumeral 2 (by omega) h.times
  obtain ⟨count?, hCountValue, hCount⟩ := Figure.exists_optionalNumeral 2 (by omega) h.count
  obtain ⟨affixes, hChars, hSuffixes, hChain⟩ := Suffix.exists_affixes h.amounts
  let sides : Figure 3 := Figure.ofNat p.sides (by omega) h.sides
  refine ⟨⟨times?, count?, .figure sides, affixes⟩, ?_, hChain, ?_⟩
  · have hCountChars : count?.elim [] Figure.digits = optionalNumeral p.count? := hCount id
    have hSidesChars : Faces.chars (.figure sides) = numeral p.sides := rfl
    rw [RollTerm.chars, Phrase.chars, hTimes (· ++ ['x']), hCountChars, hSidesChars, hChars]
  · have hSides : sides.value = p.sides := value_numeral p.sides
    simp only [RollTerm.phrase, Faces.value, hTimesValue, hCountValue, hSides, hSuffixes]

structure Draft.Fits (d : Draft) : Prop where
  times : d.times < 100
  count : d.count < 100
  sides : d.sides < 1000
  explode : d.explode < 1000
  reroll : d.reroll < 1000
  keep : d.keep < 1000
  drop : d.drop < 1000
  multiplier : d.multiplier < 1000
  target : d.target < 1000

def Suffix.applyAll (sides : Nat) (d : Draft) (suffixes : List Suffix) : Draft :=
  suffixes.foldl (fun d s => d.apply s.modifier (s.amount?.getD sides)) d

theorem Suffix.applyAll_append (sides : Nat) (d : Draft) (first second : List Suffix) :
    Suffix.applyAll sides d (first ++ second) =
      Suffix.applyAll sides (Suffix.applyAll sides d first) second :=
  List.foldl_append

namespace Pool

/-- The suffix for exploding sets the threshold, and the flag for chains unless the flag is idle. -/
theorem applyAll_explodeSuffix (p : Pool) (d : Draft) (hExplode : d.explode = 0)
    (hChain : d.chain = false) :
    Suffix.applyAll p.sides d p.explodeSuffix =
      { d with explode := p.explode, chain := p.tidy.chain } := by
  by_cases h : 0 < p.explode
  · have hAmount : (if p.explode = p.sides then none else some p.explode).getD p.sides =
        p.explode := by
      split <;> simp_all
    cases hp : p.chain <;>
      simp [explodeSuffix, explodes, h, tidy, hp, Suffix.applyAll, Draft.apply, hAmount]
  · have hZero : p.explode = 0 := by omega
    cases d
    subst hExplode hChain
    simp [explodeSuffix, explodes, tidy, hZero, Suffix.applyAll]

/-- A suffix may be left out where it would change nothing. -/
theorem applyAll_suffixIf {on : Bool} {modifier : Modifier} {amount stands sides : Nat} {d : Draft}
    (hOn : on = true → amount = stands) (hOff : on = false → d.apply modifier stands = d) :
    Suffix.applyAll sides d (suffixIf on modifier amount) = d.apply modifier stands := by
  cases on with
  | false => exact (hOff rfl).symm
  | true => simp [Suffix.applyAll, suffixIf, hOn rfl]

/-- A suffix that is left out for an amount of nought sets what was set before. -/
theorem applyAll_suffixIf_pos (modifier : Modifier) (amount sides : Nat) (d : Draft)
    (h : d.apply modifier 0 = d) :
    Suffix.applyAll sides d (suffixIf (0 < amount) modifier amount) = d.apply modifier amount := by
  apply applyAll_suffixIf
  · exact fun _ => rfl
  · intro hOff
    have hZero : amount = 0 := by simpa using hOff
    rw [hZero, h]

/-- A multiplier of one is left out like one of nought. -/
theorem applyAll_suffixIf_multiply (p : Pool) (d : Draft) (h : d.apply .multiply 0 = d) :
    Suffix.applyAll p.sides d (suffixIf (1 < p.multiplier) .multiply p.multiplier) =
      d.apply .multiply p.tidy.multiplier := by
  apply applyAll_suffixIf
  · intro hOn
    simp_all [tidy]
  · intro hOff
    have hIdle : p.tidy.multiplier = 0 := by simp_all [tidy]
    rw [hIdle, h]

/-- The canonical phrase describes the pool with its idle settings cleared. -/
theorem draft_phrase (p : Pool) : p.phrase.draft = p.tidy.toDraft := by
  have hTimes : (if 1 < p.times then some p.times else none).getD 1 = p.times := by
    have hOne := p.one_le_times
    split
    · rfl
    · rw [Option.getD_none]
      omega
  have hDraft : p.phrase.draft = Suffix.applyAll p.sides
      { times := p.times, count := p.count, sides := p.sides } p.phrase.suffixes := by
    rw [Phrase.draft, phrase, hTimes]
    rfl
  rw [hDraft]
  simp only [phrase, Suffix.applyAll_append]
  rw [applyAll_explodeSuffix _ _ rfl rfl, applyAll_suffixIf_multiply, applyAll_suffixIf_pos .keep,
    applyAll_suffixIf_pos .drop, applyAll_suffixIf_pos .reroll, applyAll_suffixIf_pos .target]
  all_goals rfl

theorem forall_mem_suffixIf {on : Bool} {modifier : Modifier} {amount : Nat} :
    (∀ s ∈ suffixIf on modifier amount, ∀ n ∈ s.amount?, n < 1000) ↔
      (on = true → amount < 1000) := by
  cases on <;> simp [suffixIf]

/-- A threshold that is the number of sides is not written, so it may be as long as that. -/
theorem forall_mem_explodeSuffix {p : Pool} :
    (∀ s ∈ p.explodeSuffix, ∀ n ∈ s.amount?, n < 1000) ↔
      p.explode < 1000 ∨ p.explode = p.sides := by
  rw [explodeSuffix]
  rcases Nat.eq_zero_or_pos p.explode with h | h
  · simp [explodes, h]
  · by_cases hSides : p.explode = p.sides
    · simp [hSides]
    · simp [explodes, h, hSides]

/-- The canonical spelling leaves out one threshold that might be too long: one that equals the
number of sides. -/
theorem fits_phrase_iff {p : Pool} :
    p.phrase.Fits ↔ p.times ≤ 99 ∧ p.count ≤ 99 ∧ p.sides ≤ 999 ∧ p.multiplier ≤ 999 ∧
      p.keep ≤ 999 ∧ p.drop ≤ 999 ∧ p.reroll ≤ 999 ∧ p.target ≤ 999 ∧
        (p.explode ≤ 999 ∨ p.explode = p.sides) := by
  have hTimes : (∀ n ∈ p.phrase.times?, n < 100) ↔ p.times ≤ 99 := by
    simp only [phrase, Option.mem_def, Option.ite_none_right_eq_some, Option.some.injEq]
    refine ⟨fun h => ?_, fun h n hn => by omega⟩
    by_contra hLong
    exact absurd (h p.times ⟨by omega, rfl⟩) (by omega)
  have hSuffixes : (∀ s ∈ p.phrase.suffixes, ∀ n ∈ s.amount?, n < 1000) ↔
      p.multiplier ≤ 999 ∧ p.keep ≤ 999 ∧ p.drop ≤ 999 ∧ p.reroll ≤ 999 ∧ p.target ≤ 999 ∧
        (p.explode ≤ 999 ∨ p.explode = p.sides) := by
    simp only [phrase, List.forall_mem_append, forall_mem_suffixIf, forall_mem_explodeSuffix,
      decide_eq_true_eq]
    omega
  constructor
  · intro h
    have hSides : p.sides < 1000 := h.sides
    exact ⟨hTimes.1 h.times, Nat.le_of_lt_succ (h.count p.count rfl), Nat.le_of_lt_succ hSides,
      hSuffixes.1 h.amounts⟩
  · rintro ⟨hTimes', hCount, hSides, hAmounts⟩
    refine ⟨hTimes.2 hTimes', ?_, Nat.lt_succ_of_le hSides, hSuffixes.2 hAmounts⟩
    rintro n ⟨⟩
    exact Nat.lt_succ_of_le hCount

/-- A pool whose settings fit the grammar is written with numbers that do. -/
theorem phrase_fits {p : Pool} (h : p.toDraft.Fits) : p.phrase.Fits := by
  obtain ⟨hTimes, hCount, hSides, hExplode, hReroll, hKeep, hDrop, hMultiplier, hTarget⟩ := h
  rw [fits_phrase_iff]
  omega

/-- The canonical text is read back. -/
theorem ofChars_chars {p : Pool} (h : p.toDraft.Fits) : ofChars p.chars = .ok p.tidy := by
  obtain ⟨t, hChars, hPaired, hPhrase⟩ := Phrase.exists_rollTerm_of_fits (phrase_fits h)
  refine ofChars_eq_ok_iff.2 ⟨t, hChars, hPaired, ?_⟩
  rw [← RollTerm.draft_phrase, hPhrase, draft_phrase]

end Pool

theorem Figure.value_lt {limit : Nat} (f : Figure limit) : f.value < 10 ^ limit :=
  lt_of_lt_of_le (Text.value_lt f.isDigit) (Nat.pow_le_pow_right (by omega) f.length_le)

theorem Figure.elim_value_lt {limit idle : Nat} (f? : Option (Figure limit))
    (h : idle < 10 ^ limit) : f?.elim idle Figure.value < 10 ^ limit := by
  cases f? with
  | none => exact h
  | some f => exact f.value_lt

theorem Faces.value_lt (faces : Faces) : faces.value < 1000 := by
  cases faces with
  | percent => decide
  | figure f => exact f.value_lt

/-- What one affix changes keeps to the digits that the grammar allows. -/
theorem Affix.fits_change {sides : Nat} {d : Draft} (hSides : sides < 1000) (h : d.Fits)
    (a : Affix) : (a.change sides d).Fits := by
  have hAmount : a.amount?.elim sides Figure.value < 1000 := Figure.elim_value_lt a.amount? hSides
  cases hSigil : a.sigil with
  | e | bang | ie | bangs =>
      simp only [Affix.change, hSigil]
      exact { h with explode := hAmount }
  | k =>
      simp only [Affix.change, hSigil]
      exact { h with keep := hAmount }
  | d =>
      simp only [Affix.change, hSigil]
      exact { h with drop := hAmount }
  | r =>
      simp only [Affix.change, hSigil]
      exact { h with reroll := hAmount }
  | star =>
      simp only [Affix.change, hSigil]
      exact { h with multiplier := hAmount }
  | t =>
      simp only [Affix.change, hSigil]
      exact { h with target := hAmount }

/-- A term can say only what fits the grammar. -/
theorem RollTerm.fits_draft (t : RollTerm) : t.draft.Fits := by
  have hStart : ∀ d : Draft, d.Fits → (t.affixes.foldl (Affix.change t.faces.value) d).Fits := by
    intro d hd
    induction t.affixes generalizing d with
    | nil => exact hd
    | cons a rest ih => exact ih _ (a.fits_change t.faces.value_lt hd)
  refine hStart _ ⟨?_, ?_, t.faces.value_lt, ?_, ?_, ?_, ?_, ?_, ?_⟩
  · exact Figure.elim_value_lt t.times? (by decide)
  · exact Figure.elim_value_lt t.count? (by decide)
  all_goals exact Nat.succ_pos 999

/-- The numbers of a pool that was read fit the grammar. -/
theorem Pool.fits_of_ofChars {cs : List Char} {p : Pool} (h : Pool.ofChars cs = .ok p) :
    p.toDraft.Fits := by
  obtain ⟨t, _, _, hDraft⟩ := Pool.ofChars_eq_ok_iff.1 h
  rw [← hDraft]
  exact t.fits_draft

end DiceTray
