import DiceTray.Proofs.Pool.Canonical
import DiceTray.Section.Operand
import DiceTray.Section.Piece
import Mathlib.Data.List.Basic

/-! The words that numbers and dice are written as. Such a word has no character that means
something else in a section or a script, and it is read as the number or the dice it was written
for. -/
namespace DiceTray
open Text

theorem toNat_lt_of_isWordChar {c : Char} (h : isWordChar c = true) : c.toNat < 128 := by
  have hUpTo : ∀ last : Char, last.toNat < 128 → c.val ≤ last.val → c.toNat < 128 := by
    intro last hLast hc
    exact Nat.lt_of_le_of_lt (UInt32.le_iff_toNat_le.1 hc) hLast
  change (c.isUpper || c.isLower || c.isDigit || c == '%' || c == '*' || c == '!') = true at h
  simp only [Bool.or_eq_true, beq_iff_eq] at h
  rcases h with ((((hUpper | hLower) | hDigit) | rfl) | rfl) | rfl
  · exact hUpTo 'Z' (by decide) (of_decide_eq_true hUpper).2
  · exact hUpTo 'z' (by decide) (of_decide_eq_true (Bool.and_eq_true_iff.1 hLower).2)
  · exact hUpTo '9' (by decide) (of_decide_eq_true (Bool.and_eq_true_iff.1 hDigit).2)
  all_goals decide

/-- What holds of the first characters, one by one, holds of those that words are made of. -/
theorem of_isWordChar (P : Char → Prop) {c : Char} (hc : isWordChar c = true)
    (h : ∀ n < 128, isWordChar (Char.ofNat n) = true → P (Char.ofNat n)) : P c := by
  have hAll := h c.toNat (toNat_lt_of_isWordChar hc)
  rw [Char.ofNat_toNat] at hAll
  exact hAll hc

theorem isBlank_of_isWordChar {c : Char} (h : isWordChar c = true) : isBlank c = false :=
  of_isWordChar (fun c => isBlank c = false) h (by decide +kernel)

theorem not_mem_of_isWordChar {c : Char} (h : isWordChar c = true) : c ∉ ['(', ')', ','] :=
  of_isWordChar (fun c => c ∉ ['(', ')', ',']) h (by decide +kernel)

theorem isWordChar_of_isDigit {c : Char} (h : c.isDigit = true) : isWordChar c = true := by
  simp [isWordChar, Char.isAlphanum, h]

theorem toLower_of_isDigit {c : Char} (h : c.isDigit = true) : c.toLower = c :=
  of_isWordChar (fun c => c.isDigit = true → c.toLower = c) (isWordChar_of_isDigit h)
    (by decide +kernel) h

def Phrase.letters : List Char := ['x', 'd', 'e', 'i', 'k', 'r', '*', 't']

theorem Modifier.chars_subset (m : Modifier) : m.chars ⊆ Phrase.letters := by
  cases m <;> decide

theorem isDigit_of_mem_optionalNumeral {n? : Option Nat} {c : Char} (h : c ∈ optionalNumeral n?) :
    c.isDigit = true := by
  cases n? with
  | none => cases h
  | some n => exact isDigit_of_mem_numeral h

theorem Phrase.isDigit_or_mem_letters {p : Phrase} {c : Char} (h : c ∈ p.chars) :
    c.isDigit = true ∨ c ∈ letters := by
  rw [Phrase.chars, List.append_assoc, List.append_assoc, List.mem_append, List.mem_append] at h
  rcases h with h | h | h
  · cases hTimes : p.times? with
    | none => rw [hTimes] at h; cases h
    | some n =>
        rw [hTimes, Option.elim_some, List.mem_append] at h
        rcases h with h | h
        · exact .inl (isDigit_of_mem_numeral h)
        · rw [List.mem_singleton.1 h]
          exact .inr (by decide)
  · exact .inl (isDigit_of_mem_optionalNumeral h)
  · rw [List.cons_append, List.mem_cons, List.mem_append, List.mem_flatMap] at h
    rcases h with rfl | h | ⟨s, _, h⟩
    · exact .inr (by decide)
    · exact .inl (isDigit_of_mem_numeral h)
    · rw [Suffix.chars, List.mem_append] at h
      rcases h with h | h
      · exact .inr (s.modifier.chars_subset h)
      · exact .inl (isDigit_of_mem_optionalNumeral h)

namespace Pool

/-- The text of a pool is one word. -/
theorem isWordChar_of_mem_chars {p : Pool} {c : Char} (h : c ∈ p.chars) : isWordChar c = true := by
  have hLetters : Phrase.letters.all isWordChar = true := by decide
  rcases Phrase.isDigit_or_mem_letters h with h | h
  · exact isWordChar_of_isDigit h
  · exact List.all_eq_true.1 hLetters c h

/-- The text of a pool is in small letters. -/
theorem toLower_chars (p : Pool) : p.chars.map Char.toLower = p.chars := by
  have hLetters : Phrase.letters.all (fun c => c.toLower == c) = true := by decide
  have hChars : ∀ c ∈ p.chars, c.toLower = c := by
    intro c hc
    rcases Phrase.isDigit_or_mem_letters hc with h | h
    · exact toLower_of_isDigit h
    · exact beq_iff_eq.1 (List.all_eq_true.1 hLetters c h)
  rw [List.map_congr_left hChars, List.map_id']

/-- Every pool is written with a dice mark, so it is no number. -/
theorem d_mem_chars (p : Pool) : 'd' ∈ p.chars := by
  simp [chars, Phrase.chars]

end Pool

namespace Operand

/-- A numeral is read as its number. -/
theorem ofWord_numeral {n : Nat} (h : n ≤ maxLiteral) : ofWord (numeral n) = .literal n := by
  have hDigits : (numeral n).all Char.isDigit = true :=
    List.all_eq_true.2 fun c hc => isDigit_of_mem_numeral hc
  rw [ofWord, hDigits, value_numeral]
  simp [h]

/-- The canonical text of a pool is read as its dice. -/
theorem ofWord_chars {p : Pool} (h : p.toDraft.Fits) :
    ofWord p.chars = .dice { pool := p.tidy } := by
  have hDigits : p.chars.all Char.isDigit = false :=
    List.all_eq_false.2 ⟨'d', p.d_mem_chars, by decide⟩
  rw [ofWord, hDigits, p.toLower_chars, Pool.ofChars_chars h]
  rfl

end Operand
end DiceTray
