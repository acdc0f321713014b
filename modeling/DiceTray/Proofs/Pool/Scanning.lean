import DiceTray.Pool.Mark
import DiceTray.Proofs.Pool.RollTerm

/-! The scanner on the letters of roll terms. A figure or a sigil at the front of a text is one
token, provided that what follows cannot lengthen it; and every token is written as its mark
demands. -/
namespace DiceTray

def Sigil.mark : Sigil → Mark
  | .e | .bang => .explode
  | .ie | .bangs => .chain
  | .k => .keep
  | .d => .dice
  | .r => .reroll
  | .star => .multiply
  | .t => .target

/-- No affix begins with a digit, so a figure before it ends there. -/
theorem Affix.isDigit_head?_chars (a : Affix) (rest : List Char) :
    ∀ c ∈ (a.chars ++ rest).head?, c.isDigit = false := by
  rw [Affix.head?_chars]
  cases a.sigil <;> simp [Sigil.chars]

theorem Affix.isDigit_head?_flatMap (affixes : List Affix) :
    ∀ c ∈ (affixes.flatMap Affix.chars).head?, c.isDigit = false := by
  cases affixes with
  | nil => simp
  | cons a rest =>
      rw [List.flatMap_cons]
      exact a.isDigit_head?_chars _

theorem Figure.head?_ne_of_not_isDigit {limit : Nat} (f : Figure limit) (rest : List Char)
    {c : Char} (h : c.isDigit = false) : (f.digits ++ rest).head? ≠ some c := by
  rcases f with ⟨_ | ⟨d, ds⟩, hNe, hDigit, _⟩
  · exact absurd rfl hNe
  · have hd : d.isDigit = true := hDigit d (by simp)
    simp only [List.cons_append, List.head?_cons, ne_eq, Option.some.injEq]
    rintro rfl
    rw [h] at hd
    cases hd

/-- In paired affixes a lone exclamation mark is not followed by another. -/
theorem Affix.head?_amount_ne {a : Affix} {rest : List Affix}
    (h : (a :: rest).IsChain Affix.MayPrecede) (hSigil : a.sigil = .bang) :
    (a.amount?.elim [] Figure.digits ++ rest.flatMap Affix.chars).head? ≠ some '!' := by
  cases hAmount : a.amount? with
  | some f => exact f.head?_ne_of_not_isDigit _ (by decide)
  | none =>
      cases rest with
      | nil => simp
      | cons b later =>
          rw [Option.elim_none, List.nil_append, List.flatMap_cons, Affix.head?_chars]
          exact Affix.head?_ne_of_mayPrecede (List.isChain_cons_cons.1 h).1 hSigil hAmount

/-- A text begins with a number exactly if it begins with a digit. -/
theorem Mark.front_eq_number_iff (c : Char) (cs : List Char) :
    (Mark.front c cs).1 = .number ↔ c.isDigit = true := by
  unfold Mark.front
  split
  · simp_all
  · split
    all_goals try split
    all_goals simp_all

namespace Token

/-- A figure that no digit follows is scanned as one number. -/
theorem scan_figure (start : Nat) {limit : Nat} (f : Figure limit) (rest : List Char)
    (h : ∀ c ∈ rest.head?, c.isDigit = false) :
    scan start (f.digits ++ rest) =
      ⟨.number, f.digits, start⟩ :: scan (start + byteLength f.digits) rest := by
  rcases f with ⟨_ | ⟨d, ds⟩, hNe, hDigit, _⟩
  · exact absurd rfl hNe
  · exact scan_digits start (hDigit d (by simp)) (fun c hc => hDigit c (by simp [hc])) h

/-- A lone exclamation mark must not be followed by another; every other sigil stands by itself. -/
theorem scan_sigil (start : Nat) (s : Sigil) (rest : List Char)
    (h : s = .bang → rest.head? ≠ some '!') :
    scan start (s.chars ++ rest) =
      ⟨s.mark, s.chars, start⟩ :: scan (start + byteLength s.chars) rest := by
  cases s <;> simp_all [Sigil.chars, Sigil.mark, scan_cons, Mark.front]

/-- The first of some affixes is scanned as its sigil, and its figure and the others after it. -/
theorem scan_affixes (start : Nat) {a : Affix} {rest : List Affix}
    (h : (a :: rest).IsChain Affix.MayPrecede) :
    scan start ((a :: rest).flatMap Affix.chars) =
      ⟨a.sigil.mark, a.sigil.chars, start⟩ :: scan (start + byteLength a.sigil.chars)
        (a.amount?.elim [] Figure.digits ++ rest.flatMap Affix.chars) := by
  rw [List.flatMap_cons, Affix.chars, List.append_assoc,
    scan_sigil _ _ _ (Affix.head?_amount_ne h)]

theorem scan_times (start : Nat) (rest : List Char) :
    scan start ('x' :: rest) = ⟨.times, ['x'], start⟩ :: scan (start + byteLength ['x']) rest := by
  simp [scan_cons, Mark.front]

theorem scan_dice (start : Nat) (rest : List Char) :
    scan start ('d' :: rest) = ⟨.dice, ['d'], start⟩ :: scan (start + byteLength ['d']) rest := by
  simp [scan_cons, Mark.front]

theorem scan_percent (start : Nat) (rest : List Char) :
    scan start ('%' :: rest) =
      ⟨.percent, ['%'], start⟩ :: scan (start + byteLength ['%']) rest := by
  simp [scan_cons, Mark.front]

/-- A text that does not begin with a digit has no number at its front. -/
theorem mark_ne_number_of_head? {start : Nat} {cs : List Char}
    (h : ∀ c ∈ cs.head?, c.isDigit = false) :
    ∀ t ∈ (scan start cs).head?, t.mark ≠ .number := by
  cases cs with
  | nil => simp
  | cons c cs =>
      have hc : c.isDigit = false := h c (by simp)
      rw [scan_cons]
      simp [Mark.front_eq_number_iff, hc]

end Token

/-- The letters that a mark can stand for. Nothing is said of strays. -/
def Mark.Writes : Mark → List Char → Prop
  | .number, text => text ≠ [] ∧ ∀ c ∈ text, c.isDigit = true
  | .times, text => text = ['x']
  | .percent, text => text = ['%']
  | .stray, _ => True
  | mark, text => ∃ s : Sigil, s.mark = mark ∧ s.chars = text

/-- A mark takes characters that write it. -/
theorem Mark.writes_front (c : Char) (cs : List Char) :
    (Mark.front c cs).1.Writes (c :: cs.take (Mark.front c cs).2) := by
  by_cases hc : c.isDigit = true
  · have hRun : cs.take (cs.takeWhile Char.isDigit).length = cs.takeWhile Char.isDigit :=
      (List.prefix_iff_eq_take.1 (List.takeWhile_prefix _)).symm
    simp only [Mark.front, hc, if_true, hRun, Mark.Writes]
    refine ⟨by simp, ?_⟩
    intro d hd
    rcases List.mem_cons.1 hd with rfl | hd
    · exact hc
    · exact List.all_eq_true.1 List.all_takeWhile d hd
  · unfold Mark.front
    rw [if_neg hc]
    split
    · simp [Mark.Writes]
    · exact ⟨.d, rfl, by simp [Sigil.chars]⟩
    · simp [Mark.Writes]
    · exact ⟨.e, rfl, by simp [Sigil.chars]⟩
    · split
      · rename_i hNext
        obtain ⟨rest, rfl⟩ := List.head?_eq_some_iff.1 hNext
        exact ⟨.bangs, rfl, by simp [Sigil.chars]⟩
      · exact ⟨.bang, rfl, by simp [Sigil.chars]⟩
    · split
      · rename_i hNext
        obtain ⟨rest, rfl⟩ := List.head?_eq_some_iff.1 hNext
        exact ⟨.ie, rfl, by simp [Sigil.chars]⟩
      · trivial
    · exact ⟨.k, rfl, by simp [Sigil.chars]⟩
    · exact ⟨.r, rfl, by simp [Sigil.chars]⟩
    · exact ⟨.star, rfl, by simp [Sigil.chars]⟩
    · exact ⟨.t, rfl, by simp [Sigil.chars]⟩
    · trivial

/-- Whatever is scanned is written by its own text. -/
theorem Token.writes_of_mem_scan {start : Nat} {cs : List Char} {t : Token}
    (h : t ∈ scan start cs) : t.mark.Writes t.text := by
  fun_induction scan start cs with
  | case1 => simp at h
  | case2 start c cs mark more hFront text ih =>
      rcases List.mem_cons.1 h with rfl | h
      · have hWrites := Mark.writes_front c cs
        rw [hFront] at hWrites
        exact hWrites
      · exact ih h

end DiceTray
