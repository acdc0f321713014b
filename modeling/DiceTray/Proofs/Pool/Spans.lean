import DiceTray.Proofs.Pool.Places

/-! Where tokens stand in a text. The scanner counts bytes; the place of a token is that of its
letters between the texts of the tokens before it and those after it, and a number is never cut off
from digits beside it. -/
namespace DiceTray

/-- The number of bytes counted character by character is that of the whole text. -/
theorem byteLength_eq (cs : List Char) : byteLength cs = (String.ofList cs).utf8ByteSize := by
  induction cs with
  | nil => rfl
  | cons c cs ih =>
      rw [String.ofList_cons, String.utf8ByteSize_append, ← ih, String.utf8ByteSize_singleton]
      rfl

namespace Token

/-- Where a token stands in a text: its bytes are those of its own text, and a number takes in all
digits around it. -/
structure StandsBetween (t : Token) (left right : List Char) : Prop where
  start_eq : t.start = (String.ofList left).utf8ByteSize
  stop_eq : t.stop = (String.ofList (left ++ t.text)).utf8ByteSize
  digits : t.mark = .number → ∀ c ∈ t.text, c.isDigit = true
  left_ends : t.mark = .number → ∀ c ∈ left.getLast?, c.isDigit = false
  right_ends : t.mark = .number → ∀ c ∈ right.head?, c.isDigit = false

end Token

/-- A number goes on as long as there are digits. -/
theorem Mark.head?_drop_front {c : Char} {cs : List Char} (h : (front c cs).1 = .number) :
    ∀ d ∈ (cs.drop (front c cs).2).head?, d.isDigit = false := by
  rw [front_eq_number_iff] at h
  have hMore : (front c cs).2 = (cs.takeWhile Char.isDigit).length := by simp [front, h]
  have hDrop : cs.drop (front c cs).2 = cs.dropWhile Char.isDigit := by
    rw [hMore]
    nth_rewrite 2 [← List.takeWhile_append_dropWhile (p := Char.isDigit) (l := cs)]
    exact List.drop_left
  intro d hd
  have hNot := List.head?_dropWhile_not Char.isDigit cs
  rw [← hDrop, hd] at hNot
  simpa using hNot

/-- Any other mark takes at most one more character, and no digit. -/
theorem Mark.front_snd_of_not_isDigit {c : Char} (cs : List Char) (h : c.isDigit = false) :
    (front c cs).2 = 0 ∨ ∃ d rest, cs = d :: rest ∧ d.isDigit = false ∧ (front c cs).2 = 1 := by
  unfold front
  rw [if_neg (by rw [h]; exact Bool.false_ne_true)]
  split
  case h_5 =>
    split
    · rename_i hNext
      obtain ⟨rest, rfl⟩ := List.head?_eq_some_iff.1 hNext
      exact .inr ⟨'!', rest, rfl, by decide, rfl⟩
    · exact .inl rfl
  case h_6 =>
    split
    · rename_i hNext
      obtain ⟨rest, rfl⟩ := List.head?_eq_some_iff.1 hNext
      exact .inr ⟨'e', rest, rfl, by decide, rfl⟩
    · exact .inl rfl
  all_goals exact .inl rfl

/-- A mark that is no number takes no digits. -/
theorem Mark.not_isDigit_of_mem_front {c : Char} {cs : List Char} (h : (front c cs).1 ≠ .number) :
    ∀ d ∈ c :: cs.take (front c cs).2, d.isDigit = false := by
  rw [ne_eq, front_eq_number_iff, Bool.not_eq_true] at h
  obtain hMore | ⟨d, rest, rfl, hd, hMore⟩ := front_snd_of_not_isDigit cs h
  · simpa [hMore] using h
  · simpa [hMore] using ⟨h, hd⟩

namespace Token

/-- No run of digits goes across the place between the two texts. -/
def CutsDigits (left right : List Char) : Prop :=
  ∀ c ∈ left.getLast?, c.isDigit = true → ∀ d ∈ right.head?, d.isDigit = false

theorem cutsDigits_nil (right : List Char) : CutsDigits [] right := nofun

/-- A mark never ends within a run of digits: a number takes the whole run, and other marks take
none of it. -/
theorem cutsDigits_front {c : Char} {cs : List Char} (left : List Char) :
    CutsDigits (left ++ c :: cs.take (Mark.front c cs).2) (cs.drop (Mark.front c cs).2) := by
  intro a ha hDigit
  by_cases hMark : (Mark.front c cs).1 = .number
  · exact Mark.head?_drop_front hMark
  · rw [List.getLast?_append_of_ne_nil _ (List.cons_ne_nil _ _)] at ha
    have hOther := Mark.not_isDigit_of_mem_front hMark a (List.mem_of_getLast? ha)
    rw [hOther] at hDigit
    cases hDigit

/-- Each token stands behind the ones before it, and in front of the ones after it. -/
theorem standsBetween_of_scan {left cs : List Char} (hCut : CutsDigits left cs)
    {before after : List Token} {t : Token}
    (h : scan (byteLength left) cs = before ++ t :: after) :
    t.StandsBetween (left ++ before.flatMap text) (after.flatMap text) := by
  -- Each token that is passed goes over to the text on the left, which then ends where a run of
  -- digits ends, if it ends in digits.
  induction before generalizing left cs with
  | nil =>
      cases cs with
      | nil => rw [scan_nil] at h; cases h
      | cons c cs =>
          rw [scan_cons] at h
          cases h
          rw [flatMap_text_scan, List.flatMap_nil, List.append_nil]
          exact {
            start_eq := byteLength_eq left
            stop_eq := by rw [← byteLength_eq, byteLength_append]; rfl
            digits := fun (hMark : (Mark.front c cs).1 = .number) => by
              have hWrites := Mark.writes_front c cs
              rw [hMark] at hWrites
              exact hWrites.2
            left_ends := fun hMark d hd => by
              by_contra hDigit
              have hc := hCut d hd (by simpa using hDigit) c rfl
              rw [← Bool.not_eq_true, ← Mark.front_eq_number_iff c cs] at hc
              exact hc hMark
            right_ends := Mark.head?_drop_front }
  | cons u before ih =>
      cases cs with
      | nil => rw [scan_nil] at h; cases h
      | cons c cs =>
          rw [scan_cons, List.cons_append] at h
          obtain ⟨rfl, hRest⟩ := List.cons.inj h
          rw [← byteLength_append] at hRest
          have hStands := ih (cutsDigits_front left) hRest
          rwa [List.append_assoc] at hStands

end Token

end DiceTray
