/-!
Marks: the smallest pieces that a roll term is made of. `Token.scan` cuts a text into tokens,
always taking the longest mark that fits; a character that starts no mark is a stray of its own.
Nothing is lost: the texts of the tokens join to the text that was scanned (`flatMap_text_scan`).
-/
namespace DiceTray

/-- The kinds of token in a roll term. -/
inductive Mark where
  /-- A run of decimal digits. -/
  | number
  | times
  /-- Stands between count and sides, and for dropping among the suffixes. -/
  | dice
  | percent
  | explode
  | chain
  | keep
  | reroll
  | multiply
  | target
  /-- A character that starts no mark. -/
  | stray
deriving DecidableEq, Repr

/-- The mark's name in messages. A stray is never asked for by name. -/
def Mark.name : Mark → String
  | .number => "<number>"
  | .times => "'x'"
  | .dice => "'d'"
  | .percent => "'%'"
  | .explode => "'e'"
  | .chain => "'ie'"
  | .keep => "'k'"
  | .reroll => "'r'"
  | .multiply => "'*'"
  | .target => "'t'"
  | .stray => "<stray>"

/-- The longest mark at the front of `c :: cs`, and how many characters of `cs` it takes. -/
def Mark.front (c : Char) (cs : List Char) : Mark × Nat :=
  if c.isDigit then (.number, (cs.takeWhile Char.isDigit).length)
  else match c with
  | 'x' => (.times, 0)
  | 'd' => (.dice, 0)
  | '%' => (.percent, 0)
  | 'e' => (.explode, 0)
  | '!' => if cs.head? = some '!' then (.chain, 1) else (.explode, 0)
  | 'i' => if cs.head? = some 'e' then (.chain, 1) else (.stray, 0)
  | 'k' => (.keep, 0)
  | 'r' => (.reroll, 0)
  | '*' => (.multiply, 0)
  | 't' => (.target, 0)
  | _ => (.stray, 0)

def byteLength (cs : List Char) : Nat := cs.foldr (fun c n => c.utf8Size + n) 0

/-- A mark with its characters and the byte at which they start. -/
structure Token where
  mark : Mark
  text : List Char
  start : Nat
deriving DecidableEq, Repr

namespace Token

def stop (t : Token) : Nat := t.start + byteLength t.text

/-- The token as messages show it: a stray by its own text, any other by the name of its mark. -/
def shown (t : Token) : List Char :=
  if t.mark = .stray then t.text else t.mark.name.toList

/-- The tokens of a text whose first character is at byte `start`. -/
def scan (start : Nat) : List Char → List Token
  | [] => []
  | c :: cs =>
    let (mark, more) := Mark.front c cs
    let text := c :: cs.take more
    ⟨mark, text, start⟩ :: scan (start + byteLength text) (cs.drop more)
termination_by cs => cs.length
decreasing_by simp only [List.length_drop, List.length_cons]; omega

@[simp] theorem scan_nil (start : Nat) : scan start [] = [] := by rw [scan]

/-- The token at the front is cut off, and the scan goes on behind it as many bytes further. -/
theorem scan_cons (start : Nat) (c : Char) (cs : List Char) :
    scan start (c :: cs) =
      ⟨(Mark.front c cs).1, c :: cs.take (Mark.front c cs).2, start⟩ ::
        scan (start + byteLength (c :: cs.take (Mark.front c cs).2))
          (cs.drop (Mark.front c cs).2) := by
  rw [scan]

/-- The texts of the tokens join to the text that was scanned. -/
theorem flatMap_text_scan (start : Nat) (cs : List Char) :
    (scan start cs).flatMap text = cs := by
  fun_induction scan start cs with
  | case1 => rfl
  | case2 start c cs mark more front text ih =>
    rw [List.flatMap_cons, ih]
    simp [text]

/-- A run of digits that no digit follows is one token. -/
theorem scan_digits (start : Nat) {d : Char} {ds rest : List Char}
    (hd : d.isDigit = true) (hds : ∀ c ∈ ds, c.isDigit = true)
    (hrest : ∀ c ∈ rest.head?, c.isDigit = false) :
    scan start (d :: ds ++ rest) =
      ⟨.number, d :: ds, start⟩ :: scan (start + byteLength (d :: ds)) rest := by
  have hrun : (ds ++ rest).takeWhile Char.isDigit = ds := by
    rw [List.takeWhile_append_of_pos hds]
    cases rest with
    | nil => simp
    | cons c cs => simp [hrest c (by simp)]
  rw [List.cons_append, scan_cons]
  simp [Mark.front, hd, hrun]

end Token
end DiceTray
