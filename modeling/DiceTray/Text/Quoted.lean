import DiceTray.Text.Visible

/-!
A text between double quotes, as messages show it. The quote, the backslash and the common
controls have short escapes; any other character that is not plainly visible is written by its
hexadecimal code point.
-/
namespace DiceTray.Text

/-- The code point in lower-case hexadecimal between braces. -/
def codePointEscape (c : Char) : List Char :=
  ['\\', 'u', '\x7b'] ++ Nat.toDigits 16 c.toNat ++ ['\x7d']

def quotedChar (c : Char) : List Char :=
  match c with
  | '"' => ['\\', '"']
  | '\\' => ['\\', '\\']
  | '\x00' => ['\\', '0']
  | '\t' => ['\\', 't']
  | '\n' => ['\\', 'n']
  | '\r' => ['\\', 'r']
  | c => if isPlainlyVisible c then [c] else codePointEscape c

/-- The text between double quotes, escaped where needed. -/
def quoted (cs : List Char) : List Char := '"' :: cs.flatMap quotedChar ++ ['"']

end DiceTray.Text
