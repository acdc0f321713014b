import DiceTray.Section.Reading
import DiceTray.Text.Fields

/-!
Scripts: sections between commas. Every text is a script, for what is not a number or a roll term
is kept as plain text. Rolling a script rolls its sections in order.
-/
namespace DiceTray
open Text

/-- What one line of play describes. -/
structure Script where
  sections : List Section
deriving DecidableEq, Repr

namespace Script

variable {σ : Type}

/-- The script that a text describes. A text with nothing in it, not even a comma, has no
section. -/
def ofChars (cs : List Char) : Script :=
  match (fields ',' cs).map Section.read with
  | [only] => if only.isBare then ⟨[]⟩ else ⟨[only]⟩
  | sections => ⟨sections⟩

def read (text : String) : Script := ofChars text.toList

def chars (s : Script) : List Char := [',', ' '].intercalate (s.sections.map Section.chars)

def text (s : Script) : String := String.ofList s.chars

/-- Draws fresh dice for every section, in order. -/
def roll (t : Table σ) (s : Script) : StateM σ Script :=
  return ⟨← s.sections.mapM (Section.roll t)⟩

def outcomes (s : Script) : List Outcome := s.sections.map Section.outcome

end Script
end DiceTray
