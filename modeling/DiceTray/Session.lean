import DiceTray.Script
import DiceTray.Style

/-!
Interactive sessions. Lines are gathered until an empty line submits them; then they are read as one
script and rolled, and the outcomes are shown in Markdown. Nothing of a submission is left for the
next one.
-/
namespace DiceTray
open Text

namespace Session

variable {σ : Type}

/-- Shown where a submission may start. -/
def prompt : List Char := ['>', ' ']

/-- Shown where a submission may go on. -/
def morePrompt : List Char := ['.', '.', '.', ' ']

def gather (pending line : List Char) : List Char :=
  if pending.isEmpty then line else pending ++ ' ' :: line

/-- The outcomes of what was gathered. -/
def submit (t : Table σ) (pending : List Char) : StateM σ (List Char) := do
  let script ← (Script.ofChars (trim pending)).roll t
  return Style.markdown.outcomes script.outcomes

/-- One line: what is shown in answer, and what is then gathered. -/
def step (t : Table σ) (pending line : List Char) : StateM σ (List Char × List Char) :=
  if line.isEmpty then do
    return ((← submit t pending) ++ '\n' :: prompt, [])
  else return (morePrompt, gather pending line)

def run (t : Table σ) (pending : List Char) : List (List Char) → StateM σ (List Char)
  | [] => return []
  | line :: rest => do
    let (shown, pending) ← step t pending line
    return shown ++ (← run t pending rest)

/-- Everything that a session shows that is fed a text. -/
def transcript (t : Table σ) (text : List Char) : StateM σ (List Char) :=
  return prompt ++ (← run t [] (lines text))

end Session
end DiceTray
