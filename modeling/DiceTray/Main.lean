import DiceTray.Session
import DiceTray.Play

/-!
The program: a session on standard input and output, with dice seeded by the system.
-/
namespace DiceTray

def put (text : List Char) : IO Unit := do
  let out ← IO.getStdout
  out.putStr (String.ofList text)
  out.flush

/-- Answers lines until the input ends or cannot be read. -/
partial def answerLines (seed : UInt64) (pending : List Char) : IO Unit := do
  let input ← try (← IO.getStdin).getLine catch _ => pure ""
  match Text.lines input.toList with
  | [] => return
  | line :: _ =>
    let ((shown, pending), seed) := Session.step Mixer.table pending line seed
    put shown
    answerLines seed pending

end DiceTray

def main : IO Unit := do
  let bytes ← IO.getRandomBytes 8
  let seed := bytes.toList.foldl (fun seed byte => seed * 256 + byte.toUInt64) 0
  DiceTray.put DiceTray.Session.prompt
  DiceTray.answerLines seed []
