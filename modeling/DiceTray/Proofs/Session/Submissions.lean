import DiceTray.Proofs.Script.Layout
import DiceTray.Session
import DiceTray.Shaker.Tape
import Mathlib.Data.List.DropRight

/-! A session is the sequence of what its empty lines submit. The text that a session has gathered
is told by the lines since the last empty one, so what it shows in answer to a line is told by the
lines before that, and a session that ends at an empty line leaves nothing to a later one. -/
namespace DiceTray
open Text

namespace Session

variable {σ : Type}

/-- The lines since the last empty one. -/
def gathered (before : List (List Char)) : List (List Char) :=
  before.rtakeWhile fun line => decide (line ≠ [])

def pending (before : List (List Char)) : List Char := [' '].intercalate (gathered before)

/-- The script that an empty line submits after other lines. -/
def submission (before : List (List Char)) : Script := Script.ofChars (trim (pending before))

def shown (script : Script) : List Char :=
  Style.markdown.outcomes script.outcomes ++ ['\n', '>', ' ']

/-- What is shown in answer to a line after others. -/
def answer (t : Table σ) (before : List (List Char)) (line : List Char) : StateM σ (List Char) :=
  if line = [] then shown <$> (submission before).roll t else return ['.', '.', '.', ' ']

/-- A line that is not empty is gathered behind the ones before it. -/
theorem gathered_concat {line : List Char} (before : List (List Char)) (h : line ≠ []) :
    gathered (before ++ [line]) = gathered before ++ [line] :=
  List.rtakeWhile_concat_pos _ _ _ (decide_eq_true h)

/-- Nothing is gathered after an empty line. -/
theorem pending_concat_nil (before : List (List Char)) : pending (before ++ [[]]) = [] := by
  rw [pending, gathered, List.rtakeWhile_concat_neg _ _ _ (by simp)]
  rfl

theorem ne_nil_of_mem_gathered {before : List (List Char)} {line : List Char}
    (h : line ∈ gathered before) : line ≠ [] := by
  have hLine := List.mem_rtakeWhile_imp (p := fun line : List Char => decide (line ≠ [])) h
  exact of_decide_eq_true hLine

/-- Gathering a line keeps the gathered text that of the lines since the last empty one. -/
theorem gather_pending {line : List Char} (before : List (List Char)) (h : line ≠ []) :
    gather (pending before) line = pending (before ++ [line]) := by
  rw [pending, pending, gathered_concat before h]
  cases hGathered : gathered before with
  | nil => simp [gather]
  | cons first rest =>
      have hNe : first ≠ [] := ne_nil_of_mem_gathered (hGathered ▸ List.mem_cons_self)
      rw [List.cons_append, intercalate_cons, intercalate_cons, gather, if_neg (by simp [hNe])]
      simp

/-- What a line is answered and what is pending after it are told by the lines before it. -/
theorem step_pending (t : Table σ) (before : List (List Char)) (line : List Char) :
    step t (pending before) line =
      (fun text => (text, pending (before ++ [line]))) <$> answer t before line := by
  by_cases h : line = []
  · subst h
    rw [pending_concat_nil]
    rfl
  · have hEmpty : line.isEmpty = false := by simpa using h
    rw [step, answer, if_neg h, hEmpty, gather_pending before h]
    rfl

theorem run_cons (t : Table σ) (before : List (List Char)) (line : List Char)
    (rest : List (List Char)) :
    run t (pending before) (line :: rest) = do
      let text ← answer t before line
      return text ++ (← run t (pending (before ++ [line])) rest) := by
  rw [run, step_pending]
  simp

/-- Every line is answered, and the answer is told by the lines before it. -/
theorem run_eq (t : Table σ) (before rest : List (List Char)) :
    run t (pending before) rest = List.flatten <$>
      (rest.zipIdx before.length).mapM fun (line, place) =>
        answer t ((before ++ rest).take place) line := by
  induction rest generalizing before with
  | nil => simp [run]
  | cons line rest ih =>
      have hTake : (before ++ line :: rest).take before.length = before := by simp
      have hRest := ih (before ++ [line])
      rw [List.append_assoc, List.singleton_append, List.length_append, List.length_singleton]
        at hRest
      rw [run_cons, List.zipIdx_cons, List.mapM_cons, hRest]
      simp only [hTake]
      simp

/-- Lines can be run in two parts, the second behind what the first left pending. -/
theorem run_append (t : Table σ) (before first second : List (List Char)) :
    run t (pending before) (first ++ second) = do
      let text ← run t (pending before) first
      return text ++ (← run t (pending (before ++ first)) second) := by
  induction first generalizing before with
  | nil => simp [run]
  | cons line first ih =>
      have hRest := ih (before ++ [line])
      rw [List.append_assoc, List.singleton_append] at hRest
      rw [List.cons_append, run_cons, run_cons, hRest]
      simp only [bind_assoc, pure_bind, List.append_assoc]

/-- Lines that are not empty are only gathered. -/
theorem run_of_ne_nil (t : Table σ) (before : List (List Char)) {rest : List (List Char)}
    (h : ∀ line ∈ rest, line ≠ []) :
    run t (pending before) rest = return rest.flatMap fun _ => ['.', '.', '.', ' '] := by
  induction rest generalizing before with
  | nil => rfl
  | cons line rest ih =>
      obtain ⟨hLine, hRest⟩ := List.forall_mem_cons.1 h
      rw [run_cons, answer, if_neg hLine, ih _ hRest]
      rfl

/-- A session starts with nothing gathered. -/
theorem transcript_eq_run (t : Table σ) (text : List Char) :
    transcript t text = (['>', ' '] ++ ·) <$> run t (pending []) (lines text) := rfl

/-- A transcript is made of a prompt and the answers to its lines, each told by the lines before it.
-/
theorem transcript_eq_answers (t : Table σ) (text : List Char) :
    transcript t text = do
      let answers ← (lines text).zipIdx.mapM fun (line, place) =>
        answer t ((lines text).take place) line
      return ['>', ' '] ++ answers.flatten := by
  rw [transcript_eq_run, run_eq]
  simp

/-- Nothing is pending at the start and behind an empty line. -/
theorem pending_eq_nil {before : List (List Char)}
    (h : before = [] ∨ before.getLast? = some []) : pending before = [] := by
  rcases h with rfl | h
  · rfl
  · obtain ⟨earlier, rfl⟩ := List.getLast?_eq_some_iff.1 h
    exact pending_concat_nil earlier

/-- A text that ends in a submission and another can be run one after the other; only the prompt is
shown once. -/
theorem transcript_append (t : Table σ) {p : List Char} (q : List Char)
    (h : p = [] ∨ p.getLast? = some '\n' ∧ (lines p).getLast? = some []) :
    transcript t (p ++ q) = do
      let first ← transcript t p
      let second ← transcript t q
      return first ++ second.drop 2 := by
  have hLines : lines (p ++ q) = lines p ++ lines q :=
    lines_append_of_getLast? q (h.imp_right And.left)
  have hPending : pending (lines p) = [] := by
    refine pending_eq_nil ?_
    rcases h with rfl | h
    · exact .inl rfl
    · exact .inr h.2
  rw [transcript_eq_run, transcript_eq_run, transcript_eq_run, hLines, run_append, List.nil_append,
    hPending]
  simp [pending, gathered]

/-- Lines that no empty line comes after are gathered, and nothing comes of them. -/
theorem transcript_of_unsubmitted (t : Table σ) {p q : List Char} {rest : List (List Char)}
    (hLines : lines q = lines p ++ rest) (h : ∀ line ∈ rest, line ≠ []) :
    transcript t q = do
      let first ← transcript t p
      return first ++ rest.flatMap fun _ => ['.', '.', '.', ' '] := by
  rw [transcript_eq_run, transcript_eq_run, hLines, run_append, run_of_ne_nil t _ h]
  simp

theorem strip_intercalate {joint : List Char} (h : strip joint = []) (ls : List (List Char)) :
    strip (joint.intercalate ls) = strip ls.flatten := by
  induction ls with
  | nil => rfl
  | cons first ls ih =>
      cases ls with
      | nil => simp
      | cons second ls =>
          rw [List.intercalate_cons_cons, strip_append, strip_append, h, ih, List.append_nil,
            List.flatten_cons (l := first), strip_append]

/-- Without a parenthesis it does not matter where a script is broken into lines. -/
theorem submission_eq {ls : List (List Char)} {cs : List Char} (hNe : ∀ line ∈ ls, line ≠ [])
    (hOpen : '(' ∉ cs) (hStrip : strip ls.flatten = strip cs) :
    submission ls = Script.ofChars cs := by
  have hGathered : gathered ls = ls :=
    List.rtakeWhile_eq_self_iff.2 fun line hLine => decide_eq_true (hNe line hLine)
  have hTrim : strip (trim (pending ls)) = strip cs := by
    rw [strip_trim, pending, hGathered, strip_intercalate (by decide), hStrip]
  have hTrimOpen : '(' ∉ trim (pending ls) := by
    intro hMem
    have hInk : '(' ∈ strip (trim (pending ls)) := mem_strip.2 ⟨hMem, by decide⟩
    rw [hTrim] at hInk
    exact hOpen (mem_strip.1 hInk).1
  rw [submission, ← Script.ofChars_strip hTrimOpen, hTrim, Script.ofChars_strip hOpen]

/-- A text that was broken into lines is rolled as a whole, and shown behind one continuation for
each line. -/
theorem transcript_of_broken (t : Table σ) {text cs : List Char} {ls : List (List Char)}
    (hLines : lines text = ls ++ [[]]) (hNe : ∀ line ∈ ls, line ≠ []) (hOpen : '(' ∉ cs)
    (hStrip : strip ls.flatten = strip cs) :
    transcript t text = do
      let rolled ← (Script.ofChars cs).roll t
      return ['>', ' '] ++ (ls.flatMap fun _ => ['.', '.', '.', ' ']) ++ shown rolled := by
  rw [transcript_eq_run, hLines, run_append, run_of_ne_nil t _ hNe, run_cons, List.nil_append,
    answer, if_pos rfl, submission_eq hNe hOpen hStrip]
  simp [run]

end Session

/-- A script without dice is rolled without a draw. -/
theorem Script.roll_of_throws_eq_nil {σ : Type} (t : Table σ) {s : Script} (h : s.throws = []) :
    s.roll t = pure s := by
  funext state
  refine Script.roll_run_eq_iff.2 ⟨rfl, ?_⟩
  rw [h]
  rfl

namespace Session

variable {σ : Type}

/-- No empty line of the text submits dice. -/
def SubmitsNoDice (text : List Char) : Prop :=
  ∀ place (_ : place < (lines text).length), (lines text)[place] = [] →
    (submission ((lines text).take place)).throws = []

instance (text : List Char) : Decidable (SubmitsNoDice text) :=
  inferInstanceAs (Decidable (∀ place (_ : place < (lines text).length), _ → _))

/-- Where no dice are submitted, nothing is drawn. -/
theorem transcript_of_submitsNoDice (t : Table σ) {text : List Char} (h : SubmitsNoDice text) :
    transcript t text = return ['>', ' '] ++ (lines text).zipIdx.flatMap fun (line, place) =>
      if line = [] then shown (submission ((lines text).take place)) else ['.', '.', '.', ' '] := by
  have hAnswers : ∀ entry ∈ (lines text).zipIdx,
      answer t ((lines text).take entry.2) entry.1 = pure
        (if entry.1 = [] then shown (submission ((lines text).take entry.2))
          else ['.', '.', '.', ' ']) := by
    rintro ⟨line, place⟩ hEntry
    obtain ⟨hPlace, hLine⟩ := List.getElem?_eq_some_iff.1 (List.mem_zipIdx_iff_getElem?.1 hEntry)
    by_cases hEmpty : line = []
    · have hThrows := h place hPlace (hLine.trans hEmpty)
      rw [answer, if_pos hEmpty, if_pos hEmpty, Script.roll_of_throws_eq_nil t hThrows]
      rfl
    · rw [answer, if_neg hEmpty, if_neg hEmpty]
  rw [transcript_eq_answers, mapM_eq_pure hAnswers, pure_bind, List.flatMap]

/-- A session shows a prompt and then answers each line. A line that is not empty is only gathered,
and an empty line rolls the script in the lines since the last empty one; where these have no dice,
nothing is drawn. A text that ends at an empty line leaves nothing to the text after it, lines that
no empty line comes after are not rolled, and without a parenthesis it does not matter where a
script is broken into lines. A line ends at a line feed, and a carriage return before that belongs
to the end. -/
theorem transcript_by_submissions (t : Table σ) :
    (∀ text, transcript t text = do
      let answers ← (lines text).zipIdx.mapM fun (line, place) =>
        answer t ((lines text).take place) line
      return ['>', ' '] ++ answers.flatten) ∧
    (∀ text, SubmitsNoDice text →
      transcript t text = return ['>', ' '] ++ (lines text).zipIdx.flatMap fun (line, place) =>
        if line = [] then shown (submission ((lines text).take place))
        else ['.', '.', '.', ' ']) ∧
    (∀ p q, (p = [] ∨ p.getLast? = some '\n' ∧ (lines p).getLast? = some []) →
      transcript t (p ++ q) = do
        let first ← transcript t p
        let second ← transcript t q
        return first ++ second.drop 2) ∧
    (∀ p q rest, lines q = lines p ++ rest → (∀ line ∈ rest, line ≠ []) →
      transcript t q = do
        let first ← transcript t p
        return first ++ rest.flatMap fun _ => ['.', '.', '.', ' ']) ∧
    (∀ text cs ls, lines text = ls ++ [[]] → (∀ line ∈ ls, line ≠ []) → '(' ∉ cs →
      strip ls.flatten = strip cs →
      transcript t text = do
        let rolled ← (Script.ofChars cs).roll t
        return ['>', ' '] ++ (ls.flatMap fun _ => ['.', '.', '.', ' ']) ++ shown rolled) ∧
    ∀ line, '\n' ∉ line →
      lines line = (if line = [] then [] else [line]) ∧
      ∀ rest, lines (line ++ '\r' :: '\n' :: rest) = line :: lines rest ∧
        (line.getLast? ≠ some '\r' → lines (line ++ '\n' :: rest) = line :: lines rest) := by
  refine ⟨transcript_eq_answers t, fun _ => transcript_of_submitsNoDice t,
    fun _ q => transcript_append t q, fun _ _ _ => transcript_of_unsubmitted t,
    fun _ _ _ => transcript_of_broken t, fun line hLine => ⟨lines_of_not_mem hLine, fun rest => ?_⟩⟩
  exact ⟨lines_line_return rest hLine, lines_line_feed rest hLine⟩

/-- A number is submitted over two lines, and then dice over two lines, with an empty line after
them and without one. -/
theorem transcript_by_submissions_of_two_line_texts :
    let t : Table Nat := { shaker := Tape.highest }
    let number := "(a) 2 +\r\n 3\n\n".toList
    let dice := "2d\r\n6".toList
    SubmitsNoDice number ∧
      transcript t number = (return "> ... ... (a) 2 + 3 = `5`\n> ".toList) ∧
      lines dice = ["2d".toList, "6".toList] ∧
      transcript t (number ++ dice) =
        (return "> ... ... (a) 2 + 3 = `5`\n> ... ... ".toList) ∧
      transcript t (dice ++ "\n\n".toList) = do
        let rolled ← (Script.read "2d6").roll t
        return "> ... ... ".toList ++ shown rolled := by
  intro t number dice
  obtain ⟨-, hQuiet, hAppend, hUnsubmitted, hBroken, hLines⟩ := transcript_by_submissions t
  have hNumber : SubmitsNoDice number := by decide +kernel
  have hShown : transcript t number = pure "> ... ... (a) 2 + 3 = `5`\n> ".toList :=
    (hQuiet number hNumber).trans (congrArg pure (by decide +kernel))
  have hDice : lines dice = ["2d".toList, "6".toList] :=
    ((hLines "2d".toList (by decide)).2 "6".toList).1.trans
      (congrArg _ ((hLines "6".toList (by decide)).1))
  have hGathered : transcript t dice = pure "> ... ... ".toList :=
    hUnsubmitted [] dice _ hDice (by decide)
  have hJoined := hAppend number dice (.inr (by decide))
  rw [hShown, hGathered] at hJoined
  have hSubmitted := hBroken (dice ++ "\n\n".toList) "2d6".toList ["2d".toList, "6".toList]
    (by decide) (by decide) (by decide) (by decide)
  exact ⟨hNumber, hShown, hDice, hJoined, hSubmitted⟩

end Session
end DiceTray
