import DiceTray.Section.Basic
import DiceTray.Shaker.Tape
import Mathlib.Data.List.Forall2
import Mathlib.Data.List.Infix

/-! The total of a section and the exact sum. A total is clamped after every operand, so it can
drift from the exact sum once a running sum leaves the range, and the drift stays when the sum comes
back. While no running sum leaves the range nothing is clamped. Clamped or not, a step is monotone
in the total before it and in the signed value that it adds, and so is the whole. -/
namespace DiceTray

variable {σ τ : Type}

/-- The sign of an operand; the first counts as added. -/
def Joint.factor : Joint → Int
  | .signed .minus => -1
  | .lead | .signed .plus => 1

/-- What one operand has to do with the total: how it joins the ones before it, and its value. -/
abbrev Entry := Joint × Int

def exactSum (entries : List Entry) : Int :=
  entries.foldr (fun e rest => e.1.factor * e.2 + rest) 0

/-- No running sum leaves the range of totals. -/
def StaysInRange (entries : List Entry) : Prop := ∀ front ∈ entries.inits, IsTotal (exactSum front)

instance (entries : List Entry) : Decidable (StaysInRange entries) :=
  inferInstanceAs (Decidable (∀ front ∈ entries.inits, IsTotal (exactSum front)))

def runningTotal (total : Int) (entries : List Entry) : Int :=
  entries.foldl (fun total e => e.1.apply total e.2) total

/-- The entries of the operands that take part in the total, as their dice lie. -/
def Section.entries (s : Section) : List Entry :=
  (s.items.filter fun item => item.operand.scores).map fun item => (item.joint, item.operand.value)

/-- The total of a section is that of its entries, added up in order. -/
theorem Section.total_eq_runningTotal (s : Section) :
    s.outcome.total = runningTotal 0 s.entries := by
  rw [runningTotal, entries, List.foldl_map]
  rfl

/-- A step clamps the total before it with the signed value added. -/
theorem Joint.apply_eq_clampTotal (joint : Joint) (total value : Int) :
    joint.apply total value = clampTotal (total + joint.factor * value) := by
  rcases joint with _ | _ | _
  · rw [factor, Int.one_mul]; rfl
  · rw [factor, Int.one_mul]; rfl
  · rw [factor, Int.neg_one_mul, ← Int.sub_eq_add_neg]; rfl

/-- Clamping keeps the order of numbers. -/
theorem clampTotal_mono {m n : Int} (h : m ≤ n) : clampTotal m ≤ clampTotal n := by
  unfold clampTotal
  omega

/-- A step is monotone in the total before it and in the signed value. -/
theorem Joint.apply_mono {joint joint' : Joint} {total total' value value' : Int}
    (hTotal : total ≤ total') (hValue : joint.factor * value ≤ joint'.factor * value') :
    joint.apply total value ≤ joint'.apply total' value' := by
  rw [apply_eq_clampTotal, apply_eq_clampTotal]
  exact clampTotal_mono (Int.add_le_add hTotal hValue)

theorem exactSum_cons (e : Entry) (entries : List Entry) :
    exactSum (e :: entries) = e.1.factor * e.2 + exactSum entries := rfl

theorem exactSum_singleton (e : Entry) : exactSum [e] = e.1.factor * e.2 := Int.add_zero _

/-- The exact sum does not hang on the order of the entries. -/
theorem exactSum_perm {entries reordered : List Entry} (h : reordered.Perm entries) :
    exactSum reordered = exactSum entries := by
  induction h with
  | nil => rfl
  | cons e _ ih => rw [exactSum_cons, exactSum_cons, ih]
  | swap e f entries =>
      rw [exactSum_cons, exactSum_cons, exactSum_cons, exactSum_cons, Int.add_left_comm]
  | trans _ _ ih ih' => exact ih.trans ih'

/-- A total that is exact stays so while no running sum leaves the range. -/
theorem runningTotal_eq_add_exactSum {entries : List Entry} {total : Int}
    (h : ∀ front ∈ entries.inits, IsTotal (total + exactSum front)) :
    runningTotal total entries = total + exactSum entries := by
  induction entries generalizing total with
  | nil => exact (Int.add_zero total).symm
  | cons e entries ih =>
      have hFirst : e.1.apply total e.2 = total + e.1.factor * e.2 := by
        obtain ⟨hMin, hMax⟩ := h [e] ((List.mem_inits _ _).2 ⟨entries, rfl⟩)
        rw [exactSum_singleton] at hMin hMax
        rw [e.1.apply_eq_clampTotal, clampTotal_of_mem_range hMin hMax]
      have hRest : ∀ front ∈ entries.inits,
          IsTotal (total + e.1.factor * e.2 + exactSum front) := by
        intro front hFront
        rw [Int.add_assoc, ← exactSum_cons]
        refine h _ ((List.mem_inits _ _).2 ?_)
        exact (List.prefix_cons_inj e).2 ((List.mem_inits _ _).1 hFront)
      rw [exactSum_cons, ← Int.add_assoc, ← ih hRest, ← hFirst]
      rfl

/-- If no running sum leaves the range nothing is ever clamped. -/
theorem runningTotal_eq_exactSum {entries : List Entry} (h : StaysInRange entries) :
    runningTotal 0 entries = exactSum entries := by
  have hExact := @runningTotal_eq_add_exactSum entries 0
  simp only [Int.zero_add] at hExact
  exact hExact h

/-- A total stays in range from one entry to the next. -/
theorem isTotal_runningTotal (entries : List Entry) {total : Int} (h : IsTotal total) :
    IsTotal (runningTotal total entries) := by
  induction entries generalizing total with
  | nil => exact h
  | cons e entries ih => exact ih (e.1.apply_mem_range total e.2)

/-- Entries that add no less, one by one, come to no less. -/
theorem runningTotal_mono {entries raised : List Entry} {total total' : Int}
    (hTotal : total ≤ total')
    (h : List.Forall₂ (fun e e' => e.1.factor * e.2 ≤ e'.1.factor * e'.2) entries raised) :
    runningTotal total entries ≤ runningTotal total' raised := by
  induction h generalizing total total' with
  | nil => exact hTotal
  | cons hFirst _ ih => exact ih (Joint.apply_mono hTotal hFirst)

/-- More added makes a total no lower, and more taken away makes it no higher. -/
theorem runningTotal_raise (before after : List Entry) (joint : Joint) {value raised : Int}
    (h : value ≤ raised) :
    (joint ≠ .signed .minus → runningTotal 0 (before ++ (joint, value) :: after) ≤
        runningTotal 0 (before ++ (joint, raised) :: after)) ∧
      (joint = .signed .minus → runningTotal 0 (before ++ (joint, raised) :: after) ≤
        runningTotal 0 (before ++ (joint, value) :: after)) := by
  have hMono : ∀ v w : Int, joint.factor * v ≤ joint.factor * w →
      runningTotal 0 (before ++ (joint, v) :: after) ≤
        runningTotal 0 (before ++ (joint, w) :: after) := by
    intro v w hFactor
    have hSame : ∀ entries : List Entry,
        List.Forall₂ (fun e e' => e.1.factor * e.2 ≤ e'.1.factor * e'.2) entries entries :=
      fun entries => List.forall₂_same.2 fun _ _ => Int.le_refl _
    exact runningTotal_mono (Int.le_refl 0)
      (List.rel_append (hSame before) (List.Forall₂.cons hFactor (hSame after)))
  constructor
  · intro hJoint
    have hFactor : joint.factor = 1 := by
      rcases joint with _ | _ | _
      · rfl
      · rfl
      · exact absurd rfl hJoint
    exact hMono value raised (by rw [hFactor, Int.one_mul, Int.one_mul]; exact h)
  · rintro rfl
    refine hMono raised value ?_
    rw [Joint.factor, Int.neg_one_mul, Int.neg_one_mul]
    exact Int.neg_le_neg h

namespace Section

/-- The total of a section, rolled on any table, next to the exact sum of its entries. The total is
in range. It is the exact sum if no running sum leaves the range; so if it is not, then some running
sum does. Another section, rolled on any other table, has the same total if it has the same entries
in another order and no running sum leaves the range in either order. If it has the same entries but
for one value that is greater, then its total is no lower if that value is added, and no higher if
it is taken away; this holds whether or not anything is clamped. -/
theorem total_near_exactSum (t : Table σ) (s : Section) (state : σ) (u : Table τ) (r : Section)
    (state' : τ) :
    let first := ((s.roll t).run state).1
    let second := ((r.roll u).run state').1
    IsTotal first.outcome.total ∧
      (StaysInRange first.entries → first.outcome.total = exactSum first.entries) ∧
      (first.outcome.total ≠ exactSum first.entries →
        ∃ front ∈ first.entries.inits, ¬ IsTotal (exactSum front)) ∧
      (second.entries.Perm first.entries → StaysInRange first.entries →
        StaysInRange second.entries → second.outcome.total = first.outcome.total) ∧
      ∀ before joint value raised after, first.entries = before ++ (joint, value) :: after →
        second.entries = before ++ (joint, raised) :: after → value ≤ raised →
          (joint ≠ .signed .minus → first.outcome.total ≤ second.outcome.total) ∧
          (joint = .signed .minus → second.outcome.total ≤ first.outcome.total) := by
  intro first second
  rw [first.total_eq_runningTotal, second.total_eq_runningTotal]
  refine ⟨isTotal_runningTotal _ (by decide), runningTotal_eq_exactSum, ?_, ?_, ?_⟩
  · intro hDiffers
    by_contra hNone
    refine hDiffers (runningTotal_eq_exactSum fun front hFront => ?_)
    by_contra hOut
    exact hNone ⟨front, hFront, hOut⟩
  · intro hPerm hFirst hSecond
    rw [runningTotal_eq_exactSum hFirst, runningTotal_eq_exactSum hSecond, exactSum_perm hPerm]
  · intro before joint value raised after hFirst hSecond hRaised
    rw [hFirst, hSecond]
    exact runningTotal_raise before after joint hRaised

/-- A die less the greatest total and the greatest total again comes to the face of the die. So it
does with the die last, and where the die shows a six for a five it comes to no less. -/
theorem total_near_exactSum_of_one_die :
    let pool : Pool := ⟨{ sides := 6 }, by decide, by decide, by decide⟩
    let die : Item := ⟨.signed .plus, .dice { pool }⟩
    let less : Item := ⟨.signed .minus, .literal maxTotal⟩
    let more : Item := ⟨.signed .plus, .literal maxTotal⟩
    let five : Table Nat := { shaker := fun _ => pure 5 }
    let six : Table Nat := { shaker := Tape.highest }
    let first := ((Section.roll five ⟨none, [die, less, more]⟩).run 0).1
    let moved := ((Section.roll five ⟨none, [less, more, die]⟩).run 0).1
    let raised := ((Section.roll six ⟨none, [die, less, more]⟩).run 0).1
    first.outcome.total = 5 ∧ moved.outcome.total = first.outcome.total ∧
      first.outcome.total ≤ raised.outcome.total := by
  intro pool die less more five six first moved raised
  obtain ⟨_, hExact, _, hMoved, _⟩ :=
    total_near_exactSum five ⟨none, [die, less, more]⟩ 0 five ⟨none, [less, more, die]⟩ 0
  obtain ⟨_, _, _, _, hRaised⟩ :=
    total_near_exactSum five ⟨none, [die, less, more]⟩ 0 six ⟨none, [die, less, more]⟩ 0
  let rest : List Entry := [(.signed .minus, maxTotal), (.signed .plus, maxTotal)]
  have hFirst : first.entries = (.signed .plus, 5) :: rest := by decide +kernel
  have hSecond : moved.entries = rest ++ [(.signed .plus, 5)] := by decide +kernel
  have hThird : raised.entries = (.signed .plus, 6) :: rest := by decide +kernel
  have hPerm : moved.entries.Perm first.entries := by
    rw [hFirst, hSecond]
    decide
  have hStays : StaysInRange first.entries := by
    rw [hFirst]
    decide
  have hStaysMoved : StaysInRange moved.entries := by
    rw [hSecond]
    decide
  have hSum : exactSum first.entries = 5 := by
    rw [hFirst]
    decide
  exact ⟨(hExact hStays).trans hSum, hMoved hPerm hStays hStaysMoved,
    (hRaised [] _ 5 6 rest hFirst hThird (by decide)).1 nofun⟩

end Section
end DiceTray
