import DiceTray.Proofs.Group.Throwing
import DiceTray.Proofs.Script.Evaluation

/-! The dice of a roll. A throw keeps the score of its groups and forgets how the dice came to rest;
`Script.spills` throws the same dice and keeps all of them. Main statement: a script is rolled to
the scores of these dice, and a table that records shows the faces drawn for them, one after
another. -/
namespace DiceTray

variable {σ : Type} {t : Table σ} {state next : σ}

theorem collect_map {α β : Type} (f : α → β) (action : StateM σ α) (n : Nat) :
    collect (f <$> action) n = List.map f <$> collect action n := by
  induction n with
  | zero => rfl
  | succ n ih =>
      rw [collect, collect, ih]
      simp

/-- Doing something with the result of each action is doing it with all results at the end. -/
theorem mapM_map_eq_zipWith {α β γ : Type} (f : α → β → γ) (action : α → StateM σ β)
    (as : List α) :
    (as.mapM fun a => f a <$> action a) = List.zipWith f as <$> as.mapM action := by
  induction as with
  | nil => simp
  | cons a as ih =>
      rw [List.mapM_cons, List.mapM_cons, ih]
      simp

namespace Throw

def spills (t : Table σ) (w : Throw) : StateM σ (List Spill) :=
  collect (t.spill w.pool) w.pool.times

/-- A throw is rolled by drawing its spills and letting them lie. -/
theorem roll_eq_lying (t : Table σ) (w : Throw) : w.roll t = w.lying <$> w.spills t := by
  have hGroup : t.throwGroup w.pool = (fun s => w.pool.score s.tally) <$> t.spill w.pool := rfl
  rw [roll, hGroup, collect_map, bind_map_left, spills, map_eq_pure_bind]
  rfl

/-- The spills of a throw are as many as its pool says, each by the rules, with draws that the
shaker yields one after another. -/
theorem spills_run_eq_iff {w : Throw} {spills : List Spill} :
    (w.spills t).run state = (spills, next) ↔
      spills.length = w.pool.times ∧ (∀ s ∈ spills, s.Obeys w.pool t.limits) ∧
        Yields (t.shaker w.pool.sides) state (spills.flatMap Spill.draws) next := by
  have hTrace : ∀ before s after, (t.spill w.pool).run before = (s, after) ↔
      ∃ trace : Spill, trace.Obeys w.pool t.limits ∧ id trace = s ∧
        Yields (t.shaker w.pool.sides) before trace.draws after := by
    intro before s after
    simp [Table.spill_run_eq_iff]
  rw [Throw.spills, collect_run_eq_iff, Yields.trace_iff hTrace]
  simp

/-- Recording changes none of the dice, and it records every face drawn for them. -/
theorem spills_recording_run_eq_iff {w : Throw} {spills : List Spill} {shown log : List Nat} :
    (w.spills t.recording).run (state, shown) = (spills, next, log) ↔
      (w.spills t).run state = (spills, next) ∧ log = shown ++ spills.flatMap Spill.draws := by
  rw [spills_run_eq_iff, spills_run_eq_iff, Yields.recording_iff]
  constructor
  · rintro ⟨hLength, hObeys, hDraws, hLog⟩
    exact ⟨⟨hLength, hObeys, hDraws⟩, hLog⟩
  · rintro ⟨⟨hLength, hObeys, hDraws⟩, hLog⟩
    exact ⟨hLength, hObeys, hDraws, hLog⟩

/-- Recording adds to the log exactly the draws of all spills in order. -/
theorem mapM_spills_recording_run_eq_iff {throws : List Throw} {dice : List (List Spill)}
    {shown log : List Nat} :
    (throws.mapM (spills t.recording)).run (state, shown) = (dice, next, log) ↔
      (throws.mapM (spills t)).run state = (dice, next) ∧
        log = shown ++ dice.flatten.flatMap Spill.draws := by
  induction throws generalizing state shown dice with
  | nil =>
      constructor
      · intro h
        cases h
        exact ⟨rfl, by simp⟩
      · rintro ⟨h, rfl⟩
        cases h
        simp
        rfl
  | cons w throws ih =>
      rw [mapM_cons_run_eq_iff, mapM_cons_run_eq_iff]
      constructor
      · rintro ⟨spills, rest, ⟨middle, shown'⟩, rfl, hFirst, hRest⟩
        obtain ⟨hSpills, rfl⟩ := spills_recording_run_eq_iff.1 hFirst
        obtain ⟨hDice, rfl⟩ := ih.1 hRest
        exact ⟨⟨spills, rest, middle, rfl, hSpills, hDice⟩, by simp⟩
      · rintro ⟨⟨spills, rest, middle, rfl, hSpills, hDice⟩, rfl⟩
        refine ⟨spills, rest, (middle, shown ++ spills.flatMap Spill.draws), rfl, ?_, ?_⟩
        · exact spills_recording_run_eq_iff.2 ⟨hSpills, rfl⟩
        · exact ih.2 ⟨hDice, by simp⟩

end Throw

namespace Script

variable {s rolled : Script}

def spills (t : Table σ) (s : Script) : StateM σ (List (List Spill)) :=
  s.throws.mapM (Throw.spills t)

theorem mapM_roll_throws_eq (t : Table σ) (s : Script) :
    s.throws.mapM (Throw.roll t) = List.zipWith Throw.lying s.throws <$> s.spills t := by
  have hRoll : Throw.roll t = fun w => w.lying <$> w.spills t := funext (Throw.roll_eq_lying t)
  rw [hRoll, mapM_map_eq_zipWith, spills]

/-- A script is rolled to the scores of its dice. -/
theorem roll_run_eq_iff_spills :
    (s.roll t).run state = (rolled, next) ↔
      rolled.unrolled = s.unrolled ∧ ∃ dice, (s.spills t).run state = (dice, next) ∧
        List.zipWith Throw.lying s.throws dice = rolled.throws := by
  rw [roll_run_eq_iff, mapM_roll_throws_eq, map_run_eq_iff]

/-- Recording changes nothing of a roll, and it records every face drawn for its dice. -/
theorem roll_recording_run_eq_iff {shown log : List Nat} :
    (s.roll t.recording).run (state, shown) = (rolled, next, log) ↔
      (s.roll t).run state = (rolled, next) ∧
        ∃ dice, (s.spills t).run state = (dice, next) ∧
          log = shown ++ dice.flatten.flatMap Spill.draws := by
  have hRecord : ∀ dice, (s.spills t.recording).run (state, shown) = (dice, next, log) ↔ _ :=
    fun dice => Throw.mapM_spills_recording_run_eq_iff
  rw [roll_run_eq_iff_spills, roll_run_eq_iff_spills]
  constructor
  · rintro ⟨hUnrolled, dice, hRecorded, hThrows⟩
    obtain ⟨hDice, hLog⟩ := (hRecord dice).1 hRecorded
    exact ⟨⟨hUnrolled, dice, hDice, hThrows⟩, dice, hDice, hLog⟩
  · rintro ⟨⟨hUnrolled, dice, hDice, hThrows⟩, dice', hDice', hLog⟩
    cases hDice.symm.trans hDice'
    exact ⟨hUnrolled, dice, (hRecord dice).2 ⟨hDice, hLog⟩, hThrows⟩

end Script
end DiceTray
