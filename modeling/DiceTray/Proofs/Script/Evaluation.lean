import DiceTray.Proofs.Section.Evaluation
import DiceTray.Script

/-! Evaluating a script, one section after another. Main statement: rolling a script is rolling its
throws, each once and in order, and nothing else of the script changes. -/
namespace DiceTray

variable {σ : Type}

/-- A list is told by a view of its elements and by their parts in a row, if every element is told
by its view and its parts, and the view tells how many parts there are. -/
theorem eq_of_map_eq_of_flatMap_eq {α β γ : Type} {view : α → β} {parts : α → List γ}
    (count : β → Nat) (hCount : ∀ a, (parts a).length = count (view a))
    (hTold : ∀ a b, view a = view b → parts a = parts b → a = b) {as bs : List α}
    (hView : as.map view = bs.map view) (hParts : as.flatMap parts = bs.flatMap parts) :
    as = bs := by
  induction as generalizing bs with
  | nil => exact (List.map_eq_nil_iff.1 hView.symm).symm
  | cons a as ih =>
      cases bs with
      | nil => cases hView
      | cons b bs =>
          rw [List.map_cons, List.map_cons, List.cons.injEq] at hView
          rw [List.flatMap_cons, List.flatMap_cons] at hParts
          have hLength : (parts a).length = (parts b).length := by rw [hCount, hCount, hView.1]
          obtain ⟨hFirst, hRest⟩ := List.append_inj hParts hLength
          rw [hTold a b hView.1 hFirst, ih hView.2 hRest]

theorem Item.throw?_unrolled (item : Item) :
    item.unrolled.operand.throw? = item.operand.throw?.map Throw.unrolled := by
  rcases item with ⟨joint, operand⟩
  cases operand <;> rfl

theorem Item.eq_of_throw?_eq {a b : Item} (h : a.unrolled = b.unrolled)
    (hThrow : a.operand.throw?.toList = b.operand.throw?.toList) : a = b := by
  rcases a with ⟨joint, operand⟩
  rcases b with ⟨joint', operand'⟩
  cases operand <;> cases operand' <;> simp_all [unrolled, Operand.unrolled, Operand.throw?]

namespace Section

/-- The throws of a section are those of its items in a row. -/
theorem throws_eq_flatMap (s : Section) :
    s.throws = s.items.flatMap fun item => item.operand.throw?.toList :=
  List.filterMap_eq_flatMap_toList _ _

theorem throws_unrolled (s : Section) : s.unrolled.throws = s.throws.map Throw.unrolled := by
  rw [throws, throws, throwsOf, throwsOf, unrolled, List.filterMap_map, List.map_filterMap]
  exact congrArg (List.filterMap · s.items) (funext Item.throw?_unrolled)

/-- Sections that differ at most in how their dice lie are the same if their throws are. -/
theorem eq_of_throws_eq {a b : Section} (h : a.unrolled = b.unrolled)
    (hThrows : a.throws = b.throws) : a = b := by
  have hItems : a.items = b.items := by
    rw [throws_eq_flatMap, throws_eq_flatMap] at hThrows
    refine eq_of_map_eq_of_flatMap_eq (fun item => item.operand.throw?.toList.length) ?_ ?_
      (congrArg items h) hThrows
    · intro item
      rw [item.throw?_unrolled]
      cases item.operand.throw? <;> rfl
    · intro a b hUnrolled hThrow
      exact Item.eq_of_throw?_eq hUnrolled hThrow
  rcases a with ⟨label?, items⟩
  rcases b with ⟨label'?, items'⟩
  have hLabel : label? = label'? := congrArg Section.label? h
  rw [hLabel, show items = items' from hItems]

end Section

namespace Script

def throws (s : Script) : List Throw := s.sections.flatMap Section.throws

def unrolled (s : Script) : Script := ⟨s.sections.map Section.unrolled⟩

theorem eq_of_throws_eq {a b : Script} (h : a.unrolled = b.unrolled)
    (hThrows : a.throws = b.throws) : a = b := by
  have hSections : a.sections = b.sections := by
    refine eq_of_map_eq_of_flatMap_eq (fun s => s.throws.length) ?_ ?_
      (congrArg sections h) hThrows
    · intro s
      rw [s.throws_unrolled, List.length_map]
    · intro a b hUnrolled hThrow
      exact Section.eq_of_throws_eq hUnrolled hThrow
  cases a
  cases b
  exact congrArg Script.mk hSections

theorem roll_eq (t : Table σ) (s : Script) :
    s.roll t = Script.mk <$> s.sections.mapM (Section.roll t) := rfl

/-- Rolling some sections is rolling their throws one after another. -/
theorem flatMap_throws_mapM_roll (t : Table σ) (sections : List Section) :
    (List.flatMap Section.throws) <$> sections.mapM (Section.roll t) =
      (sections.flatMap Section.throws).mapM (Throw.roll t) := by
  induction sections with
  | nil => simp
  | cons s sections ih =>
      rw [List.flatMap_cons, List.mapM_append, ← ih, ← s.throws_roll t, List.mapM_cons]
      simp

/-- Rolling a script is rolling its throws, each once and in order. -/
theorem throws_roll (t : Table σ) (s : Script) :
    throws <$> s.roll t = s.throws.mapM (Throw.roll t) := by
  rw [roll_eq, throws, ← flatMap_throws_mapM_roll, Functor.map_map]
  rfl

/-- Rolling changes nothing of a script but how its dice lie. -/
theorem unrolled_of_roll {t : Table σ} {s rolled : Script} {state next : σ}
    (h : (s.roll t).run state = (rolled, next)) : rolled.unrolled = s.unrolled := by
  obtain ⟨sections, _, hSections, hEnd⟩ := bind_run_eq_iff.1 h
  cases hEnd
  have hEach := (forall₂_of_mapM_run hSections).imp fun rolled s ⟨_, _, hRoll⟩ =>
    (Section.roll_settles hRoll).1
  rw [unrolled, unrolled, map_eq_map_of_forall₂ hEach]

/-- What a script is rolled to: its throws are rolled, and all else stays. -/
theorem roll_run_eq_iff {t : Table σ} {s rolled : Script} {state next : σ} :
    (s.roll t).run state = (rolled, next) ↔
      rolled.unrolled = s.unrolled ∧
        (s.throws.mapM (Throw.roll t)).run state = (rolled.throws, next) := by
  have hThrows : ∀ r n, (s.roll t).run state = (r, n) →
      (s.throws.mapM (Throw.roll t)).run state = (r.throws, n) := by
    intro r n hRoll
    rw [← throws_roll, StateT.run_map, hRoll]
    rfl
  constructor
  · intro h
    exact ⟨unrolled_of_roll h, hThrows _ _ h⟩
  · rintro ⟨hUnrolled, hRun⟩
    rcases hRoll : (s.roll t).run state with ⟨r, n⟩
    have hSame := (hThrows r n hRoll).symm.trans hRun
    rw [Prod.mk.injEq] at hSame ⊢
    refine ⟨eq_of_throws_eq ?_ hSame.1, hSame.2⟩
    rw [unrolled_of_roll hRoll, hUnrolled]

/-- Evaluates the sections one after another, each in one pass; their outcomes, and the script with
its dice as they lie. -/
def evaluate (t : Table σ) (s : Script) : StateM σ (List Outcome × Script) := do
  let results ← s.sections.mapM (Section.evaluate t)
  return (results.map Prod.fst, ⟨results.map Prod.snd⟩)

/-- Evaluating a script is rolling it and reading off its outcomes. -/
theorem evaluate_eq (t : Table σ) (s : Script) :
    s.evaluate t = (fun rolled => (rolled.outcomes, rolled)) <$> s.roll t := by
  have hSections : s.sections.mapM (Section.evaluate t) =
      List.map (fun rolled => (rolled.outcome, rolled)) <$> s.sections.mapM (Section.roll t) := by
    induction s.sections with
    | nil => simp
    | cons first sections ih =>
        rw [List.mapM_cons, List.mapM_cons, ih, first.evaluate_eq]
        simp
  rw [evaluate, hSections, roll_eq]
  simp [outcomes, Function.comp_def]

end Script
end DiceTray
