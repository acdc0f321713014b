import DiceTray.Shaker.Basic
import Mathlib.Data.List.Forall2

/-! Actions done again and again. `Yields action start results finish` says that the action, done
once for each of the results, gives exactly these in order and ends in `finish`. For the action of
drawing one die these results are the faces drawn. A table that records also keeps them in its
state, where they show whatever the shaker's own states are like. -/
namespace DiceTray

variable {σ α β : Type}

inductive Yields (action : StateM σ α) : σ → List α → σ → Prop where
  | nil (state : σ) : Yields action state [] state
  | cons {state middle next : σ} {first : α} {rest : List α}
      (head : action.run state = (first, middle)) (tail : Yields action middle rest next) :
      Yields action state (first :: rest) next

/-- Two actions in a row end where the second does from where the first left off. -/
theorem bind_run_eq_iff {action : StateM σ α} {rest : α → StateM σ β} {state next : σ}
    {result : β} :
    (action >>= rest).run state = (result, next) ↔
      ∃ first middle, action.run state = (first, middle) ∧
        (rest first).run middle = (result, next) := by
  constructor
  · intro h
    exact ⟨_, _, rfl, h⟩
  · rintro ⟨first, middle, hFirst, hRest⟩
    rw [StateT.run_bind, hFirst]
    exact hRest

theorem map_run_eq_iff {action : StateM σ α} {f : α → β} {state next : σ} {result : β} :
    (f <$> action).run state = (result, next) ↔
      ∃ a, action.run state = (a, next) ∧ f a = result := by
  rw [map_eq_pure_bind, bind_run_eq_iff]
  constructor
  · rintro ⟨a, _, hRun, hEnd⟩
    cases hEnd
    exact ⟨a, hRun, rfl⟩
  · rintro ⟨a, hRun, rfl⟩
    exact ⟨a, next, hRun, rfl⟩

/-- Actions that do nothing but give a result do nothing one after another. -/
theorem mapM_eq_pure {m : Type → Type} [Monad m] [LawfulMonad m] {action : α → m β} {f : α → β}
    {as : List α} (h : ∀ a ∈ as, action a = pure (f a)) : as.mapM action = pure (as.map f) := by
  induction as with
  | nil => rfl
  | cons a as ih =>
      obtain ⟨hFirst, hRest⟩ := List.forall_mem_cons.1 h
      rw [List.mapM_cons, hFirst, pure_bind, ih hRest, pure_bind, List.map_cons]

namespace Yields

variable {action : StateM σ α} {state next : σ}

theorem nil_iff : Yields action state [] next ↔ state = next := by
  constructor
  · intro h
    cases h
    rfl
  · rintro rfl
    exact nil _

/-- The first of some results is yielded first. -/
theorem cons_iff {first : α} {rest : List α} :
    Yields action state (first :: rest) next ↔
      ∃ middle, action.run state = (first, middle) ∧ Yields action middle rest next := by
  constructor
  · intro h
    cases h with
    | cons head tail => exact ⟨_, head, tail⟩
  · rintro ⟨middle, head, tail⟩
    exact cons head tail

/-- Results can be yielded in two parts. -/
theorem append_iff {first rest : List α} :
    Yields action state (first ++ rest) next ↔
      ∃ middle, Yields action state first middle ∧ Yields action middle rest next := by
  induction first generalizing state with
  | nil => simp [nil_iff]
  | cons result first ih =>
      simp only [List.cons_append, cons_iff, ih]
      constructor
      · rintro ⟨afterResult, hResult, middle, hFirst, hRest⟩
        exact ⟨middle, ⟨afterResult, hResult, hFirst⟩, hRest⟩
      · rintro ⟨middle, ⟨afterResult, hResult, hFirst⟩, hRest⟩
        exact ⟨afterResult, hResult, middle, hFirst, hRest⟩

/-- Results leave one state behind only. -/
theorem next_unique {results : List α} {end₁ end₂ : σ} (h₁ : Yields action state results end₁)
    (h₂ : Yields action state results end₂) : end₁ = end₂ := by
  induction h₁ with
  | nil => exact nil_iff.1 h₂
  | cons head _ ih =>
      obtain ⟨middle, hHead, hTail⟩ := cons_iff.1 h₂
      obtain rfl : _ = middle := congrArg Prod.snd (head.symm.trans hHead)
      exact ih hTail

/-- From one state the same results come in the same order, so one of two runs goes on where the
other ends. -/
theorem begins_or_begins {as bs : List α} {end₁ end₂ : σ} (h₁ : Yields action state as end₁)
    (h₂ : Yields action state bs end₂) : as <+: bs ∨ bs <+: as := by
  induction h₁ generalizing bs with
  | nil => exact .inl List.nil_prefix
  | cons head _ ih =>
      cases bs with
      | nil => exact .inr List.nil_prefix
      | cons b bs =>
          obtain ⟨middle, hHead, hTail⟩ := cons_iff.1 h₂
          obtain ⟨rfl, rfl⟩ := Prod.mk.inj (head.symm.trans hHead)
          simpa only [List.prefix_cons_inj] using ih hTail

/-- If every run of an action can be traced to inner results then so can all runs of doing it again
and again, by one trace after another. -/
theorem trace_iff {τ : Type} {inner : StateM σ β} {Valid : τ → Prop} {result : τ → α}
    {draws : τ → List β}
    (h : ∀ before a after, action.run before = (a, after) ↔
      ∃ trace, Valid trace ∧ result trace = a ∧ Yields inner before (draws trace) after)
    {results : List α} :
    Yields action state results next ↔
      ∃ traces : List τ, (∀ trace ∈ traces, Valid trace) ∧ traces.map result = results ∧
        Yields inner state (traces.flatMap draws) next := by
  induction results generalizing state with
  | nil =>
      rw [nil_iff]
      constructor
      · rintro rfl
        exact ⟨[], by simp, rfl, nil _⟩
      · rintro ⟨traces, -, hResults, hDraws⟩
        obtain rfl := List.map_eq_nil_iff.1 hResults
        exact nil_iff.1 hDraws
  | cons first results ih =>
      rw [cons_iff]
      constructor
      · rintro ⟨middle, hRun, hResults⟩
        obtain ⟨trace, hValid, rfl, hFirst⟩ := (h _ _ _).1 hRun
        obtain ⟨traces, hAll, rfl, hRest⟩ := ih.1 hResults
        exact ⟨trace :: traces, List.forall_mem_cons.2 ⟨hValid, hAll⟩, rfl,
          append_iff.2 ⟨middle, hFirst, hRest⟩⟩
      · rintro ⟨traces, hAll, hResults, hDraws⟩
        obtain ⟨trace, traces, rfl, rfl, rfl⟩ := List.map_eq_cons_iff.1 hResults
        obtain ⟨hValid, hRest⟩ := List.forall_mem_cons.1 hAll
        obtain ⟨middle, hFirst, hDraws⟩ := append_iff.1 hDraws
        exact ⟨middle, (h _ _ _).2 ⟨trace, hValid, rfl, hFirst⟩, ih.2 ⟨traces, hRest, rfl, hDraws⟩⟩

end Yields

/-- Collecting from an action gives as many results as asked for, yielded one after another. -/
theorem collect_run_eq_iff {action : StateM σ α} {n : Nat} {results : List α} {state next : σ} :
    (collect action n).run state = (results, next) ↔
      results.length = n ∧ Yields action state results next := by
  induction n generalizing results state with
  | zero =>
      rw [List.length_eq_zero_iff, collect]
      constructor
      · intro h
        cases h
        exact ⟨rfl, Yields.nil _⟩
      · rintro ⟨rfl, h⟩
        cases h
        rfl
  | succ n ih =>
      rw [collect, bind_run_eq_iff]
      constructor
      · rintro ⟨first, middle, hFirst, h⟩
        obtain ⟨rest, after, hRest, hEnd⟩ := bind_run_eq_iff.1 h
        cases hEnd
        obtain ⟨hLength, hYields⟩ := ih.1 hRest
        exact ⟨by simp [hLength], Yields.cons hFirst hYields⟩
      · rintro ⟨hLength, h⟩
        cases h with
        | nil => cases hLength
        | cons head tail =>
            refine ⟨_, _, head, bind_run_eq_iff.2 ⟨_, _, ih.2 ⟨?_, tail⟩, rfl⟩⟩
            simpa using hLength

/-- Doing something for each element begins with the first. -/
theorem mapM_cons_run_eq_iff {action : α → StateM σ β} {a : α} {as : List α} {bs : List β}
    {state next : σ} :
    ((a :: as).mapM action).run state = (bs, next) ↔
      ∃ b rest middle, bs = b :: rest ∧ (action a).run state = (b, middle) ∧
        (as.mapM action).run middle = (rest, next) := by
  rw [List.mapM_cons, bind_run_eq_iff]
  constructor
  · rintro ⟨b, middle, hFirst, h⟩
    obtain ⟨rest, _, hRest, hEnd⟩ := bind_run_eq_iff.1 h
    cases hEnd
    exact ⟨b, rest, middle, rfl, hFirst, hRest⟩
  · rintro ⟨b, rest, middle, rfl, hFirst, hRest⟩
    exact ⟨b, middle, hFirst, bind_run_eq_iff.2 ⟨rest, next, hRest, rfl⟩⟩

/-- Each result of going through a list is a result of its own element, from some state. -/
theorem forall₂_of_mapM_run {action : α → StateM σ β} {as : List α} {bs : List β} {state next : σ}
    (h : (as.mapM action).run state = (bs, next)) :
    List.Forall₂ (fun b a => ∃ before after, (action a).run before = (b, after)) bs as := by
  induction as generalizing bs state with
  | nil =>
      cases h
      exact List.Forall₂.nil
  | cons a as ih =>
      obtain ⟨b, rest, middle, rfl, hFirst, hRest⟩ := mapM_cons_run_eq_iff.1 h
      exact List.Forall₂.cons ⟨state, middle, hFirst⟩ (ih hRest)

theorem map_eq_map_of_forall₂ {f : α → β} {as bs : List α}
    (h : List.Forall₂ (fun a b => f a = f b) as bs) : as.map f = bs.map f := by
  rwa [← List.forall₂_eq_eq_eq, List.forall₂_map_left_iff, List.forall₂_map_right_iff]

theorem exists_of_mem_of_forall₂ {R : α → β → Prop} {as : List α} {bs : List β} {a : α}
    (h : List.Forall₂ R as bs) (ha : a ∈ as) : ∃ b ∈ bs, R a b := by
  induction h with
  | nil => cases ha
  | cons hFirst _ ih =>
      rcases List.mem_cons.1 ha with rfl | ha
      · exact ⟨_, List.mem_cons_self, hFirst⟩
      · obtain ⟨b, hb, hR⟩ := ih ha
        exact ⟨b, List.mem_cons_of_mem _ hb, hR⟩

/-- Each of the results came of some element, from some state. -/
theorem exists_of_mem_mapM_run {action : α → StateM σ β} {as : List α} {bs : List β} {b : β}
    {state next : σ} (h : (as.mapM action).run state = (bs, next)) (hb : b ∈ bs) :
    ∃ a ∈ as, ∃ before after, (action a).run before = (b, after) :=
  exists_of_mem_of_forall₂ (forall₂_of_mapM_run h) hb

/-- The table with a shaker that also keeps all faces it has shown, the latest last. -/
def Table.recording (t : Table σ) : Table (σ × List Nat) where
  shaker sides := fun (state, shown) =>
    let (face, next) := t.shaker sides state
    (face, next, shown ++ [face])
  limits := t.limits

/-- A recording table shows the same faces and puts each behind its log. -/
theorem Table.recording_shaker_run_eq_iff {t : Table σ} {sides face : Nat} {state next : σ}
    {shown log : List Nat} :
    (t.recording.shaker sides).run (state, shown) = (face, next, log) ↔
      (t.shaker sides).run state = (face, next) ∧ log = shown ++ [face] := by
  change (((t.shaker sides).run state).1, ((t.shaker sides).run state).2,
    shown ++ [((t.shaker sides).run state).1]) = _ ↔ _
  rw [Prod.ext_iff, Prod.ext_iff, Prod.ext_iff]
  constructor
  · rintro ⟨rfl, rfl, rfl⟩
    exact ⟨⟨rfl, rfl⟩, rfl⟩
  · rintro ⟨⟨rfl, rfl⟩, rfl⟩
    exact ⟨rfl, rfl, rfl⟩

/-- Recording changes no face, and it records every one. -/
theorem Yields.recording_iff {t : Table σ} {sides : Nat} {state next : σ}
    {shown log faces : List Nat} :
    Yields (t.recording.shaker sides) (state, shown) faces (next, log) ↔
      Yields (t.shaker sides) state faces next ∧ log = shown ++ faces := by
  induction faces generalizing state shown with
  | nil => simp [nil_iff, eq_comm]
  | cons face faces ih =>
      rw [cons_iff, cons_iff]
      constructor
      · rintro ⟨⟨middle, _⟩, hFace, hFaces⟩
        obtain ⟨hFirst, rfl⟩ := Table.recording_shaker_run_eq_iff.1 hFace
        obtain ⟨hRest, rfl⟩ := ih.1 hFaces
        exact ⟨⟨middle, hFirst, hRest⟩, (List.append_cons shown face faces).symm⟩
      · rintro ⟨⟨middle, hFace, hFaces⟩, rfl⟩
        refine ⟨(middle, shown ++ [face]), ?_, ih.2 ⟨hFaces, List.append_cons shown face faces⟩⟩
        exact Table.recording_shaker_run_eq_iff.2 ⟨hFace, rfl⟩

end DiceTray
