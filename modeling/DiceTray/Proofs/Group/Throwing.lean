import DiceTray.Proofs.Group.Rules
import DiceTray.Proofs.Shaker.Yields
import DiceTray.Throw

/-! Throwing by the rules. Each loop ends in exactly those dice that obey the rules and whose draws
the shaker shows in a row. Main statement: so does the throw of a whole group, whatever the shaker
shows. A throw then is a row of such groups, and recording changes none of it. -/
namespace DiceTray

variable {σ : Type} {state next : σ}

/-- What a die settles on that showed `face` first, and what is drawn for it from then on. -/
theorem Die.settle_run_eq_iff {draw : StateM σ Nat} {threshold allowance face : Nat} {d : Die} :
    (settle draw threshold allowance face).run state = (d, next) ↔
      ∃ later, d.draws = face :: later ∧ d.Settled threshold allowance ∧
        Yields draw state later next := by
  induction allowance generalizing face state d with
  | zero =>
      rw [settle]
      constructor
      · intro h
        cases h
        exact ⟨[], rfl, settled_nil_iff.2 (by simp), Yields.nil _⟩
      · rintro ⟨later, hDraws, hSettled, hYields⟩
        have hRejected := List.length_eq_zero_iff.1 (Nat.le_zero.1 hSettled.length_le)
        obtain ⟨rfl, rfl⟩ := hSettled.eq_of_rejected_eq_nil hRejected hDraws
        cases hYields
        rfl
  | succ allowance ih =>
      rw [settle]
      split
      · rename_i hFace
        constructor
        · intro h
          obtain ⟨again, middle, hDraw, h⟩ := bind_run_eq_iff.1 h
          obtain ⟨⟨rejected, last, cut⟩, _, hRest, hEnd⟩ := bind_run_eq_iff.1 h
          cases hEnd
          obtain ⟨later, hDraws, hSettled, hYields⟩ := ih.1 hRest
          refine ⟨again :: later, ?_, settled_cons_iff.2 ⟨hFace, hSettled⟩,
            Yields.cons hDraw hYields⟩
          exact congrArg (face :: ·) hDraws
        · rintro ⟨later, hDraws, hSettled, hYields⟩
          rcases d with ⟨_ | ⟨first, rejected⟩, last, cut⟩
          · cases hDraws
            exact absurd (hSettled.lt_face (Nat.succ_pos _)) (Nat.not_lt.2 hFace)
          · have hLater : (⟨rejected, last, cut⟩ : Die).draws = later := (List.cons.inj hDraws).2
            obtain rfl : first = face := (List.cons.inj hDraws).1
            cases hYields with
            | nil => simp [draws] at hLater
            | cons head tail =>
                have hRest := ih.2 ⟨_, hLater, (settled_cons_iff.1 hSettled).2, tail⟩
                exact bind_run_eq_iff.2 ⟨_, _, head, bind_run_eq_iff.2 ⟨_, _, hRest, rfl⟩⟩
      · rename_i hFace
        have hHigh : decide (face ≤ threshold) = false := decide_eq_false hFace
        constructor
        · intro h
          cases h
          refine ⟨[], rfl, settled_nil_iff.2 ⟨fun _ => Nat.lt_of_not_le hFace, ?_⟩, Yields.nil _⟩
          simp [hFace]
        · rintro ⟨later, hDraws, hSettled, hYields⟩
          have hRejected : d.rejected = [] := by
            rcases d with ⟨_ | ⟨first, rejected⟩, last, cut⟩
            · rfl
            · cases hDraws
              exact absurd (hSettled.rejected_le _ List.mem_cons_self) hFace
          obtain ⟨rfl, rfl⟩ := hSettled.eq_of_rejected_eq_nil hRejected hDraws
          cases hYields
          rw [hHigh]
          rfl

namespace Table

variable {t : Table σ} {p : Pool}

/-- A throw of a die ends in the dice that obey the rules and whose faces the shaker yields. -/
theorem throwDie_run_eq_iff {d : Die} :
    (t.throwDie p).run state = (d, next) ↔
      d.Obeys p t.limits ∧ Yields (t.shaker p.sides) state d.draws next := by
  rw [throwDie, bind_run_eq_iff, Die.Obeys]
  simp only [Pool.rerolls_iff]
  split
  · constructor
    · rintro ⟨face, middle, hFace, h⟩
      obtain ⟨later, hDraws, hSettled, hYields⟩ := Die.settle_run_eq_iff.1 h
      rw [hDraws]
      exact ⟨hSettled, Yields.cons hFace hYields⟩
    · rintro ⟨hSettled, hYields⟩
      obtain ⟨face, later, hDraws⟩ := List.exists_cons_of_ne_nil d.draws_ne_nil
      rw [hDraws, Yields.cons_iff] at hYields
      obtain ⟨middle, hFace, hYields⟩ := hYields
      exact ⟨face, middle, hFace, Die.settle_run_eq_iff.2 ⟨later, hDraws, hSettled, hYields⟩⟩
  · constructor
    · rintro ⟨face, middle, hFace, h⟩
      cases h
      exact ⟨⟨rfl, rfl⟩, Yields.cons hFace (Yields.nil _)⟩
    · rcases d with ⟨rejected, face, cut⟩
      rintro ⟨⟨hRejected, hCut⟩, hYields⟩
      cases hRejected
      cases hCut
      obtain ⟨middle, hFace, hYields⟩ := Yields.cons_iff.1 hYields
      cases hYields
      exact ⟨face, next, hFace, rfl⟩

/-- Dice thrown one after another: each obeys the rules, and their draws follow each other. -/
theorem yields_throwDie_iff {dice : List Die} :
    Yields (t.throwDie p) state dice next ↔
      (∀ die ∈ dice, die.Obeys p t.limits) ∧
        Yields (t.shaker p.sides) state (dice.flatMap Die.draws) next := by
  have hTrace : ∀ before die after, (t.throwDie p).run before = (die, after) ↔
      ∃ trace : Die, trace.Obeys p t.limits ∧ id trace = die ∧
        Yields (t.shaker p.sides) before trace.draws after := by
    intro before die after
    simp [throwDie_run_eq_iff]
  rw [Yields.trace_iff hTrace]
  simp

end Table

namespace Burst

variable {throwDie : StateM σ Die} {threshold allowance opener : Nat} {b : Burst}

/-- Chaining on from an opener ends in the chained bursts. -/
theorem after_chain_run_eq_iff :
    (after throwDie threshold true allowance opener).run state = (b, next) ↔
      b.Chained threshold allowance opener ∧ Yields throwDie state b.added next := by
  induction allowance generalizing opener state b with
  | zero =>
      rw [after]
      constructor
      · intro h
        cases h
        exact ⟨chained_nil_iff.2 (by simp), Yields.nil _⟩
      · rintro ⟨hChained, hYields⟩
        have hAdded := List.length_eq_zero_iff.1 (Nat.le_zero.1 hChained.length_le)
        rw [hAdded, Yields.nil_iff] at hYields
        rw [hChained.eq_of_added_eq_nil hAdded, hYields]
        rfl
  | succ allowance ih =>
      rw [after]
      split
      · rename_i hOpener
        constructor
        · intro h
          obtain ⟨die, middle, hDie, h⟩ := bind_run_eq_iff.1 h
          obtain ⟨rest, _, hRest, hEnd⟩ := bind_run_eq_iff.1 h
          cases hEnd
          obtain ⟨hChained, hYields⟩ := ih.1 hRest
          exact ⟨chained_cons_iff.2 ⟨hOpener, hChained⟩, Yields.cons hDie hYields⟩
        · rintro ⟨hChained, hYields⟩
          rcases b with ⟨_ | ⟨die, added⟩, cut⟩
          · have hLow := (chained_nil_iff.1 hChained).1 (Nat.succ_pos _)
            exact absurd hOpener (Nat.not_le.2 hLow)
          · obtain ⟨middle, hDie, hYields⟩ := Yields.cons_iff.1 hYields
            have hRest := ih.2 ⟨(chained_cons_iff.1 hChained).2, hYields⟩
            exact bind_run_eq_iff.2 ⟨_, _, hDie, bind_run_eq_iff.2 ⟨_, _, hRest, rfl⟩⟩
      · rename_i hOpener
        have hLow : decide (threshold ≤ opener) = false := decide_eq_false hOpener
        constructor
        · intro h
          cases h
          refine ⟨chained_nil_iff.2 ⟨fun _ => Nat.lt_of_not_le hOpener, ?_⟩, Yields.nil _⟩
          simp [hOpener]
        · rintro ⟨hChained, hYields⟩
          have hAdded : b.added = [] := by
            rcases b with ⟨_ | ⟨die, added⟩, cut⟩
            · rfl
            · exact absurd (chained_cons_iff.1 hChained).1 hOpener
          rw [hAdded, Yields.nil_iff] at hYields
          rw [hChained.eq_of_added_eq_nil hAdded, hYields, hLow]
          rfl

/-- Adding once after an opener ends in the single bursts. -/
theorem after_single_run_eq_iff :
    (after throwDie threshold false allowance opener).run state = (b, next) ↔
      b.Single threshold allowance opener ∧ Yields throwDie state b.added next := by
  rcases b with ⟨added, cut⟩
  by_cases hAdds : threshold ≤ opener ∧ 1 ≤ allowance
  · obtain ⟨hOpener, hAllowance⟩ := hAdds
    obtain ⟨allowance, rfl⟩ := Nat.exists_eq_add_of_le' hAllowance
    rw [after, if_pos hOpener, bind_run_eq_iff]
    constructor
    · rintro ⟨die, middle, hDie, hEnd⟩
      cases hEnd
      exact ⟨⟨by simp [hOpener], by simp⟩, Yields.cons hDie (Yields.nil _)⟩
    · rintro ⟨hSingle, hYields⟩
      have hCut : cut = false := by simpa using hSingle.cut_eq
      have hLength : added.length = 1 := by simpa [hOpener] using hSingle.length_eq
      obtain ⟨die, rfl⟩ := List.length_eq_one_iff.1 hLength
      obtain ⟨middle, hDie, hYields⟩ := Yields.cons_iff.1 hYields
      cases hYields
      exact ⟨die, next, hDie, by rw [hCut]; rfl⟩
  · have hAfter : after throwDie threshold false allowance opener =
        pure ⟨[], decide (threshold ≤ opener ∧ allowance = 0)⟩ := by
      cases allowance with
      | zero => simp [after]
      | succ allowance =>
          have hOpener : ¬ threshold ≤ opener := fun h => hAdds ⟨h, Nat.succ_pos _⟩
          simp [after, hOpener, Burst.none]
    rw [hAfter]
    constructor
    · intro h
      cases h
      exact ⟨⟨by simp [hAdds], decide_eq_true_iff⟩, Yields.nil _⟩
    · rintro ⟨hSingle, hYields⟩
      have hAdded : added.length = 0 := by rw [hSingle.length_eq, if_neg hAdds]
      have hCut : cut = decide (threshold ≤ opener ∧ allowance = 0) := hSingle.cut_eq
      obtain rfl := List.length_eq_zero_iff.1 hAdded
      cases hYields
      rw [hCut]
      rfl

end Burst

namespace Table

variable {t : Table σ} {p : Pool}

/-- What an opener sets off are the bursts that obey the rules. -/
theorem throwBurst_run_eq_iff {opener : Die} {b : Burst} :
    (t.throwBurst p opener).run state = (b, next) ↔
      b.Obeys p t.limits opener.face ∧ Yields (t.throwDie p) state b.added next := by
  rw [throwBurst, Burst.Obeys]
  by_cases hExplode : p.explode = 0
  · have hOff : ¬ p.explodes = true := fun h => Pool.explodes_iff.1 h hExplode
    rw [if_neg hOff, if_pos hExplode]
    constructor
    · intro h
      cases h
      exact ⟨rfl, Yields.nil _⟩
    · rintro ⟨rfl, hYields⟩
      cases hYields
      rfl
  · rw [if_pos (Pool.explodes_iff.2 hExplode), if_neg hExplode]
    cases p.chain with
    | true => exact Burst.after_chain_run_eq_iff
    | false => exact Burst.after_single_run_eq_iff

/-- The bursts of all openers are thrown in the order of the openers, each by its own rule. -/
theorem mapM_throwBurst_run_eq_iff {openers : List Die} {bursts : List Burst} :
    (openers.mapM (t.throwBurst p)).run state = (bursts, next) ↔
      List.Forall₂ (fun opener burst => burst.Obeys p t.limits opener.face) openers bursts ∧
        Yields (t.throwDie p) state (bursts.flatMap Burst.added) next := by
  induction openers generalizing state bursts with
  | nil =>
      constructor
      · intro h
        cases h
        exact ⟨List.Forall₂.nil, Yields.nil _⟩
      · rintro ⟨hBursts, hYields⟩
        cases hBursts
        cases hYields
        rfl
  | cons opener openers ih =>
      rw [mapM_cons_run_eq_iff]
      constructor
      · rintro ⟨burst, rest, middle, rfl, hBurst, hRest⟩
        obtain ⟨hObeys, hFirst⟩ := throwBurst_run_eq_iff.1 hBurst
        obtain ⟨hBursts, hYields⟩ := ih.1 hRest
        exact ⟨List.Forall₂.cons hObeys hBursts, Yields.append_iff.2 ⟨middle, hFirst, hYields⟩⟩
      · rintro ⟨hBursts, hYields⟩
        cases hBursts with
        | cons hObeys hBursts =>
            obtain ⟨middle, hFirst, hYields⟩ := Yields.append_iff.1 hYields
            have hBurst := throwBurst_run_eq_iff.2 ⟨hObeys, hFirst⟩
            exact ⟨_, _, middle, rfl, hBurst, ih.2 ⟨hBursts, hYields⟩⟩

/-- The dice of a group are those that obey the rules and whose draws the shaker shows in a row. -/
theorem spill_run_eq_iff {s : Spill} :
    (t.spill p).run state = (s, next) ↔
      s.Obeys p t.limits ∧ Yields (t.shaker p.sides) state s.draws next := by
  have hDice : Yields (t.throwDie p) state s.dice next ↔ _ := yields_throwDie_iff
  rw [spill, bind_run_eq_iff]
  constructor
  · rintro ⟨opening, middle, hOpening, h⟩
    obtain ⟨bursts, _, hBursts, hEnd⟩ := bind_run_eq_iff.1 h
    cases hEnd
    obtain ⟨hLength, hFirst⟩ := collect_run_eq_iff.1 hOpening
    obtain ⟨hObeys, hRest⟩ := mapM_throwBurst_run_eq_iff.1 hBursts
    obtain ⟨hEach, hDraws⟩ := hDice.1 (Yields.append_iff.2 ⟨middle, hFirst, hRest⟩)
    exact ⟨⟨hLength, hEach, hObeys⟩, hDraws⟩
  · rintro ⟨⟨hLength, hEach, hObeys⟩, hDraws⟩
    obtain ⟨middle, hFirst, hRest⟩ := Yields.append_iff.1 (hDice.2 ⟨hEach, hDraws⟩)
    have hOpening := collect_run_eq_iff.2 ⟨hLength, hFirst⟩
    have hBursts := mapM_throwBurst_run_eq_iff.2 ⟨hObeys, hRest⟩
    exact ⟨_, middle, hOpening, bind_run_eq_iff.2 ⟨_, _, hBursts, rfl⟩⟩

/-- A group is thrown exactly if it is the score of a spill that obeys the rules and whose draws the
shaker yields. -/
theorem throwGroup_run_eq_iff {g : Group} :
    (t.throwGroup p).run state = (g, next) ↔
      ∃ s : Spill, s.Obeys p t.limits ∧ p.score s.tally = g ∧
        Yields (t.shaker p.sides) state s.draws next := by
  rw [throwGroup, bind_run_eq_iff]
  constructor
  · rintro ⟨s, _, hSpill, hEnd⟩
    cases hEnd
    obtain ⟨hObeys, hDraws⟩ := spill_run_eq_iff.1 hSpill
    exact ⟨s, hObeys, rfl, hDraws⟩
  · rintro ⟨s, hObeys, rfl, hDraws⟩
    exact ⟨s, next, spill_run_eq_iff.2 ⟨hObeys, hDraws⟩, rfl⟩

/-- Groups thrown one after another. -/
theorem yields_throwGroup_iff {groups : List Group} :
    Yields (t.throwGroup p) state groups next ↔
      ∃ spills : List Spill, (∀ s ∈ spills, s.Obeys p t.limits) ∧
        spills.map (fun s => p.score s.tally) = groups ∧
        Yields (t.shaker p.sides) state (spills.flatMap Spill.draws) next :=
  Yields.trace_iff fun _ _ _ => throwGroup_run_eq_iff

end Table

namespace Throw

variable {t : Table σ} {w v : Throw}

def lying (w : Throw) (spills : List Spill) : Throw :=
  { w with groups? := some (spills.map fun s => w.pool.score s.tally) }

/-- A throw is rolled exactly if its groups are the scores of as many spills as its pool says, drawn
one after another. -/
theorem roll_run_eq_iff :
    (w.roll t).run state = (v, next) ↔
      ∃ spills : List Spill, spills.length = w.pool.times ∧
        (∀ s ∈ spills, s.Obeys w.pool t.limits) ∧ w.lying spills = v ∧
        Yields (t.shaker w.pool.sides) state (spills.flatMap Spill.draws) next := by
  rw [roll, bind_run_eq_iff]
  constructor
  · rintro ⟨groups, _, hGroups, hEnd⟩
    cases hEnd
    obtain ⟨hLength, hYields⟩ := collect_run_eq_iff.1 hGroups
    obtain ⟨spills, hAll, rfl, hDraws⟩ := Table.yields_throwGroup_iff.1 hYields
    exact ⟨spills, by simpa using hLength, hAll, rfl, hDraws⟩
  · rintro ⟨spills, hLength, hAll, rfl, hDraws⟩
    have hYields := Table.yields_throwGroup_iff.2 ⟨spills, hAll, rfl, hDraws⟩
    exact ⟨_, next, collect_run_eq_iff.2 ⟨by simpa using hLength, hYields⟩, rfl⟩

end Throw
end DiceTray
