import DiceTray.Proofs.Script.Dice
import DiceTray.Shaker.Tape

/-! Limits that are never reached. A die whose limit cut nothing short obeys the rules of every
wider limit as well, so wider limits lead to the same dice. Main statement: a whole script then
comes to the same under them. -/
namespace DiceTray

variable {σ : Type}

/-- Whatever the first limits allow, the second allow as well. -/
structure Limits.Within (limits wider : Limits) : Prop where
  explode : limits.explode ≤ wider.explode
  reroll : limits.reroll ≤ wider.reroll

/-- Somewhere in the group a limit cut something short: a die was not drawn again, or none was
added, although the face that lay there asked for it. -/
def Spill.isCut (s : Spill) : Bool := s.dice.any Die.cut || s.bursts.any Burst.cut

theorem Spill.isCut_eq_false_iff {s : Spill} :
    s.isCut = false ↔
      (∀ die ∈ s.dice, die.cut = false) ∧ ∀ burst ∈ s.bursts, burst.cut = false := by
  simp [isCut]

section Uncut

variable {p : Pool} {limits wider : Limits}

/-- A die that was not cut short settles in the same way with a greater allowance. -/
theorem Die.Settled.of_le {d : Die} {threshold allowance more : Nat}
    (h : d.Settled threshold allowance) (hCut : d.cut = false) (hMore : allowance ≤ more) :
    d.Settled threshold more where
  rejected_le := h.rejected_le
  length_le := h.length_le.trans hMore
  lt_face _ := by
    have hFace : ¬ d.face ≤ threshold := fun hLow => by simp [h.cut_iff.2 hLow] at hCut
    omega
  cut_iff := h.cut_iff

theorem Die.Obeys.of_within {d : Die} (h : d.Obeys p limits) (hCut : d.cut = false)
    (hWithin : limits.Within wider) : d.Obeys p wider := by
  unfold Obeys at h ⊢
  split_ifs at h ⊢
  · exact h.of_le hCut hWithin.reroll
  · exact h

/-- So does a chain that was not cut short. -/
theorem Burst.Chained.of_le {b : Burst} {threshold allowance more opener : Nat}
    (h : b.Chained threshold allowance opener) (hCut : b.cut = false) (hMore : allowance ≤ more) :
    b.Chained threshold more opener where
  le_of_mem_dropLast := h.le_of_mem_dropLast
  length_le := h.length_le.trans hMore
  last_lt _ := by
    have hLast : ¬ threshold ≤ b.faces.getLastD opener := fun hHigh => by
      simp [h.cut_iff.2 hHigh] at hCut
    omega
  cut_iff := h.cut_iff

/-- Where a single die is added, a limit of zero is the only one that can be in its way. -/
theorem Burst.Single.of_le {b : Burst} {threshold allowance more opener : Nat}
    (h : b.Single threshold allowance opener) (hCut : b.cut = false) (hMore : allowance ≤ more) :
    b.Single threshold more opener := by
  have hAllowed : threshold ≤ opener → 1 ≤ allowance := by
    intro hOpener
    have hNot : ¬ (threshold ≤ opener ∧ allowance = 0) := fun hBoth => by
      simp [h.cut_iff.2 hBoth] at hCut
    omega
  have hSame : threshold ≤ opener ∧ 1 ≤ more ↔ threshold ≤ opener ∧ 1 ≤ allowance := by omega
  have hNotCut : ¬ (threshold ≤ opener ∧ more = 0) := by omega
  exact ⟨by simp only [hSame, h.length_eq], by simp [hCut, hNotCut]⟩

theorem Burst.Obeys.of_within {opener : Nat} {b : Burst} (h : b.Obeys p limits opener)
    (hCut : b.cut = false) (hWithin : limits.Within wider) : b.Obeys p wider opener := by
  unfold Obeys at h ⊢
  split_ifs at h ⊢
  · exact h
  · exact h.of_le hCut hWithin.explode
  · exact h.of_le hCut hWithin.explode

/-- Dice that no limit cut short obey the rules under every wider limit. -/
theorem Spill.Obeys.of_within {s : Spill} (h : s.Obeys p limits) (hCut : s.isCut = false)
    (hWithin : limits.Within wider) : s.Obeys p wider := by
  obtain ⟨hDice, hBursts⟩ := isCut_eq_false_iff.1 hCut
  obtain ⟨hLength, hEach⟩ := List.forall₂_iff_zip.1 h.bursts
  refine ⟨h.length_opening, fun die hDie => (h.dice die hDie).of_within (hDice die hDie) hWithin,
    List.forall₂_iff_zip.2 ⟨hLength, fun hPair => ?_⟩⟩
  exact (hEach hPair).of_within (hBursts _ (List.of_mem_zip hPair).2) hWithin

end Uncut

variable {t : Table σ} {wider : Limits} {state next : σ}

def Table.under (t : Table σ) (limits : Limits) : Table σ := { t with limits }

/-- The spills of a throw of which none was cut are drawn in the same way under wider limits. -/
theorem Throw.spills_run_under {w : Throw} {spills : List Spill}
    (h : (w.spills t).run state = (spills, next)) (hCut : ∀ s ∈ spills, s.isCut = false)
    (hWithin : t.limits.Within wider) : (w.spills (t.under wider)).run state = (spills, next) := by
  obtain ⟨hLength, hObeys, hDraws⟩ := spills_run_eq_iff.1 h
  refine spills_run_eq_iff.2 ⟨hLength, ?_, hDraws⟩
  exact fun s hs => (hObeys s hs).of_within (hCut s hs) hWithin

/-- The throws of a script meet their dice one after another, and each is thrown from the state that
the one before it left. -/
theorem Throw.mapM_spills_run_under {throws : List Throw} {dice : List (List Spill)}
    (h : (throws.mapM (spills t)).run state = (dice, next))
    (hCut : ∀ s ∈ dice.flatten, s.isCut = false) (hWithin : t.limits.Within wider) :
    (throws.mapM (spills (t.under wider))).run state = (dice, next) := by
  induction throws generalizing state dice with
  | nil =>
      cases h
      rfl
  | cons w throws ih =>
      obtain ⟨first, rest, middle, rfl, hFirst, hRest⟩ := mapM_cons_run_eq_iff.1 h
      rw [List.flatten_cons, List.forall_mem_append] at hCut
      have hSame := spills_run_under hFirst hCut.1 hWithin
      exact mapM_cons_run_eq_iff.2 ⟨first, rest, middle, rfl, hSame, ih hRest hCut.2⟩

namespace Script

/-- Limits do not show until one is reached. A roll is made of its `dice`: they leave the shaker in
the same state, and the throws are the scores of them. If no limit cut any of these dice short then
under wider limits the same dice are drawn, and the outcomes, the throws and the final state of the
shaker are the same. -/
theorem evaluate_run_under (s : Script) (state : σ) (hWithin : t.limits.Within wider) :
    let rolled := ((s.roll t).run state).1
    let dice := ((s.spills t).run state).1
    ((s.spills t).run state).2 = ((s.roll t).run state).2 ∧
      rolled.unrolled = s.unrolled ∧
      rolled.throws = List.zipWith Throw.lying s.throws dice ∧
      ((∀ spill ∈ dice.flatten, spill.isCut = false) →
        (s.spills (t.under wider)).run state = (s.spills t).run state ∧
          (s.roll (t.under wider)).run state = (s.roll t).run state ∧
          (s.evaluate (t.under wider)).run state = (s.evaluate t).run state) := by
  rcases hRoll : (s.roll t).run state with ⟨rolled, next⟩
  obtain ⟨hUnrolled, dice, hDice, hThrows⟩ := roll_run_eq_iff_spills.1 hRoll
  rw [hDice]
  refine ⟨rfl, hUnrolled, hThrows.symm, fun hCut => ?_⟩
  have hDiceUnder : (s.spills (t.under wider)).run state = (dice, next) :=
    Throw.mapM_spills_run_under hDice hCut hWithin
  have hRollUnder : (s.roll (t.under wider)).run state = (rolled, next) :=
    roll_run_eq_iff_spills.2 ⟨hUnrolled, dice, hDiceUnder, hThrows⟩
  refine ⟨hDiceUnder, hRollUnder, ?_⟩
  rw [evaluate_eq, evaluate_eq, StateT.run_map, StateT.run_map, hRoll, hRollUnder]

/-- Limits that are used up, by one redraw and one added die, and cut nothing short. -/
theorem evaluate_run_under_of_limits_used_up :
    let t : Table Nat :=
      { shaker := Tape.cycle #[1, 6, 3, 2], limits := { explode := 1, reroll := 1 } }
    let s := read "(hit) 2d6ie6r1 + 1"
    t.limits.Within {} ∧
      ((s.spills t).run 0).1.flatten.map Spill.draws = [[1, 6, 3, 2]] ∧
      (∀ spill ∈ ((s.spills t).run 0).1.flatten, spill.isCut = false) ∧
      (s.evaluate (t.under {})).run 0 = (s.evaluate t).run 0 := by
  intro t s
  have hWithin : t.limits.Within {} := ⟨by decide, by decide⟩
  have hCut : ∀ spill ∈ ((s.spills t).run 0).1.flatten, spill.isCut = false := by decide +kernel
  have hRun := evaluate_run_under s 0 hWithin
  exact ⟨hWithin, by decide +kernel, hCut, (hRun.2.2.2 hCut).2.2⟩

/-- A limit of zero cuts a single added die short. -/
example :
    let t : Table Nat := { shaker := Tape.highest, limits := { explode := 0 } }
    ∃ spill ∈ (((read "d6e6").spills t).run 0).1.flatten, spill.isCut = true := by decide +kernel

end Script
end DiceTray
