import DiceTray.Proofs.Group.Draws
import DiceTray.Proofs.Group.Loops
import DiceTray.Proofs.Script.Dice

/-! How many faces a roll draws. Main statement: rolling a script comes to an end whatever the
shaker shows, after at least one draw for every die and at most as many as the limits allow, and a
shaker that always shows the same face can make it come to that. -/
namespace DiceTray

variable {σ : Type} {t : Table σ} {state next : σ}

namespace Throw

variable {w : Throw} {spills : List Spill}

/-- The most faces that can be drawn for the throw. -/
def mostDraws (limits : Limits) (w : Throw) : Nat :=
  w.pool.times * w.pool.count * (1 + w.pool.burstSize limits) * (1 + w.pool.redrawSize limits)

/-- Each die of each group is drawn at least once. -/
theorem le_length_draws (h : (w.spills t).run state = (spills, next)) :
    w.pool.times * w.pool.count ≤ (spills.flatMap Spill.draws).length := by
  obtain ⟨hLength, hObeys, -⟩ := spills_run_eq_iff.1 h
  rw [← hLength]
  exact le_length_flatMap fun s hs => (hObeys s hs).le_length_draws

/-- No throw draws more than all its dice could. -/
theorem length_draws_le (h : (w.spills t).run state = (spills, next)) :
    (spills.flatMap Spill.draws).length ≤ w.mostDraws t.limits := by
  obtain ⟨hLength, hObeys, -⟩ := spills_run_eq_iff.1 h
  rw [mostDraws, Nat.mul_assoc, Nat.mul_assoc, ← hLength, ← Nat.mul_assoc w.pool.count]
  exact length_flatMap_le fun s hs => (hObeys s hs).length_draws_le

/-- If no face ever lets a die rest, a throw draws as much as it could. -/
theorem length_draws_eq (h : (w.spills t).run state = (spills, next))
    (hShows : t.ShowsOnly w.pool.sides w.pool.NeverRests) :
    (spills.flatMap Spill.draws).length = w.mostDraws t.limits := by
  refine Nat.le_antisymm (length_draws_le h) ?_
  obtain ⟨hLength, hObeys, hDraws⟩ := spills_run_eq_iff.1 h
  have hFaces := hShows.forall_mem hDraws
  rw [mostDraws, Nat.mul_assoc, Nat.mul_assoc, ← hLength, ← Nat.mul_assoc w.pool.count]
  refine le_length_flatMap fun s hs => ((hObeys s hs).length_draws_eq fun face hFace => ?_).ge
  exact hFaces face (List.mem_flatMap.2 ⟨s, hs, hFace⟩)

/-- Bounds on the draws of each throw add up, whatever state a throw is reached in. -/
theorem length_draws_mapM (low high : Throw → Nat) {throws : List Throw} {dice : List (List Spill)}
    (h : ∀ w ∈ throws, ∀ before spills after, (w.spills t).run before = (spills, after) →
      low w ≤ (spills.flatMap Spill.draws).length ∧
        (spills.flatMap Spill.draws).length ≤ high w)
    (hRun : (throws.mapM (Throw.spills t)).run state = (dice, next)) :
    (throws.map low).sum ≤ (dice.flatten.flatMap Spill.draws).length ∧
      (dice.flatten.flatMap Spill.draws).length ≤ (throws.map high).sum := by
  induction throws generalizing state dice with
  | nil =>
      cases hRun
      simp
  | cons w throws ih =>
      obtain ⟨first, rest, middle, rfl, hFirst, hRest⟩ := mapM_cons_run_eq_iff.1 hRun
      have hHead := h w List.mem_cons_self _ _ _ hFirst
      have hTail := ih (fun v hv => h v (List.mem_cons_of_mem _ hv)) hRest
      simp only [List.map_cons, List.sum_cons, List.flatten_cons, List.flatMap_append,
        List.length_append]
      omega

end Throw

def Table.showing (face : Nat) (limits : Limits) : Table Unit where
  shaker _ := pure face
  limits := limits

namespace Script

/-- If no face that the shaker shows ever rests then a roll draws as often as the limits allow. -/
theorem length_drawn_eq {s rolled : Script} {drawn : List Nat}
    (hShows : ∀ w ∈ s.throws, t.ShowsOnly w.pool.sides w.pool.NeverRests)
    (h : (s.roll t.recording).run (state, []) = (rolled, next, drawn)) :
    drawn.length = (s.throws.map (Throw.mostDraws t.limits)).sum := by
  obtain ⟨-, dice, hDice, rfl⟩ := roll_recording_run_eq_iff.1 h
  have hEach : ∀ w ∈ s.throws, ∀ before spills after, (w.spills t).run before = (spills, after) →
      w.mostDraws t.limits ≤ (spills.flatMap Spill.draws).length ∧
        (spills.flatMap Spill.draws).length ≤ w.mostDraws t.limits := by
    intro w hw before spills after hRun
    rw [Throw.length_draws_eq hRun (hShows w hw)]
    exact ⟨Nat.le_refl _, Nat.le_refl _⟩
  obtain ⟨hLow, hHigh⟩ := Throw.length_draws_mapM _ _ hEach hDice
  exact Nat.le_antisymm hHigh hLow

/-- Rolling ends, whatever the shaker shows: every die and every burst is what its loop ends in. A
roll draws at least one face for every die, and at most as many as the limits allow, each limit
where the pool makes use of it. If the lowest face that adds a die is one that the pool draws again
then some face, shown each time, makes every roll of such pools draw exactly that many. -/
theorem roll_draws (t : Table σ) (s : Script) (state : σ) :
    ((∀ p before die after,
        t.DieEnds p before die after ↔ (t.throwDie p).run before = (die, after)) ∧
      ∀ p opener before burst after, t.BurstEnds p opener before burst after ↔
        (t.throwBurst p opener).run before = (burst, after)) ∧
    (∃ rolled next drawn, (s.roll t).run state = (rolled, next) ∧
      (s.roll t.recording).run (state, []) = (rolled, next, drawn) ∧
      (s.throws.map fun w => w.pool.times * w.pool.count).sum ≤ drawn.length ∧
      drawn.length ≤ (s.throws.map fun w => w.pool.times * w.pool.count *
        (1 + w.pool.burstSize t.limits) * (1 + w.pool.redrawSize t.limits)).sum) ∧
    ∀ (p : Pool) (limits : Limits), 0 < p.explode → p.explode ≤ p.reroll → p.reroll < p.sides →
      ∃ face, 1 ≤ face ∧ face ≤ p.sides ∧ ∀ s : Script, (∀ w ∈ s.throws, w.pool = p) →
        ((s.roll (Table.showing face limits).recording).run ((), [])).2.2.length =
          (s.throws.map fun w => w.pool.times * w.pool.count *
            (1 + w.pool.burstSize limits) * (1 + w.pool.redrawSize limits)).sum := by
  refine ⟨⟨fun _ _ _ _ => Table.dieEnds_iff, fun _ _ _ _ _ => Table.burstEnds_iff⟩, ?_, ?_⟩
  · rcases hRoll : (s.roll t).run state with ⟨rolled, next⟩
    obtain ⟨-, dice, hDice, -⟩ := roll_run_eq_iff_spills.1 hRoll
    have hRecorded : (s.roll t.recording).run (state, []) =
        (rolled, next, dice.flatten.flatMap Spill.draws) :=
      roll_recording_run_eq_iff.2 ⟨hRoll, dice, hDice, (List.nil_append _).symm⟩
    have hBounds := Throw.length_draws_mapM (fun w => w.pool.times * w.pool.count)
      (Throw.mostDraws t.limits)
      (fun w _ _ _ _ hRun => ⟨Throw.le_length_draws hRun, Throw.length_draws_le hRun⟩) hDice
    exact ⟨rolled, next, _, rfl, hRecorded, hBounds.1, hBounds.2⟩
  · intro p limits hExplode hReroll hSides
    have hNeverRests : p.NeverRests p.reroll := ⟨hExplode, hReroll, Nat.le_refl _, hSides⟩
    refine ⟨p.reroll, Nat.le_trans hExplode hReroll, Nat.le_of_lt hSides, fun s hPool => ?_⟩
    have hShows : ∀ w ∈ s.throws,
        (Table.showing p.reroll limits).ShowsOnly w.pool.sides w.pool.NeverRests := by
      intro w hw _
      rw [hPool w hw]
      exact hNeverRests
    rcases hRun : (s.roll (Table.showing p.reroll limits).recording).run ((), []) with
      ⟨rolled, next, drawn⟩
    have hDrawn := length_drawn_eq hShows hRun
    exact hDrawn

/-- Two groups of three dice, each of which adds two; each of these is drawn four times. -/
theorem roll_draws_of_restless_dice :
    let s := read "2x3d6ie2r4"
    let limits : Limits := { explode := 2, reroll := 3 }
    ∃ p : Pool, 0 < p.explode ∧ p.explode ≤ p.reroll ∧ p.reroll < p.sides ∧
      (∀ w ∈ s.throws, w.pool = p) ∧ ∃ face, 1 ≤ face ∧ face ≤ p.sides ∧
        ((s.roll (Table.showing face limits).recording).run ((), [])).2.2.length =
          2 * 3 * (1 + 2) * (1 + 3) := by
  intro s limits
  let p : Pool :=
    ⟨{ times := 2, count := 3, sides := 6, explode := 2, chain := true, reroll := 4 },
      by decide, by decide, by decide⟩
  have hPool : ∀ w ∈ s.throws, w.pool = p := by decide +kernel
  have hExplode : 0 < p.explode := by decide
  have hReroll : p.explode ≤ p.reroll := by decide
  have hSides : p.reroll < p.sides := by decide
  obtain ⟨face, hOne, hFace, hDraws⟩ :=
    (roll_draws (Table.showing 4 limits) s ()).2.2 p limits hExplode hReroll hSides
  have hSum : (s.throws.map fun w => w.pool.times * w.pool.count *
      (1 + w.pool.burstSize limits) * (1 + w.pool.redrawSize limits)).sum =
        2 * 3 * (1 + 2) * (1 + 3) := by decide +kernel
  exact ⟨p, hExplode, hReroll, hSides, hPool, face, hOne, hFace, (hDraws s hPool).trans hSum⟩

end Script
end DiceTray
