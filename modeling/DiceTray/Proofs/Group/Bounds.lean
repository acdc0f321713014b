import DiceTray.Proofs.Group.Choice

/-! The bounds of a pool and the groups that it can be thrown to. Main statement: where no die
explodes and there is no target, no group is worth more than the upper bound; the lower bound holds
of the groups whose dice all came to rest, and both are met, exactly if dropping is not in force. -/
namespace DiceTray

variable {p : Pool} {limits : Limits} {P : Nat → Prop} {g : Group}

def Pool.IsFace (p : Pool) (face : Nat) : Prop := 1 ≤ face ∧ face ≤ p.sides

/-- The group can be thrown under the limits by some shaker that shows only faces with the
property. -/
def Pool.Throws (p : Pool) (limits : Limits) (P : Nat → Prop) (g : Group) : Prop :=
  ∃ (σ : Type) (t : Table σ) (state next : σ), t.limits = limits ∧ t.ShowsOnly p.sides P ∧
    (t.throwGroup p).run state = (g, next)

/-- No die of the group was left on a face that should have been drawn again. -/
def Group.IsClean (p : Pool) (g : Group) : Prop := p.reroll = 0 ∨ ∀ face ∈ g.tally, p.reroll < face

def Table.steady (limits : Limits) (face : Nat) : Table Unit where
  shaker _ := pure face
  limits := limits

/-- The group that is thrown where every die shows the same face. -/
def Pool.steadyGroup (p : Pool) (limits : Limits) (face : Nat) : Group :=
  (((Table.steady limits face).throwGroup p).run ()).1

/-- A group is clean if the limit on rerolling has cut no die of it short. -/
theorem Spill.Obeys.isClean_score_iff {s : Spill} (h : s.Obeys p limits)
    (hReroll : p.reroll < p.sides) :
    (p.score s.tally).IsClean p ↔ ∀ die ∈ s.dice, die.cut = false := by
  have hTally : (∀ face ∈ s.tally, p.reroll < face) ↔ ∀ die ∈ s.dice, p.reroll < die.face :=
    List.forall_mem_map
  change p.reroll = 0 ∨ (∀ face ∈ s.tally, p.reroll < face) ↔ _
  rw [hTally]
  by_cases hZero : p.reroll = 0
  · refine iff_of_true (.inl hZero) fun die hDie => ?_
    have hObeys := h.dice die hDie
    rw [Die.Obeys, if_neg (by omega)] at hObeys
    exact hObeys.2
  · rw [or_iff_right hZero]
    refine forall₂_congr fun die hDie => ?_
    have hSettled := h.dice die hDie
    rw [Die.Obeys, if_pos ⟨Nat.pos_of_ne_zero hZero, hReroll⟩] at hSettled
    rw [← Bool.not_eq_true, hSettled.cut_iff, Nat.not_le]

namespace Pool

/-- Dropping can make fewer dice count than the bounds take for counting, never more. -/
theorem quota_count_le_selected (p : Pool) : p.quota p.count ≤ p.selected := by
  unfold quota selected
  split_ifs <;> omega

/-- The bounds take every die for one that counts unless dice are kept. -/
theorem selected_le_quota_count_iff : p.selected ≤ p.quota p.count ↔ 0 < p.keep ∨ p.drop = 0 := by
  have hCount := p.one_le_count
  unfold quota selected
  split_ifs <;> omega

theorem lowest_of_reroll_lt (h : p.reroll < p.sides) : p.lowest = p.reroll + 1 :=
  if_neg (Nat.not_le.2 h)

/-- What a number of equal dice come to is told by their number. -/
theorem level_le_level_iff {m n face : Nat} (hFace : 0 < face) :
    m * face * p.scale ≤ n * face * p.scale ↔ m ≤ n := by
  rw [Nat.mul_le_mul_right_iff p.scale_pos, Nat.mul_le_mul_right_iff hFace]

/-- A group that can be thrown is the score of dice that obey the pool and show only such faces. -/
theorem Throws.exists_spill (h : p.Throws limits P g) :
    ∃ s : Spill, s.Obeys p limits ∧ p.score s.tally = g ∧ ∀ face ∈ s.tally, P face := by
  obtain ⟨σ, t, state, next, rfl, hShows, hRun⟩ := h
  obtain ⟨s, hObeys, hScore, hDraws⟩ := Table.throwGroup_run_eq_iff.1 hRun
  exact ⟨s, hObeys, hScore, fun face hFace =>
    hShows.forall_mem hDraws face (Spill.mem_draws_of_mem_tally hFace)⟩

theorem Throws.forall_mem_tally (h : p.Throws limits P g) : ∀ face ∈ g.tally, P face := by
  obtain ⟨s, -, rfl, hTally⟩ := h.exists_spill
  exact hTally

/-- Where no die explodes the group has its opening dice only. -/
theorem Throws.total_eq (h : p.Throws limits P g) (hExplode : p.explode = 0) :
    g.total = p.worth (p.keptFaces g.tally) ∧
      (p.keptFaces g.tally).length = p.quota p.count := by
  obtain ⟨s, hObeys, rfl, -⟩ := h.exists_spill
  have hNone : p.burstSize limits = 0 := if_pos hExplode
  have hLower := hObeys.le_length_tally
  have hUpper := hObeys.length_tally_le
  rw [hNone, Nat.add_zero, Nat.mul_one] at hUpper
  have hLength : s.tally.length = p.count := Nat.le_antisymm hUpper hLower
  exact ⟨rfl, by rw [length_keptFaces, ← hLength]; rfl⟩

/-- Without exploding no more dice than the quota count, and none shows more than the highest face.
-/
theorem Throws.total_le {top : Nat} (h : p.Throws limits P g) (hExplode : p.explode = 0)
    (hTop : ∀ face, P face → face ≤ top) : g.total ≤ p.quota p.count * top * p.scale := by
  obtain ⟨hTotal, hLength⟩ := h.total_eq hExplode
  rw [hTotal, ← hLength]
  exact p.worth_le fun face hFace =>
    hTop face (h.forall_mem_tally face (mem_of_mem_keptFaces hFace))

/-- Without exploding and without a target all dice of the quota count, and none shows less than the
lowest face. -/
theorem Throws.le_total {low : Nat} (h : p.Throws limits P g) (hExplode : p.explode = 0)
    (hTarget : p.target = 0) (hLow : ∀ face ∈ g.tally, low ≤ face) :
    p.quota p.count * low * p.scale ≤ g.total := by
  obtain ⟨hTotal, hLength⟩ := h.total_eq hExplode
  rw [hTotal, ← hLength, worth_of_target_eq_zero hTarget]
  refine Nat.mul_le_mul_right _ ?_
  exact List.card_nsmul_le_sum _ low fun face hFace => hLow face (mem_of_mem_keptFaces hFace)

/-- A shaker that is bound to some faces is bound to any faces among which these are. -/
theorem Throws.imp {Q : Nat → Prop} (h : p.Throws limits P g) (hImp : ∀ face, P face → Q face) :
    p.Throws limits Q g := by
  obtain ⟨σ, t, state, next, hLimits, hShows, hRun⟩ := h
  exact ⟨σ, t, state, next, hLimits, fun s => hImp _ (hShows s), hRun⟩

/-- The steady table is a witness that its group can be thrown. -/
theorem throws_steadyGroup (p : Pool) (limits : Limits) (face : Nat) :
    p.Throws limits (· = face) (p.steadyGroup limits face) :=
  ⟨Unit, Table.steady limits face, (), (), rfl, fun _ => rfl, rfl⟩

/-- Equal dice come to as many times their face as the quota says, multiplied. -/
theorem total_steadyGroup (hExplode : p.explode = 0) (hTarget : p.target = 0) (face : Nat) :
    (p.steadyGroup limits face).total = p.quota p.count * face * p.scale := by
  have hThrows := p.throws_steadyGroup limits face
  refine Nat.le_antisymm (hThrows.total_le hExplode fun _ => Nat.le_of_eq) ?_
  exact hThrows.le_total hExplode hTarget fun _ hFace =>
    Nat.le_of_eq (hThrows.forall_mem_tally _ hFace).symm

/-- The lowest face above the threshold on rerolling is never drawn again. -/
theorem isClean_steadyGroup (p : Pool) (limits : Limits) :
    (p.steadyGroup limits (p.reroll + 1)).IsClean p := by
  refine .inr fun face hFace => ?_
  rw [(p.throws_steadyGroup limits _).forall_mem_tally face hFace]
  exact Nat.lt_succ_self _

theorem throws_isFace_steadyGroup {face : Nat} (h : p.IsFace face) :
    p.Throws limits p.IsFace (p.steadyGroup limits face) :=
  (p.throws_steadyGroup limits face).imp fun _ hEq => hEq ▸ h

/-- No group of dice that do not explode, scored without a target, is worth more than the maximum.
If some face is not drawn again, then the clean groups are those of which the limit on rerolling has
cut no die short. Exactly where dropping is not in force the minimum is a lower bound of the clean
groups and the maximum is the worth of some group; the one is met if all dice show the lowest face
that rests, the other if all show the highest face. -/
theorem total_within_bounds (p : Pool) (limits : Limits) (hExplode : p.explode = 0)
    (hTarget : p.target = 0) :
    (∀ g, p.Throws limits p.IsFace g → g.total ≤ p.maximum) ∧
      (p.reroll < p.sides →
        (∀ s : Spill, s.Obeys p limits →
          ((p.score s.tally).IsClean p ↔ ∀ die ∈ s.dice, die.cut = false)) ∧
        ((∀ g, p.Throws limits p.IsFace g → g.IsClean p → p.minimum ≤ g.total) ↔
          0 < p.keep ∨ p.drop = 0) ∧
        (0 < p.keep ∨ p.drop = 0 →
          (p.steadyGroup limits (p.reroll + 1)).IsClean p ∧
            (p.steadyGroup limits (p.reroll + 1)).total = p.minimum) ∧
        ((∃ g, p.Throws limits p.IsFace g ∧ g.total = p.maximum) ↔ 0 < p.keep ∨ p.drop = 0) ∧
        (0 < p.keep ∨ p.drop = 0 → (p.steadyGroup limits p.sides).total = p.maximum)) := by
  have hUpper : ∀ g, p.Throws limits p.IsFace g → g.total ≤ p.quota p.count * p.sides * p.scale :=
    fun g hg => hg.total_le hExplode fun _ => And.right
  have hSides : p.IsFace p.sides := ⟨Nat.le_of_succ_le p.two_le_sides, Nat.le_refl _⟩
  have hSelected : 0 < p.keep ∨ p.drop = 0 → p.quota p.count = p.selected := fun h =>
    Nat.le_antisymm p.quota_count_le_selected (selected_le_quota_count_iff.2 h)
  have hHighest : (p.steadyGroup limits p.sides).total = p.quota p.count * p.sides * p.scale :=
    total_steadyGroup hExplode hTarget p.sides
  refine ⟨fun g hg => ?_, fun hReroll => ?_⟩
  · exact (hUpper g hg).trans ((level_le_level_iff hSides.1).2 p.quota_count_le_selected)
  · have hMinimum : p.minimum = p.selected * (p.reroll + 1) * p.scale := by
      rw [minimum, lowest_of_reroll_lt hReroll]
    have hLowest : (p.steadyGroup limits (p.reroll + 1)).total =
        p.quota p.count * (p.reroll + 1) * p.scale :=
      total_steadyGroup hExplode hTarget (p.reroll + 1)
    have hClean := p.isClean_steadyGroup limits
    refine ⟨fun s hs => hs.isClean_score_iff hReroll,
      ⟨fun hBound => ?_, fun hDrop g hg hRest => ?_⟩,
      fun hDrop => ⟨hClean, ?_⟩, ⟨?_, fun hDrop => ?_⟩, fun hDrop => ?_⟩
    · have hFace : p.IsFace (p.reroll + 1) := ⟨Nat.le_add_left _ _, hReroll⟩
      have hLe := hBound _ (throws_isFace_steadyGroup hFace) hClean
      rw [hMinimum, hLowest, level_le_level_iff (Nat.succ_pos _)] at hLe
      exact selected_le_quota_count_iff.1 hLe
    · rw [hMinimum, ← hSelected hDrop]
      refine hg.le_total hExplode hTarget fun face hFace => ?_
      rcases hRest with hZero | hRest
      · rw [hZero]
        exact (hg.forall_mem_tally face hFace).1
      · exact hRest face hFace
    · rw [hLowest, hMinimum, hSelected hDrop]
    · rintro ⟨g, hg, hMaximum⟩
      have hLe := hUpper g hg
      rw [hMaximum, maximum, level_le_level_iff hSides.1] at hLe
      exact selected_le_quota_count_iff.1 hLe
    · refine ⟨_, throws_isFace_steadyGroup hSides, ?_⟩
      rw [hHighest, maximum, hSelected hDrop]
    · rw [hHighest, maximum, hSelected hDrop]

/-- The three highest of four dice, and all but the lowest of four; ones are drawn again and totals
doubled. Only the second pool drops dice, and it cannot reach its maximum. -/
theorem total_within_bounds_of_four_dice :
    let p : Pool := ⟨{ sides := 6, count := 4, reroll := 1, keep := 3, multiplier := 2 }, by decide,
      by decide, by decide⟩
    let q : Pool := ⟨{ p.toDraft with keep := 0, drop := 1 }, by decide, by decide, by decide⟩
    (p.explode = 0 ∧ p.target = 0 ∧ p.reroll < p.sides ∧ (0 < p.keep ∨ p.drop = 0)) ∧
    ((p.steadyGroup {} 2).total = 12 ∧ (p.steadyGroup {} 6).total = 36 ∧
      12 ≤ (p.steadyGroup {} 4).total ∧ (p.steadyGroup {} 4).total ≤ 36) ∧
    ¬ ∃ g, q.Throws {} q.IsFace g ∧ g.total = 48 := by
  intro p q
  have hReroll : p.reroll < p.sides := by decide
  have hDrop : 0 < p.keep ∨ p.drop = 0 := by decide
  have hFour : p.Throws {} p.IsFace (p.steadyGroup {} 4) :=
    throws_isFace_steadyGroup ⟨by decide, by decide⟩
  have hClean : (p.steadyGroup {} 4).IsClean p := by
    refine .inr fun face hFace => ?_
    rw [(p.throws_steadyGroup {} 4).forall_mem_tally face hFace]
    decide
  obtain ⟨hUpper, hRest⟩ := total_within_bounds p {} rfl rfl
  obtain ⟨-, hLower, hLowest, -, hHighest⟩ := hRest hReroll
  obtain ⟨-, -, -, hMaximum, -⟩ := (total_within_bounds q {} rfl rfl).2 hReroll
  exact ⟨⟨rfl, rfl, hReroll, hDrop⟩,
    ⟨(hLowest hDrop).2, hHighest hDrop, hLower.2 hDrop _ hFour hClean, hUpper _ hFour⟩,
    fun h => absurd (hMaximum.1 h) (by decide)⟩

end Pool
end DiceTray
