import DiceTray.Proofs.Group.Extent

/-! How many faces are drawn for a group. Every die is drawn at least once, and the limit on
rerolling bounds how often one die is drawn, as the limit on exploding bounds how many dice there
are. Both bounds are met if all faces that show are drawn again and add a die. -/
namespace DiceTray

variable {p : Pool} {limits : Limits}

/-- How often one die can be drawn again. -/
def Pool.redrawSize (p : Pool) (limits : Limits) : Nat :=
  if 0 < p.reroll ∧ p.reroll < p.sides then limits.reroll else 0

/-- The face is drawn again as long as that is allowed, and then adds a die as long as that is. -/
structure Pool.NeverRests (p : Pool) (face : Nat) : Prop where
  explode_pos : 0 < p.explode
  explode_le : p.explode ≤ face
  le_reroll : face ≤ p.reroll
  reroll_lt_sides : p.reroll < p.sides

namespace Die

variable {d : Die}

theorem length_draws (d : Die) : d.draws.length = d.rejected.length + 1 := by
  rw [draws, List.length_append, List.length_singleton]

theorem Obeys.length_draws_le (h : d.Obeys p limits) :
    d.draws.length ≤ 1 + p.redrawSize limits := by
  rw [d.length_draws, Nat.add_comm]
  unfold Obeys at h
  unfold Pool.redrawSize
  split_ifs at h ⊢
  · exact Nat.add_le_add_left h.length_le 1
  · rw [h.1]
    exact Nat.le_refl _

theorem Obeys.length_draws_eq (h : d.Obeys p limits) (hFace : p.NeverRests d.face) :
    d.draws.length = 1 + p.redrawSize limits := by
  have hLow : p.explode ≤ p.reroll := Nat.le_trans hFace.explode_le hFace.le_reroll
  have hRerolls : 0 < p.reroll ∧ p.reroll < p.sides :=
    ⟨Nat.lt_of_lt_of_le hFace.explode_pos hLow, hFace.reroll_lt_sides⟩
  have hSettled : d.Settled p.reroll limits.reroll := by
    unfold Obeys at h
    rwa [if_pos hRerolls] at h
  have hAll : ¬ d.rejected.length < limits.reroll := fun hLess =>
    Nat.not_le.2 (hSettled.lt_face hLess) hFace.le_reroll
  have hLength := hSettled.length_le
  rw [d.length_draws, Pool.redrawSize, if_pos hRerolls]
  omega

end Die

/-- A burst whose dice are all high enough to explode has added as many dice as it can. -/
theorem Burst.Obeys.length_added_eq {opener : Nat} {b : Burst} (h : b.Obeys p limits opener)
    (hPos : 0 < p.explode) (hHigh : ∀ face ∈ opener :: b.faces, p.explode ≤ face) :
    b.added.length = p.burstSize limits := by
  unfold Burst.Obeys at h
  unfold Pool.burstSize
  split_ifs at h ⊢ with hExplode hChain
  · omega
  · have hLast := hHigh (b.faces.getLastD opener) List.getLastD_mem_cons
    have hAll : ¬ b.added.length < limits.explode := fun hLess =>
      Nat.not_le.2 (h.last_lt hLess) hLast
    have hLength := h.length_le
    omega
  · have hOpener := hHigh opener List.mem_cons_self
    rw [h.length_eq]
    split_ifs <;> omega

namespace Spill

variable {s : Spill}

theorem length_dice (s : Spill) : s.dice.length = s.tally.length := by
  rw [tally, List.length_map, dice]

theorem face_mem_draws {die : Die} (h : die ∈ s.dice) : die.face ∈ s.draws :=
  mem_draws_of_mem_tally (List.mem_map_of_mem h)

/-- Every die of the pool is drawn at least once. -/
theorem Obeys.le_length_draws (h : s.Obeys p limits) : p.count ≤ s.draws.length := by
  have hEach : ∀ die ∈ s.dice, 1 ≤ die.draws.length := fun die _ => by
    rw [die.length_draws]
    omega
  calc p.count
    _ ≤ s.dice.length := by rw [s.length_dice]; exact h.le_length_tally
    _ = s.dice.length * 1 := (Nat.mul_one _).symm
    _ ≤ s.draws.length := le_length_flatMap hEach

theorem Obeys.length_draws_le (h : s.Obeys p limits) :
    s.draws.length ≤ p.count * (1 + p.burstSize limits) * (1 + p.redrawSize limits) := by
  calc s.draws.length
    _ ≤ s.dice.length * (1 + p.redrawSize limits) :=
      length_flatMap_le fun die hDie => (h.dice die hDie).length_draws_le
    _ ≤ p.count * (1 + p.burstSize limits) * (1 + p.redrawSize limits) := by
      rw [s.length_dice]
      exact Nat.mul_le_mul_right _ h.length_tally_le

/-- If no face that is drawn ever rests then both limits are used up, by every die. -/
theorem Obeys.length_draws_eq (h : s.Obeys p limits)
    (hDraws : ∀ face ∈ s.draws, p.NeverRests face) :
    s.draws.length = p.count * (1 + p.burstSize limits) * (1 + p.redrawSize limits) := by
  have hDie : ∀ die ∈ s.dice, p.NeverRests die.face := fun die hDie =>
    hDraws _ (face_mem_draws hDie)
  have hBurst : ∀ burst ∈ s.bursts, p.burstSize limits ≤ burst.added.length := by
    intro burst hMem
    obtain ⟨opener, hOpener, hObeys⟩ : ∃ opener ∈ s.opening, burst.Obeys p limits opener.face :=
      exists_of_mem_of_forall₂ h.bursts.flip hMem
    have hFirst := hDie opener (List.mem_append_left _ hOpener)
    have hHigh : ∀ face ∈ opener.face :: burst.faces, p.explode ≤ face := by
      refine List.forall_mem_cons.2 ⟨hFirst.explode_le, List.forall_mem_map.2 fun die hAdded => ?_⟩
      have hMemDice := List.mem_append_right s.opening (List.mem_flatMap.2 ⟨burst, hMem, hAdded⟩)
      exact (hDie die hMemDice).explode_le
    exact Nat.le_of_eq (hObeys.length_added_eq hFirst.explode_pos hHigh).symm
  have hDice : p.count * (1 + p.burstSize limits) ≤ s.dice.length := by
    have hAdded := le_length_flatMap hBurst
    rw [← h.bursts.length_eq, h.length_opening] at hAdded
    rw [Spill.dice, List.length_append, h.length_opening, Nat.mul_add, Nat.mul_one]
    omega
  have hEach : ∀ die ∈ s.dice, 1 + p.redrawSize limits ≤ die.draws.length := fun die hMem =>
    Nat.le_of_eq ((h.dice die hMem).length_draws_eq (hDie die hMem)).symm
  refine Nat.le_antisymm h.length_draws_le ?_
  calc p.count * (1 + p.burstSize limits) * (1 + p.redrawSize limits)
    _ ≤ s.dice.length * (1 + p.redrawSize limits) := Nat.mul_le_mul_right _ hDice
    _ ≤ s.draws.length := le_length_flatMap hEach

end Spill
end DiceTray
