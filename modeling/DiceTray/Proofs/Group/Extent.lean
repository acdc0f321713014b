import DiceTray.Proofs.Group.Throwing
import Mathlib.Algebra.GroupWithZero.Nat
import Mathlib.Algebra.Order.BigOperators.Group.List
import Mathlib.Algebra.Order.Group.Nat

/-! How many dice a group can have, and which faces they can show. Exploding never removes a die,
and what one opening die adds is bounded by the limit on exploding. -/
namespace DiceTray

variable {σ : Type} {p : Pool} {limits : Limits}

/-- The most dice that one opening die can add. -/
def Pool.burstSize (p : Pool) (limits : Limits) : Nat :=
  if p.explode = 0 then 0 else if p.chain then limits.explode else min 1 limits.explode

theorem Pool.burstSize_le (p : Pool) (limits : Limits) : p.burstSize limits ≤ limits.explode := by
  unfold burstSize
  split_ifs <;> omega

/-- A burst that keeps to the limits has at most the most dice that one die can add. -/
theorem Burst.Obeys.length_le {opener : Nat} {b : Burst} (h : b.Obeys p limits opener) :
    b.added.length ≤ p.burstSize limits := by
  unfold Burst.Obeys at h
  unfold Pool.burstSize
  split_ifs at h ⊢ with hExplode hChain
  · rw [h]
    exact Nat.le_refl 0
  · exact h.length_le
  · rw [h.length_eq]
    split_ifs <;> omega

theorem length_flatMap_le {α β : Type} {f : α → List β} {n : Nat} {as : List α}
    (h : ∀ a ∈ as, (f a).length ≤ n) : (as.flatMap f).length ≤ as.length * n := by
  rw [List.length_flatMap, ← Nat.nsmul_eq_mul, ← List.length_map (fun a => (f a).length)]
  exact List.sum_le_card_nsmul _ n (List.forall_mem_map.2 h)

theorem le_length_flatMap {α β : Type} {f : α → List β} {n : Nat} {as : List α}
    (h : ∀ a ∈ as, n ≤ (f a).length) : as.length * n ≤ (as.flatMap f).length := by
  rw [List.length_flatMap, ← Nat.nsmul_eq_mul, ← List.length_map (fun a => (f a).length)]
  exact List.card_nsmul_le_sum _ n (List.forall_mem_map.2 h)

namespace Spill

variable {s : Spill}

/-- The tally of a spill is made of its opening dice and all that they added. -/
theorem length_tally (s : Spill) :
    s.tally.length = s.opening.length + (s.bursts.flatMap Burst.added).length := by
  rw [tally, List.length_map, List.length_append]

/-- Every die of the tally was drawn. -/
theorem mem_draws_of_mem_tally {face : Nat} (h : face ∈ s.tally) : face ∈ s.draws := by
  obtain ⟨die, hDie, rfl⟩ := List.mem_map.1 h
  exact List.mem_flatMap.2 ⟨die, hDie, by simp [Die.draws]⟩

/-- All bursts together add at most the largest burst for every opening die. -/
theorem length_added_le {openers : List Die} {bursts : List Burst}
    (h : List.Forall₂ (fun opener burst => burst.Obeys p limits opener.face) openers bursts) :
    (bursts.flatMap Burst.added).length ≤ openers.length * p.burstSize limits := by
  rw [h.length_eq]
  refine length_flatMap_le fun burst hBurst => ?_
  obtain ⟨opener, -, hObeys⟩ : ∃ opener ∈ openers, burst.Obeys p limits opener.face :=
    exists_of_mem_of_forall₂ h.flip hBurst
  exact hObeys.length_le

/-- No die of the pool is missing from the tally. -/
theorem Obeys.le_length_tally (h : s.Obeys p limits) : p.count ≤ s.tally.length := by
  rw [s.length_tally, h.length_opening]
  exact Nat.le_add_right _ _

/-- The tally has at most one largest burst for every die of the pool, besides these dice. -/
theorem Obeys.length_tally_le (h : s.Obeys p limits) :
    s.tally.length ≤ p.count * (1 + p.burstSize limits) := by
  have hAdded := length_added_le h.bursts
  rw [h.length_opening] at hAdded
  rw [s.length_tally, h.length_opening, Nat.mul_add, Nat.mul_one]
  omega

/-- Since a pool has a die, something is drawn for it. -/
theorem Obeys.draws_ne_nil (h : s.Obeys p limits) : s.draws ≠ [] := by
  have hCount := h.le_length_tally
  have hOne := p.one_le_count
  obtain ⟨face, hFace⟩ := List.exists_mem_of_length_pos (show 0 < s.tally.length by omega)
  exact List.ne_nil_of_mem (mem_draws_of_mem_tally hFace)

end Spill

/-- A group that the pool can be thrown to under the limits. -/
structure Group.Fits (p : Pool) (limits : Limits) (g : Group) : Prop where
  score_tally : p.score g.tally = g
  le_length : p.count ≤ g.tally.length
  length_le : g.tally.length ≤ p.count * (1 + p.burstSize limits)

/-- Whatever is thrown by the rules of a pool scores as a group that fits it. -/
theorem Spill.Obeys.fits {s : Spill} (h : s.Obeys p limits) : (p.score s.tally).Fits p limits :=
  ⟨rfl, h.le_length_tally, h.length_tally_le⟩

/-- Every face that the shaker shows for the number of sides has the property. -/
def Table.ShowsOnly (t : Table σ) (sides : Nat) (P : Nat → Prop) : Prop :=
  ∀ state, P ((t.shaker sides).run state).1

/-- A property of all faces that a shaker can show holds of all faces that it did show. -/
theorem Table.ShowsOnly.forall_mem {t : Table σ} {sides : Nat} {P : Nat → Prop} {state next : σ}
    {faces : List Nat} (hShows : t.ShowsOnly sides P)
    (h : Yields (t.shaker sides) state faces next) : ∀ face ∈ faces, P face := by
  induction h with
  | nil => simp
  | @cons state _ _ _ _ head _ ih =>
      have hFirst := hShows state
      rw [head] at hFirst
      exact List.forall_mem_cons.2 ⟨hFirst, ih⟩

namespace Throw

variable {t : Table σ} {state next : σ} {w v : Throw}

/-- The total of a throw as a sum over a list. -/
theorem total_eq_sum (w : Throw) : w.total = (w.groups.map Group.total).sum := by
  simp [total, List.sum, List.foldr_map]

/-- A roll gives as many groups as the pool asks for, each of which fits. -/
theorem exists_groups_of_roll (h : (w.roll t).run state = (v, next)) :
    ∃ groups, v = { w with groups? := some groups } ∧ groups.length = w.pool.times ∧
      ∀ g ∈ groups, g.Fits w.pool t.limits := by
  obtain ⟨spills, hLength, hObeys, rfl, -⟩ := roll_run_eq_iff.1 h
  refine ⟨_, rfl, by rw [List.length_map, hLength], ?_⟩
  exact List.forall_mem_map.2 fun s hs => (hObeys s hs).fits

/-- Only faces that the shaker can show come to lie in the groups of a roll. -/
theorem forall_mem_tally_of_roll {P : Nat → Prop} (hShows : t.ShowsOnly w.pool.sides P)
    (h : (w.roll t).run state = (v, next)) : ∀ g ∈ v.groups, ∀ face ∈ g.tally, P face := by
  obtain ⟨spills, -, -, rfl, hDraws⟩ := roll_run_eq_iff.1 h
  refine List.forall_mem_map.2 fun s hs face hFace => hShows.forall_mem hDraws face ?_
  exact List.mem_flatMap.2 ⟨s, hs, Spill.mem_draws_of_mem_tally hFace⟩

/-- Rolling draws at least one face, and recording it changes nothing else. -/
theorem roll_recording_run (h : (w.roll t).run state = (v, next)) :
    ∃ drawn, drawn ≠ [] ∧ (w.roll t.recording).run (state, []) = (v, next, drawn) := by
  obtain ⟨spills, hLength, hObeys, hLying, hDraws⟩ := roll_run_eq_iff.1 h
  refine ⟨spills.flatMap Spill.draws, ?_, ?_⟩
  · have hOne := w.pool.one_le_times
    obtain ⟨s, hs⟩ := List.exists_mem_of_length_pos (show 0 < spills.length by omega)
    obtain ⟨face, hFace⟩ := List.exists_mem_of_ne_nil _ (hObeys s hs).draws_ne_nil
    exact List.ne_nil_of_mem (List.mem_flatMap.2 ⟨s, hs, hFace⟩)
  · exact roll_run_eq_iff.2 ⟨spills, hLength, hObeys, hLying, Yields.recording_iff.2 ⟨hDraws, rfl⟩⟩

end Throw
end DiceTray
