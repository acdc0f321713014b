import DiceTray.Group.Score
import Mathlib.Data.List.Forall2

/-! The rules of rerolling and exploding, stated of the dice at rest and not of the loops that throw
them. -/
namespace DiceTray

/-- The faces drawn for the die, the one that it rests on last. -/
def Die.draws (d : Die) : List Nat := d.rejected ++ [d.face]

/-- Faces up to the threshold were drawn again, as long as the allowance lasted. -/
structure Die.Settled (threshold allowance : Nat) (d : Die) : Prop where
  rejected_le : ∀ face ∈ d.rejected, face ≤ threshold
  length_le : d.rejected.length ≤ allowance
  lt_face : d.rejected.length < allowance → threshold < d.face
  cut_iff : d.cut = true ↔ d.face ≤ threshold

def Die.Obeys (p : Pool) (limits : Limits) (d : Die) : Prop :=
  if 0 < p.reroll ∧ p.reroll < p.sides then d.Settled p.reroll limits.reroll
  else d.rejected = [] ∧ d.cut = false

def Burst.faces (b : Burst) : List Nat := b.added.map Die.face

/-- Every face from the threshold on added a die, as long as the allowance lasted. -/
structure Burst.Chained (threshold allowance opener : Nat) (b : Burst) : Prop where
  le_of_mem_dropLast : ∀ face ∈ (opener :: b.faces).dropLast, threshold ≤ face
  length_le : b.added.length ≤ allowance
  last_lt : b.added.length < allowance → b.faces.getLastD opener < threshold
  cut_iff : b.cut = true ↔ threshold ≤ b.faces.getLastD opener

/-- The opening face alone added a die, if it was high and there was any allowance. -/
structure Burst.Single (threshold allowance opener : Nat) (b : Burst) : Prop where
  length_eq : b.added.length = if threshold ≤ opener ∧ 1 ≤ allowance then 1 else 0
  cut_iff : b.cut = true ↔ threshold ≤ opener ∧ allowance = 0

def Burst.Obeys (p : Pool) (limits : Limits) (opener : Nat) (b : Burst) : Prop :=
  if p.explode = 0 then b = none
  else if p.chain then b.Chained p.explode limits.explode opener
  else b.Single p.explode limits.explode opener

namespace Spill

/-- All dice in the order in which they came to rest. -/
def dice (s : Spill) : List Die := s.opening ++ s.bursts.flatMap Burst.added

def draws (s : Spill) : List Nat := s.dice.flatMap Die.draws

structure Obeys (p : Pool) (limits : Limits) (s : Spill) : Prop where
  length_opening : s.opening.length = p.count
  dice : ∀ die ∈ s.dice, die.Obeys p limits
  bursts : List.Forall₂ (fun opener burst => burst.Obeys p limits opener.face) s.opening s.bursts

end Spill

namespace Die

variable {threshold allowance face last : Nat} {rejected : List Nat} {cut : Bool}

/-- A die that was not drawn again was high enough, or else there was no allowance and it was cut
short. -/
theorem settled_nil_iff :
    (⟨[], last, cut⟩ : Die).Settled threshold allowance ↔
      (0 < allowance → threshold < last) ∧ (cut = true ↔ last ≤ threshold) := by
  constructor
  · intro h
    exact ⟨h.lt_face, h.cut_iff⟩
  · rintro ⟨hLast, hCut⟩
    exact ⟨by simp, Nat.zero_le _, hLast, hCut⟩

/-- The first face that was rejected uses up one of the allowance, and the rest is settled by
itself. -/
theorem settled_cons_iff :
    (⟨face :: rejected, last, cut⟩ : Die).Settled threshold (allowance + 1) ↔
      face ≤ threshold ∧ (⟨rejected, last, cut⟩ : Die).Settled threshold allowance := by
  constructor
  · intro h
    refine ⟨h.rejected_le face List.mem_cons_self, ?_, ?_, ?_, h.cut_iff⟩
    · exact fun f hf => h.rejected_le f (List.mem_cons_of_mem _ hf)
    · exact Nat.le_of_succ_le_succ h.length_le
    · exact fun hLength => h.lt_face (Nat.succ_lt_succ hLength)
  · rintro ⟨hFace, h⟩
    refine ⟨?_, Nat.succ_le_succ h.length_le, ?_, h.cut_iff⟩
    · exact List.forall_mem_cons.2 ⟨hFace, h.rejected_le⟩
    · exact fun hLength => h.lt_face (Nat.lt_of_succ_lt_succ hLength)

theorem draws_ne_nil (d : Die) : d.draws ≠ [] := by simp [draws]

/-- A die that is never drawn again settles on the face that it showed first. -/
theorem Settled.eq_of_rejected_eq_nil {d : Die} {later : List Nat}
    (h : d.Settled threshold allowance) (hRejected : d.rejected = [])
    (hDraws : d.draws = face :: later) : d = ⟨[], face, face ≤ threshold⟩ ∧ later = [] := by
  rcases d with ⟨rejected, last, cut⟩
  have hCut : cut = decide (last ≤ threshold) := by
    rw [Bool.eq_iff_iff, decide_eq_true_iff]
    exact h.cut_iff
  cases hRejected
  cases hDraws
  exact ⟨by rw [hCut], rfl⟩

end Die

namespace Burst

variable {threshold allowance opener : Nat} {die : Die} {added : List Die} {cut : Bool}

/-- A chain without dice has an opener that was too low, or else there was no allowance and it was
cut short. -/
theorem chained_nil_iff :
    (⟨[], cut⟩ : Burst).Chained threshold allowance opener ↔
      (0 < allowance → opener < threshold) ∧ (cut = true ↔ threshold ≤ opener) := by
  constructor
  · intro h
    exact ⟨h.last_lt, h.cut_iff⟩
  · rintro ⟨hLast, hCut⟩
    exact ⟨by simp [faces], Nat.zero_le _, hLast, hCut⟩

/-- The first die of a chain uses up one of the allowance and opens the rest of the chain. -/
theorem chained_cons_iff :
    (⟨die :: added, cut⟩ : Burst).Chained threshold (allowance + 1) opener ↔
      threshold ≤ opener ∧ (⟨added, cut⟩ : Burst).Chained threshold allowance die.face := by
  have hDropLast : (opener :: (⟨die :: added, cut⟩ : Burst).faces).dropLast =
      opener :: (die.face :: (⟨added, cut⟩ : Burst).faces).dropLast := rfl
  have hLast : (⟨die :: added, cut⟩ : Burst).faces.getLastD opener =
      (⟨added, cut⟩ : Burst).faces.getLastD die.face := List.getLastD_cons ..
  constructor
  · rintro ⟨hLow, hLength, hEnd, hCut⟩
    rw [hDropLast, List.forall_mem_cons] at hLow
    rw [hLast] at hEnd hCut
    refine ⟨hLow.1, hLow.2, Nat.le_of_succ_le_succ hLength, ?_, hCut⟩
    exact fun hRest => hEnd (Nat.succ_lt_succ hRest)
  · rintro ⟨hOpener, hLow, hLength, hEnd, hCut⟩
    rw [← hLast] at hEnd hCut
    refine ⟨?_, Nat.succ_le_succ hLength, fun hRest => hEnd (Nat.lt_of_succ_lt_succ hRest), hCut⟩
    rw [hDropLast, List.forall_mem_cons]
    exact ⟨hOpener, hLow⟩

variable {b : Burst}

/-- A burst without an added die is cut if one was due. -/
theorem Chained.eq_of_added_eq_nil (h : b.Chained threshold allowance opener)
    (hAdded : b.added = []) : b = ⟨[], threshold ≤ opener⟩ := by
  rcases b with ⟨added, cut⟩
  cases hAdded
  have hCut : cut = decide (threshold ≤ opener) := by
    rw [Bool.eq_iff_iff, decide_eq_true_iff]
    exact h.cut_iff
  rw [hCut]

/-- A single addition is cut short exactly if it was due and not allowed. -/
theorem Single.cut_eq (h : b.Single threshold allowance opener) :
    b.cut = decide (threshold ≤ opener ∧ allowance = 0) := by
  rw [Bool.eq_iff_iff, decide_eq_true_iff]
  exact h.cut_iff

end Burst

namespace Pool

theorem rerolls_iff {p : Pool} : p.rerolls = true ↔ 0 < p.reroll ∧ p.reroll < p.sides := by
  simp [rerolls]

theorem explodes_iff {p : Pool} : p.explodes = true ↔ p.explode ≠ 0 := by
  simp [explodes, Nat.pos_iff_ne_zero]

end Pool

end DiceTray
