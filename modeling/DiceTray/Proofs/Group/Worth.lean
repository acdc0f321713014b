import DiceTray.Pool.Bounds
import DiceTray.Proofs.Group.Extent
import DiceTray.Section.Joint
import Mathlib.Algebra.Order.BigOperators.Group.List
import Mathlib.Algebra.Order.Group.Nat

/-! How much a group can be worth, and the same arithmetic done with care: it gives nothing at all
once a number comes as far as an end of what a total can be. Main statement: no more than the most
dice that a group can have, each at the highest face and multiplied. Where this much is still a
total, care makes no difference. -/
namespace DiceTray

/-- The number lies between the ends of what a total can be. -/
def IsInner (n : Nat) : Prop := minTotal < n ∧ n < maxTotal

instance : DecidablePred IsInner := fun n =>
  inferInstanceAs (Decidable (minTotal < n ∧ n < maxTotal))

/-- The number, unless it comes as far as an end. -/
def inner? (n : Nat) : Option Nat := if IsInner n then some n else none

/-- The sum, from left to right. -/
def innerSum? (ns : List Nat) : Option Nat := ns.foldlM (fun sum n => inner? (sum + n)) 0

namespace Pool

def worth? (p : Pool) (faces : List Nat) : Option Nat := do
  let worth ← if 0 < p.target then inner? (faces.countP (p.target ≤ ·)) else innerSum? faces
  inner? (worth * p.scale)

def lowest? (p : Pool) : Option Nat :=
  if p.sides ≤ p.reroll then some p.sides
  else if p.reroll + 1 < 2 ^ 32 then some (p.reroll + 1) else none

def level? (p : Pool) (face : Nat) : Option Nat := do
  let sum ← inner? (p.selected * face)
  inner? (sum * p.scale)

def maximum? (p : Pool) : Option Nat := p.level? p.sides

def minimum? (p : Pool) : Option Nat := do
  p.level? (← p.lowest?)

/-- The sum of the bounds, of which the average is half. -/
def boundSum? (p : Pool) : Option Nat := do
  inner? ((← p.maximum?) + (← p.minimum?))

end Pool

/-- Scores every group from its tally, and then adds up the groups. -/
def Throw.total? (w : Throw) : Option Nat := do
  innerSum? (← w.groups.mapM fun g => w.pool.worth? (w.pool.keptFaces g.tally))

/-- Nearer to nought is further from the ends. -/
theorem IsInner.mono {m n : Nat} (h : IsInner n) (hLe : m ≤ n) : IsInner m := by
  unfold IsInner minTotal maxTotal at *
  omega

theorem IsInner.inner?_eq {n : Nat} (h : IsInner n) : inner? n = some n := if_pos h

/-- Stated for any action that follows, so that no number is evaluated on the way. -/
theorem bind_eq_of_eq_some {α β : Type} {a? : Option α} {a : α} (next : α → Option β)
    (h : a? = some a) : a? >>= next = next a := by
  rw [h]
  rfl

/-- Adding only goes up, so care is needed for the whole sum alone. -/
theorem IsInner.innerSum?_eq {ns : List Nat} (h : IsInner ns.sum) : innerSum? ns = some ns.sum := by
  have hFold : ∀ sum, IsInner (sum + ns.sum) →
      ns.foldlM (fun sum n => inner? (sum + n)) sum = some (sum + ns.sum) := by
    clear h
    induction ns with
    | nil => intro sum _; rfl
    | cons n ns ih =>
        intro sum h
        rw [List.sum_cons, ← Nat.add_assoc] at h ⊢
        rw [List.foldlM_cons, bind_eq_of_eq_some _ (h.mono (Nat.le_add_right _ _)).inner?_eq,
          ih _ h]
  rw [innerSum?, hFold 0 (by rwa [Nat.zero_add]), Nat.zero_add]

namespace Pool

variable {p : Pool}

theorem scale_pos (p : Pool) : 0 < p.scale := Nat.lt_of_lt_of_le Nat.one_pos (Nat.le_max_right _ _)

/-- The bounds never take more dice for counting than there are. -/
theorem selected_le_count (p : Pool) : p.selected ≤ p.count := by
  unfold selected
  split_ifs <;> omega

/-- The lowest face is a face. -/
theorem lowest_le_sides (p : Pool) : p.lowest ≤ p.sides := by
  unfold lowest
  split_ifs <;> omega

/-- The bounds are in order. -/
theorem minimum_le_maximum (p : Pool) : p.minimum ≤ p.maximum :=
  Nat.mul_le_mul_right _ (Nat.mul_le_mul_left _ p.lowest_le_sides)

/-- A threshold below the number of sides leaves room for one more. -/
theorem lowest?_eq (h : p.sides < 2 ^ 32) : p.lowest? = some p.lowest := by
  unfold lowest? lowest
  split_ifs with hIdle hRoom
  · rfl
  · rfl
  · omega

/-- Care makes no difference to equal dice whose worth does not come too far. -/
theorem level?_eq {face : Nat} (h : IsInner (p.selected * face * p.scale)) :
    p.level? face = some (p.selected * face * p.scale) := by
  have hSum : IsInner (p.selected * face) := h.mono (Nat.le_mul_of_pos_right _ p.scale_pos)
  rw [level?, bind_eq_of_eq_some _ hSum.inner?_eq, h.inner?_eq]

/-- A pool whose bounds do not come too far. -/
theorem bounds?_eq (hSides : p.sides < 2 ^ 32) (h : IsInner (p.maximum + p.minimum)) :
    p.maximum? = some p.maximum ∧ p.minimum? = some p.minimum ∧
      p.boundSum? = some (p.maximum + p.minimum) := by
  have hMaximum : p.maximum? = some p.maximum := by
    rw [maximum?, level?_eq (h.mono (Nat.le_add_right _ _)), maximum]
  have hMinimum : p.minimum? = some p.minimum := by
    rw [minimum?, bind_eq_of_eq_some _ (lowest?_eq hSides),
      level?_eq (h.mono (Nat.le_add_left _ _)), minimum]
  refine ⟨hMaximum, hMinimum, ?_⟩
  rw [boundSum?, bind_eq_of_eq_some _ hMaximum, bind_eq_of_eq_some _ hMinimum, h.inner?_eq]

variable {faces tally : List Nat} {top : Nat}

/-- The total of a score is the worth of the faces that count. -/
theorem total_score (p : Pool) (tally : List Nat) :
    (p.score tally).total = p.worth (p.keptFaces tally) := rfl

theorem length_keptFaces_le (p : Pool) (tally : List Nat) :
    (p.keptFaces tally).length ≤ tally.length := by
  have hRanking : (ranking tally).length = tally.length := by
    rw [(ranking_perm tally).length_eq, List.length_zipIdx]
  rw [keptFaces, List.length_map, List.length_take, hRanking]
  exact Nat.min_le_right _ _

theorem mem_of_mem_keptFaces {face : Nat} (h : face ∈ p.keptFaces tally) : face ∈ tally := by
  obtain ⟨die, hDie, rfl⟩ := List.mem_map.1 h
  exact List.fst_mem_of_mem_zipIdx ((ranking_perm tally).mem_iff.1 (List.mem_of_mem_take hDie))

/-- Care makes no difference to faces whose worth does not come too far. -/
theorem worth?_eq (h : IsInner (p.worth faces)) : p.worth? faces = some (p.worth faces) := by
  unfold worth at h
  unfold worth? worth
  split_ifs at h ⊢ with hTarget
  · have hCount := h.mono (Nat.le_mul_of_pos_right _ p.scale_pos)
    exact (bind_eq_of_eq_some _ hCount.inner?_eq).trans h.inner?_eq
  · have hSum : innerSum? faces = some (faces.foldr (· + ·) 0) :=
      IsInner.innerSum?_eq (h.mono (Nat.le_mul_of_pos_right _ p.scale_pos))
    exact (bind_eq_of_eq_some _ hSum).trans h.inner?_eq

/-- A success shows a face above zero, and so is worth no more than the face. -/
theorem countP_le {target : Nat} (hTarget : 0 < target) (hTop : ∀ face ∈ faces, face ≤ top) :
    faces.countP (target ≤ ·) ≤ faces.length * top := by
  rcases Nat.eq_zero_or_pos top with rfl | hPos
  · have hNone : faces.countP (target ≤ ·) = 0 := by
      refine List.countP_eq_zero.2 fun face hFace => ?_
      have hZero := hTop face hFace
      rw [decide_eq_true_iff]
      omega
    rw [hNone]
    exact Nat.zero_le _
  · exact Nat.le_trans List.countP_le_length (Nat.le_mul_of_pos_right _ hPos)

/-- No face that counts adds more than the highest. -/
theorem worth_le (p : Pool) (hTop : ∀ face ∈ faces, face ≤ top) :
    p.worth faces ≤ faces.length * top * p.scale := by
  refine Nat.mul_le_mul_right _ ?_
  split_ifs with hTarget
  · exact countP_le hTarget hTop
  · exact List.sum_le_card_nsmul faces top hTop

end Pool

/-- However a group was thrown, whichever of its dice count and however they are scored. -/
theorem Group.Fits.total_le {p : Pool} {limits : Limits} {g : Group} {top : Nat}
    (h : g.Fits p limits) (hTop : ∀ face ∈ g.tally, face ≤ top) :
    g.total ≤ p.count * (1 + limits.explode) * top * p.scale := by
  have hLength : (p.keptFaces g.tally).length ≤ p.count * (1 + limits.explode) :=
    calc (p.keptFaces g.tally).length
      _ ≤ g.tally.length := p.length_keptFaces_le _
      _ ≤ p.count * (1 + p.burstSize limits) := h.length_le
      _ ≤ p.count * (1 + limits.explode) :=
        Nat.mul_le_mul_left _ (Nat.add_le_add_left (p.burstSize_le limits) 1)
  calc g.total
    _ = p.worth (p.keptFaces g.tally) := by rw [← p.total_score, h.score_tally]
    _ ≤ (p.keptFaces g.tally).length * top * p.scale :=
      p.worth_le fun face hFace => hTop face (Pool.mem_of_mem_keptFaces hFace)
    _ ≤ p.count * (1 + limits.explode) * top * p.scale :=
      Nat.mul_le_mul_right _ (Nat.mul_le_mul_right _ hLength)

namespace Throw

variable {w : Throw}

/-- A throw whose total does not come too far is scored and added up with care to the same total. -/
theorem total?_eq (hScore : ∀ g ∈ w.groups, w.pool.score g.tally = g) (h : IsInner w.total) :
    w.total? = some w.total := by
  have hTotal : IsInner (w.groups.map Group.total).sum := by rwa [← w.total_eq_sum]
  have hGroup : ∀ g ∈ w.groups, w.pool.worth? (w.pool.keptFaces g.tally) = some g.total := by
    intro g hg
    have hLe : g.total ≤ (w.groups.map Group.total).sum :=
      List.le_sum_of_mem (List.mem_map_of_mem hg)
    have hWorth : w.pool.worth (w.pool.keptFaces g.tally) = g.total := by
      rw [← Pool.total_score, hScore g hg]
    rw [← hWorth] at hLe ⊢
    exact Pool.worth?_eq (hTotal.mono hLe)
  rw [total?, bind_eq_of_eq_some _ (mapM_eq_pure hGroup), w.total_eq_sum, hTotal.innerSum?_eq]

/-- Groups that are worth at most a bound each come to at most this bound each together. -/
theorem total_le {bound : Nat} (h : ∀ g ∈ w.groups, g.total ≤ bound) :
    w.total ≤ w.groups.length * bound := by
  rw [w.total_eq_sum, ← List.length_map Group.total]
  exact List.sum_le_card_nsmul _ bound (List.forall_mem_map.2 h)

end Throw
end DiceTray
