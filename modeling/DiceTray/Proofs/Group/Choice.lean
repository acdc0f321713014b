import DiceTray.Proofs.Group.Ranking
import DiceTray.Proofs.Group.Worth
import Mathlib.Data.List.Sort
import Mathlib.Order.Bounds.Basic

/-! Which dice it is best to count. The faces that count are the first of all faces in descending
order, and as many others are never worth more. So a score is told by the faces without their order,
and it does not fall when faces rise or dice are added.

Lists of faces are compared by `List.SublistForall₂ (· ≤ ·)`: every face of the first has one of the
second to itself that is at least as high, and these come in the same order. -/
namespace DiceTray

variable {as bs cs : List Nat}

theorem sublistForall₂_trans (hFirst : as.SublistForall₂ (· ≤ ·) bs)
    (hSecond : bs.SublistForall₂ (· ≤ ·) cs) : as.SublistForall₂ (· ≤ ·) cs :=
  List.SublistForall₂.is_trans.trans _ _ _ hFirst hSecond

/-- Faces that are compared place by place are compared by choosing all of them. -/
theorem sublistForall₂_of_forall₂ (h : List.Forall₂ (· ≤ ·) as bs) :
    as.SublistForall₂ (· ≤ ·) bs :=
  List.sublistForall₂_iff.2 ⟨bs, h, List.Sublist.refl bs⟩

/-- Higher dice have no fewer successes. -/
theorem countP_le_of_sublistForall₂ (target : Nat) (h : as.SublistForall₂ (· ≤ ·) bs) :
    as.countP (target ≤ ·) ≤ bs.countP (target ≤ ·) := by
  induction h with
  | nil => exact Nat.zero_le _
  | cons hHead _ ih =>
      rw [List.countP_cons, List.countP_cons]
      simp only [decide_eq_true_eq]
      split_ifs <;> omega
  | cons_right _ ih =>
      rw [List.countP_cons]
      exact Nat.le_add_right_of_le ih

/-- In a descending list it is best to begin at the head. -/
theorem take_sublistForall₂_take_cons {a : Nat} {l : List Nat} (h : (a :: l).Pairwise (· ≥ ·))
    (n : Nat) : (l.take n).SublistForall₂ (· ≤ ·) ((a :: l).take n) := by
  induction l generalizing a n with
  | nil =>
      rw [List.take_nil]
      exact List.SublistForall₂.nil
  | cons b l ih =>
      cases n with
      | zero => exact List.SublistForall₂.nil
      | succ n =>
          obtain ⟨hFirst, hRest⟩ := List.pairwise_cons.1 h
          rw [List.take_succ_cons, List.take_succ_cons]
          exact List.SublistForall₂.cons (hFirst b List.mem_cons_self) (ih hRest n)

/-- The exchange: whatever is chosen of a descending list, as many from its front are no lower. -/
theorem sublistForall₂_take_of_sublist {chosen l : List Nat} (hSorted : l.Pairwise (· ≥ ·))
    (h : chosen.Sublist l) {n : Nat} (hLength : chosen.length ≤ n) :
    chosen.SublistForall₂ (· ≤ ·) (l.take n) := by
  induction h generalizing n with
  | slnil => exact List.SublistForall₂.nil
  | cons a _ ih =>
      have hRest := ih (List.pairwise_cons.1 hSorted).2 hLength
      exact sublistForall₂_trans hRest (take_sublistForall₂_take_cons hSorted n)
  | cons_cons a _ ih =>
      obtain ⟨n, rfl⟩ := Nat.exists_eq_add_of_le' (Nat.one_le_of_lt hLength)
      rw [List.take_succ_cons]
      have hRest := ih (List.pairwise_cons.1 hSorted).2 (Nat.le_of_succ_le_succ hLength)
      exact List.SublistForall₂.cons (Nat.le_refl a) hRest

/-- In a descending list the successes come first. -/
theorem countP_take_of_pairwise {l : List Nat} (hSorted : l.Pairwise (· ≥ ·)) (target n : Nat) :
    (l.take n).countP (target ≤ ·) = min n (l.countP (target ≤ ·)) := by
  induction l generalizing n with
  | nil => simp
  | cons a l ih =>
      obtain ⟨hFirst, hRest⟩ := List.pairwise_cons.1 hSorted
      cases n with
      | zero => simp
      | succ n =>
          rw [List.take_succ_cons, List.countP_cons, List.countP_cons, ih hRest n]
          by_cases hTarget : target ≤ a
          · rw [if_pos (decide_eq_true hTarget)]
            omega
          · have hNone : l.countP (target ≤ ·) = 0 := by
              refine List.countP_eq_zero.2 fun b hb => ?_
              have hLow := hFirst b hb
              rw [decide_eq_true_iff]
              omega
            simp [hNone, hTarget]

def descending (tally : List Nat) : List Nat := (ranking tally).map Prod.fst

/-- Each die of the descending tally is at least as high as the ones behind it. -/
theorem pairwise_descending (tally : List Nat) : (descending tally).Pairwise (· ≥ ·) := by
  refine List.pairwise_map.2 ((pairwise_ranking tally).imp fun {a b} h => ?_)
  rw [ranksFirst_iff] at h
  omega

theorem descending_perm (tally : List Nat) : (descending tally).Perm tally := by
  have hFaces := (ranking_perm tally).map Prod.fst
  rwa [List.zipIdx_map_fst] at hFaces

/-- Faces in descending order do not tell how they lay. -/
theorem descending_eq_of_perm (h : as.Perm bs) : descending as = descending bs :=
  ((descending_perm as).trans (h.trans (descending_perm bs).symm)).eq_of_pairwise'
    (pairwise_descending as) (pairwise_descending bs)

namespace Pool

variable {p : Pool} {tally : List Nat}

/-- The faces that count are the first of the descending tally. -/
theorem keptFaces_eq (p : Pool) (tally : List Nat) :
    p.keptFaces tally = (descending tally).take (p.quota tally.length) :=
  List.map_take

/-- The quota written out: keeping first, dropping only without it, and never more dice than there
are. -/
theorem quota_eq (p : Pool) (n : Nat) :
    p.quota n =
      if 0 < p.keep then min p.keep n else if 0 < p.drop then n - min p.drop n else n := by
  unfold quota
  split_ifs <;> omega

/-- A longer tally has no smaller quota. -/
theorem quota_mono (p : Pool) {m n : Nat} (h : m ≤ n) : p.quota m ≤ p.quota n := by
  unfold quota
  split_ifs <;> omega

/-- As many faces count as the quota says. -/
theorem length_keptFaces (p : Pool) (tally : List Nat) :
    (p.keptFaces tally).length = p.quota tally.length := by
  rw [keptFaces, List.length_map, ← (counting_score_perm p tally).length_eq,
    length_counting_score]

theorem worth_of_target_eq_zero {faces : List Nat} (h : p.target = 0) :
    p.worth faces = faces.sum * p.scale := by
  rw [worth, if_neg (Nat.not_lt.2 (Nat.le_of_eq h))]
  rfl

theorem worth_of_target_pos {faces : List Nat} (h : 0 < p.target) :
    p.worth faces = faces.countP (p.target ≤ ·) * p.scale := by
  rw [worth, if_pos h]

/-- Higher faces are worth no less, whether they are summed or counted. -/
theorem worth_mono (p : Pool) (h : as.SublistForall₂ (· ≤ ·) bs) : p.worth as ≤ p.worth bs := by
  refine Nat.mul_le_mul_right _ ?_
  split_ifs
  · exact countP_le_of_sublistForall₂ p.target h
  · exact h.sum_le_sum fun _ _ => Nat.zero_le _

/-- The faces that count are some of the tally. -/
theorem exists_sublist_perm_keptFaces (p : Pool) (tally : List Nat) :
    ∃ chosen : List Nat, chosen.Perm (p.keptFaces tally) ∧ chosen.Sublist tally := by
  have hSubperm : (p.keptFaces tally).Subperm tally := by
    rw [keptFaces_eq]
    exact (List.take_sublist _ _).subperm.trans (descending_perm tally).subperm
  exact hSubperm

/-- Put in some order, a choice from the tally is nowhere higher than the faces that count, unless
it has more dice. -/
theorem exists_perm_sublistForall₂_keptFaces {chosen : List Nat}
    (h : chosen.SublistForall₂ (· ≤ ·) tally) (hLength : chosen.length ≤ p.quota tally.length) :
    ∃ ordered : List Nat, chosen.Perm ordered ∧
      ordered.SublistForall₂ (· ≤ ·) (p.keptFaces tally) := by
  obtain ⟨higher, hHigher, hSublist⟩ := List.sublistForall₂_iff.1 h
  obtain ⟨sorted, hPerm, hSorted⟩ := hSublist.subperm.trans (descending_perm tally).symm.subperm
  have hOrdered : Relation.Comp (List.Forall₂ (· ≤ ·)) List.Perm chosen sorted :=
    ⟨higher, hHigher, hPerm.symm⟩
  rw [List.forall₂_comp_perm_eq_perm_comp_forall₂] at hOrdered
  obtain ⟨ordered, hChosen, hLe⟩ := hOrdered
  have hFront : sorted.SublistForall₂ (· ≤ ·) (p.keptFaces tally) := by
    rw [keptFaces_eq]
    refine sublistForall₂_take_of_sublist (pairwise_descending tally) hSorted ?_
    rwa [← hLe.length_eq, ← hChosen.length_eq]
  exact ⟨ordered, hChosen, sublistForall₂_trans (sublistForall₂_of_forall₂ hLe) hFront⟩

/-- A score does not fall when faces rise or dice are added. -/
theorem total_score_mono (p : Pool) (h : as.SublistForall₂ (· ≤ ·) bs) :
    (p.score as).total ≤ (p.score bs).total := by
  obtain ⟨chosen, hPerm, hChosen⟩ := p.exists_sublist_perm_keptFaces as
  obtain ⟨higher, hHigher, hSublist⟩ := List.sublistForall₂_iff.1 h
  have hLength : chosen.length ≤ p.quota bs.length := by
    rw [hPerm.length_eq, length_keptFaces]
    refine p.quota_mono ?_
    rw [hHigher.length_eq]
    exact hSublist.length_le
  obtain ⟨ordered, hOrdered, hLe⟩ :=
    exists_perm_sublistForall₂_keptFaces (sublistForall₂_trans hChosen.sublistForall₂ h) hLength
  calc (p.score as).total
    _ = p.worth chosen := (p.worth_perm hPerm).symm
    _ = p.worth ordered := p.worth_perm hOrdered
    _ ≤ (p.score bs).total := p.worth_mono hLe

/-- The faces that count have the greatest sum of all choices of as many dice. -/
theorem isGreatest_sum_keptFaces (p : Pool) (tally : List Nat) :
    IsGreatest {sum | ∃ chosen : List Nat, chosen.Sublist tally ∧
      chosen.length = p.quota tally.length ∧ chosen.sum = sum} (p.keptFaces tally).sum := by
  constructor
  · obtain ⟨chosen, hPerm, hChosen⟩ := p.exists_sublist_perm_keptFaces tally
    exact ⟨chosen, hChosen, by rw [hPerm.length_eq, length_keptFaces], hPerm.sum_nat⟩
  · rintro _ ⟨chosen, hChosen, hLength, rfl⟩
    obtain ⟨ordered, hOrdered, hLe⟩ :=
      exists_perm_sublistForall₂_keptFaces hChosen.sublistForall₂ (Nat.le_of_eq hLength)
    rw [hOrdered.sum_nat]
    exact hLe.sum_le_sum fun _ _ => Nat.zero_le _

/-- A score is told by the faces without their order, and it does not fall when any of them rises.
With as many dice as the pool counts, it is the greatest sum of a choice of them, or the number of
successes up to that many, times the multiplier. -/
theorem score_is_best_choice (p : Pool) :
    (∀ as bs : List Nat, as.Perm bs →
      (p.score as).total = (p.score bs).total ∧
        ((p.score as).counting.map Prod.fst).Perm ((p.score bs).counting.map Prod.fst)) ∧
    (∀ as bs : List Nat, List.Forall₂ (· ≤ ·) as bs → (p.score as).total ≤ (p.score bs).total) ∧
    ∀ tally : List Nat,
      let n := tally.length
      let m := if 0 < p.keep then min p.keep n else if 0 < p.drop then n - min p.drop n else n
      (p.target = 0 → ∃ best,
        IsGreatest {sum | ∃ chosen : List Nat, chosen.Sublist tally ∧ chosen.length = m ∧
          chosen.sum = sum} best ∧
        (p.score tally).total = max p.multiplier 1 * best) ∧
      (0 < p.target →
        (p.score tally).total = max p.multiplier 1 * min m (tally.countP (p.target ≤ ·))) := by
  refine ⟨fun as bs hPerm => ?_, fun as bs hLe => ?_, fun tally => ?_⟩
  · have hKept : p.keptFaces as = p.keptFaces bs := by
      rw [keptFaces_eq, keptFaces_eq, descending_eq_of_perm hPerm, hPerm.length_eq]
    have hCounting : ∀ tally, ((p.score tally).counting.map Prod.fst).Perm (p.keptFaces tally) :=
      fun tally => (counting_score_perm p tally).map Prod.fst
    refine ⟨by rw [total_score, total_score, hKept], (hCounting as).trans ?_⟩
    rw [hKept]
    exact (hCounting bs).symm
  · exact p.total_score_mono (sublistForall₂_of_forall₂ hLe)
  · intro n m
    have hQuota : p.quota n = m := p.quota_eq n
    have hScale : p.scale = max p.multiplier 1 := rfl
    rw [total_score, ← hQuota, ← hScale]
    refine ⟨fun hTarget => ?_, fun hTarget => ?_⟩
    · refine ⟨_, p.isGreatest_sum_keptFaces tally, ?_⟩
      rw [worth_of_target_eq_zero hTarget, Nat.mul_comm]
    · rw [worth_of_target_pos hTarget, keptFaces_eq, Nat.mul_comm,
        countP_take_of_pairwise (pairwise_descending tally), (descending_perm tally).countP_eq]

/-- Two of four dice, tripled: in another order, with a higher face, and with a target. -/
theorem score_is_best_choice_of_four_dice :
    let p : Pool := ⟨{ sides := 6, count := 4, keep := 2, multiplier := 3 }, by decide, by decide,
      by decide⟩
    let q : Pool := ⟨{ p.toDraft with target := 3 }, by decide, by decide, by decide⟩
    ([2, 5, 1, 3].Perm [5, 1, 3, 2] ∧
      (p.score [2, 5, 1, 3]).total = 24 ∧ (p.score [5, 1, 3, 2]).total = 24) ∧
    (List.Forall₂ (· ≤ ·) [2, 5, 1, 3] [2, 5, 6, 3] ∧ 24 ≤ (p.score [2, 5, 6, 3]).total) ∧
    (p.target = 0 ∧ IsGreatest {sum | ∃ chosen : List Nat, chosen.Sublist [2, 5, 1, 3] ∧
      chosen.length = 2 ∧ chosen.sum = sum} 8) ∧
    (0 < q.target ∧ (q.score [2, 5, 1, 3]).total = 3 * min 2 2) := by
  intro p q
  have hTotal : (p.score [2, 5, 1, 3]).total = 24 := by cbv
  have hPerm : [2, 5, 1, 3].Perm [5, 1, 3, 2] := by decide
  have hLe : List.Forall₂ (· ≤ ·) [2, 5, 1, 3] [2, 5, 6, 3] := by decide
  obtain ⟨hOrder, hRise, hChoice⟩ := score_is_best_choice p
  have hSame := (hOrder _ _ hPerm).1
  have hMore := hRise _ _ hLe
  obtain ⟨best, hBest, hTriple⟩ := (hChoice [2, 5, 1, 3]).1 rfl
  change _ = 3 * best at hTriple
  have hCounted := ((score_is_best_choice q).2.2 [2, 5, 1, 3]).2 (by decide)
  rw [hTotal] at hSame hMore hTriple
  obtain rfl : best = 8 := by omega
  exact ⟨⟨hPerm, hTotal, hSame.symm⟩, ⟨hLe, hMore⟩, ⟨rfl, hBest⟩, by decide, hCounted⟩

end Pool
end DiceTray
