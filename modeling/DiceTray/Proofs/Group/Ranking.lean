import DiceTray.Group.Score
import Mathlib.Algebra.GroupWithZero.Nat
import Mathlib.Data.List.Nodup
import Mathlib.Data.List.Permutation

/-! Which dice of a group count. A ranking has no ties, so the dice that no left-out die ranks
before are the first of it. Main statement: as many of the highest dice are marked as the pool
allows, of equal faces the earlier, and the total is what the marked faces are worth. -/
namespace DiceTray

/-- A die ranks before another by its face, and for equal faces by its place. -/
theorem ranksFirst_iff {a b : Nat × Nat} :
    ranksFirst a b = true ↔ b.1 < a.1 ∨ b.1 = a.1 ∧ a.2 ≤ b.2 := by
  simp [ranksFirst]

/-- The dice of a ranking are in order of rank. -/
theorem pairwise_ranking (tally : List Nat) :
    (ranking tally).Pairwise fun a b => ranksFirst a b = true := by
  apply List.pairwise_mergeSort
  · intro a b c hab hbc
    rw [ranksFirst_iff] at *
    omega
  · intro a b
    rw [Bool.or_eq_true, ranksFirst_iff, ranksFirst_iff]
    omega

theorem length_ranking (tally : List Nat) : (ranking tally).length = tally.length := by
  rw [(ranking_perm tally).length_eq, List.length_zipIdx]

/-- Every die of a ranking has a place of its own. -/
theorem nodup_ranking (tally : List Nat) : (ranking tally).Nodup := by
  have hPlaces : (tally.zipIdx.map Prod.snd).Nodup := by
    rw [List.zipIdx_map_snd]
    exact List.nodup_range'
  exact (ranking_perm tally).nodup_iff.2 (List.Nodup.of_map _ hPlaces)

/-- No die of a ranking ties with an earlier one. -/
theorem pairwise_ranking_strict (tally : List Nat) :
    (ranking tally).Pairwise fun a b => ranksFirst b a = false := by
  refine ((pairwise_ranking tally).and (nodup_ranking tally)).imp fun {a b} ⟨hFirst, hNe⟩ => ?_
  by_contra hAfter
  rw [Bool.not_eq_false, ranksFirst_iff] at hAfter
  rw [ranksFirst_iff] at hFirst
  exact hNe (Prod.ext (by omega) (by omega))

/-- The first elements of a list in strict order are those that the element after them does not come
before. -/
theorem filter_eq_take {α : Type} {before : α → α → Bool} (hRefl : ∀ a, before a a = true)
    {l : List α} (hSorted : l.Pairwise fun a b => before a b = true)
    (hStrict : l.Pairwise fun a b => before b a = false) (k : Nat) :
    (l.filter fun a => !l[k]?.any (before · a)) = l.take k := by
  rw [← List.head?_drop]
  have hSplit : l.take k ++ l.drop k = l := List.take_append_drop k l
  rw [← hSplit, List.pairwise_append] at hSorted hStrict
  cases hDrop : l.drop k with
  | nil =>
      rw [hDrop, List.append_nil] at hSplit
      simp [hSplit]
  | cons out rest =>
      rw [hDrop] at hSorted hStrict hSplit
      have hFirst : ∀ a ∈ l.take k, before out a = false := fun a ha =>
        hStrict.2.2 a ha out List.mem_cons_self
      have hRest : ∀ a ∈ out :: rest, before out a = true :=
        List.forall_mem_cons.2 ⟨hRefl out, (List.pairwise_cons.1 hSorted.2.1).1⟩
      conv => lhs; rw [← hSplit]
      rw [List.filter_append, List.filter_eq_self.2, List.filter_eq_nil_iff.2, List.append_nil]
      · intro a ha
        simp [hRest a ha]
      · intro a ha
        simp [hFirst a ha]

/-- The dice of a group that count, each with its place in the tally. -/
def Group.counting (g : Group) : List (Nat × Nat) := g.tally.zipIdx.filter fun die => g.isKept die.2

namespace Pool

variable {p : Pool} {tally : List Nat}

/-- A die counts exactly if it ranks before the first die that is left out. -/
theorem isKept_score {die : Nat × Nat} (h : die ∈ tally.zipIdx) :
    (p.score tally).isKept die.2 =
      !(ranking tally)[p.quota tally.length]?.any (ranksFirst · die) := by
  have hDie : tally.zipIdx[die.2]? = some die := by
    rw [List.getElem?_zipIdx, List.mem_zipIdx_iff_getElem?.1 h]
    simp
  rw [Group.isKept, List.getD_eq_getElem?_getD, score, List.getElem?_map, hDie]
  rfl

/-- The dice that count are the first of the ranking. -/
theorem counting_score_perm (p : Pool) (tally : List Nat) :
    (p.score tally).counting.Perm ((ranking tally).take (p.quota tally.length)) := by
  rw [← filter_eq_take (fun a => ranksFirst_iff.2 (by omega)) (pairwise_ranking tally)
    (pairwise_ranking_strict tally)]
  have hMarks : (p.score tally).counting = tally.zipIdx.filter fun die =>
      !(ranking tally)[p.quota tally.length]?.any (ranksFirst · die) :=
    List.filter_congr fun die hDie => isKept_score hDie
  rw [hMarks]
  exact ((ranking_perm tally).filter _).symm

/-- Exactly as many dice count as the quota says. -/
theorem length_counting_score (p : Pool) (tally : List Nat) :
    (p.score tally).counting.length = p.quota tally.length := by
  rw [(counting_score_perm p tally).length_eq, List.length_take, length_ranking]
  refine Nat.min_eq_left ?_
  rw [quota]
  split_ifs <;> omega

/-- A die that counts ranks before one that does not. -/
theorem ranksFirst_of_isKept {a b : Nat × Nat} (ha : a ∈ tally.zipIdx) (hb : b ∈ tally.zipIdx)
    (hKept : (p.score tally).isKept a.2 = true) (hOut : (p.score tally).isKept b.2 = false) :
    ranksFirst a b = true := by
  have hRanking : (ranking tally).take (p.quota tally.length) ++
      (ranking tally).drop (p.quota tally.length) = ranking tally := List.take_append_drop _ _
  have hFirst : ∀ die : Nat × Nat, die ∈ (ranking tally).take (p.quota tally.length) ↔
      die ∈ tally.zipIdx ∧ (p.score tally).isKept die.2 = true := fun die =>
    (counting_score_perm p tally).mem_iff.symm.trans List.mem_filter
  have hAfter : b ∈ (ranking tally).drop (p.quota tally.length) := by
    have hMem := (ranking_perm tally).mem_iff.2 hb
    rw [← hRanking, List.mem_append, hFirst b, hOut] at hMem
    simpa using hMem
  have hSorted := pairwise_ranking tally
  rw [← hRanking, List.pairwise_append] at hSorted
  exact hSorted.2.2 a ((hFirst a).2 ⟨ha, hKept⟩) b hAfter

/-- The worth of faces does not hang on their order. -/
theorem worth_perm (p : Pool) {as bs : List Nat} (h : as.Perm bs) : p.worth as = p.worth bs := by
  have hSum : as.foldr (· + ·) 0 = bs.foldr (· + ·) 0 := h.sum_nat
  rw [worth, worth, h.countP_eq, hSum]

/-- The total is told by the tally and the marks. -/
theorem total_score_eq_worth_counting (p : Pool) (tally : List Nat) :
    (p.score tally).total = p.worth ((p.score tally).counting.map Prod.fst) :=
  p.worth_perm ((counting_score_perm p tally).map Prod.fst).symm

/-- The dice of a group that the pool counts are the highest of its tally. There are as many as the
pool keeps, or all but those it drops; none that counts is lower than one that does not, and of
equal faces the earlier count. The total is told by the faces that count: their sum, or how many
come up to the target, times the multiplier. -/
theorem score_keeps_highest (p : Pool) (tally : List Nat) :
    let g := p.score tally
    let n := tally.length
    let faces := (tally.zipIdx.filter fun die => g.isKept die.2).map Prod.fst
    g.tally = tally ∧
      (List.range n).countP g.isKept =
        (if 0 < p.keep then min p.keep n else if 0 < p.drop then n - min p.drop n else n) ∧
      (∀ (i j : Nat) (hi : i < n) (hj : j < n), g.isKept i = true → g.isKept j = false →
        tally[j] ≤ tally[i] ∧ (tally[j] = tally[i] → i < j)) ∧
      (∀ i, n ≤ i → g.isKept i = false) ∧
      g.total = max p.multiplier 1 *
        (if p.target = 0 then faces.sum else faces.countP (p.target ≤ ·)) := by
  intro g n faces
  refine ⟨rfl, ?_, ?_, fun i hi => p.isKept_of_length_le hi, ?_⟩
  · have hCount : (List.range n).countP g.isKept = g.counting.length := by
      rw [List.range_eq_range', ← List.zipIdx_map_snd 0 tally, List.countP_map,
        List.countP_eq_length_filter]
      rfl
    rw [hCount, length_counting_score, quota]
    split_ifs <;> omega
  · intro i j hi hj hKept hOut
    have hPlace : ∀ (k : Nat) (hk : k < n), (tally[k], k) ∈ tally.zipIdx := fun k hk =>
      List.mem_zipIdx_iff_getElem?.2 (List.getElem?_eq_getElem hk)
    have hNe : i ≠ j := by
      rintro rfl
      rw [hKept] at hOut
      cases hOut
    have hRanks := ranksFirst_of_isKept (hPlace i hi) (hPlace j hj) hKept hOut
    rw [ranksFirst_iff] at hRanks
    omega
  · have hTotal : g.total = p.worth faces := p.total_score_eq_worth_counting tally
    rw [hTotal, worth, scale, Nat.mul_comm]
    congr 1
    by_cases hTarget : p.target = 0
    · rw [if_neg (by omega), if_pos hTarget]
      rfl
    · rw [if_pos (by omega), if_neg hTarget]

/-- Three of five dice with two equal faces at the edge, doubled. -/
theorem score_keeps_highest_of_tied_dice :
    let p : Pool := ⟨{ sides := 6, count := 5, keep := 3, multiplier := 2 }, by decide, by decide,
      by decide⟩
    let g := p.score [4, 1, 6, 4, 4]
    g.kept = [true, false, true, true, false] ∧ g.total = 28 ∧
      (g.isKept 3 = true ∧ g.isKept 4 = false ∧ 3 < 4) := by
  intro p g
  have hKept : g.isKept 3 = true ∧ g.isKept 4 = false := by cbv
  have hRank := (score_keeps_highest p [4, 1, 6, 4, 4]).2.2.1 3 4 (by decide) (by decide) hKept.1
    hKept.2
  exact ⟨by cbv, by cbv, hKept.1, hKept.2, hRank.2 rfl⟩

end Pool
end DiceTray
