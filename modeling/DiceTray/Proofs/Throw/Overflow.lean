import DiceTray.Proofs.Group.Worth
import Mathlib.Algebra.BigOperators.Ring.Finset

/-! Words in place of exact numbers. The numbers that are added and multiplied are never negative,
so a number that was no total only grows, and wrapping goes together with adding and multiplying.
Main statement: computed with words, a score or a total is the word of the exact number. -/
namespace DiceTray

variable {o : Overflow} {p : Pool} {w : Throw}

/-- Numbers may be wrapped before they are added up. -/
theorem wrapTotal_sum_map {α : Type} (f : α → Int) (as : List α) :
    wrapTotal (as.map fun a => wrapTotal (f a)).sum = wrapTotal (as.map f).sum := by
  induction as with
  | nil => rfl
  | cons a as ih =>
      rw [List.map_cons, List.map_cons, List.sum_cons, List.sum_cons, ← wrapTotal_add_wrapTotal, ih,
        wrapTotal_add_wrapTotal, Int.add_comm, wrapTotal_add_wrapTotal, Int.add_comm]

namespace Overflow

/-- Adding up from a total on, where no later number brings back a sum that is too great. -/
theorem foldlM_word {ns : List Int} (hNonneg : o = .stops → ∀ n ∈ ns, 0 ≤ n) {total : Int}
    (hTotal : IsTotal total) :
    ns.foldlM (fun sum n => o.word (sum + n)) total = o.word (total + ns.sum) := by
  induction ns generalizing total with
  | nil => rw [List.sum_nil, Int.add_zero, word_of_isTotal hTotal]; rfl
  | cons n ns ih =>
      have hRest : o = .stops → ∀ n ∈ ns, 0 ≤ n := fun h =>
        (List.forall_mem_cons.1 (hNonneg h)).2
      rw [List.foldlM_cons, List.sum_cons, ← Int.add_assoc]
      by_cases hNext : IsTotal (total + n)
      · rw [bind_eq_of_eq_some _ (word_of_isTotal hNext), ih hRest hNext]
      · cases o with
        | stops =>
            have hFirst := (List.forall_mem_cons.1 (hNonneg rfl)).1
            have hSum := List.sum_nonneg (hRest rfl)
            have hFar : ¬ IsTotal (total + n + ns.sum) := by
              unfold IsTotal at hTotal hNext ⊢
              omega
            rw [word_stops_of_not_isTotal hNext, word_stops_of_not_isTotal hFar]
            rfl
        | wraps =>
            rw [bind_eq_of_eq_some _ (word_wraps _), ih hRest (isTotal_wrapTotal _), word_wraps,
              word_wraps, Int.add_comm, wrapTotal_add_wrapTotal, Int.add_comm]

/-- Added up word by word, numbers come to the word of their sum. -/
theorem sum_eq {ns : List Int} (hNonneg : o = .stops → ∀ n ∈ ns, 0 ≤ n) :
    o.sum ns = o.word ns.sum := by
  rw [sum, foldlM_word hNonneg (by decide), Int.zero_add]

/-- A word multiplied is the word of the product. -/
theorem word_mul {n factor : Nat} (h : 0 < factor) :
    (o.word n).bind (fun total => o.word (total * factor)) = o.word (n * factor : Nat) := by
  rw [Int.natCast_mul]
  by_cases hTotal : IsTotal n
  · rw [word_of_isTotal hTotal, Option.bind_some]
  · cases o with
    | stops =>
        have hFar : ¬ IsTotal (n * factor) := by
          have hLe : (n : Int) ≤ n * factor := by exact_mod_cast Nat.le_mul_of_pos_right n h
          unfold IsTotal minTotal maxTotal at hTotal ⊢
          omega
        rw [word_stops_of_not_isTotal hTotal, word_stops_of_not_isTotal hFar, Option.bind_none]
    | wraps =>
        rw [word_wraps, word_wraps, Option.bind_some, word_wraps, wrapTotal_wrapTotal_mul]

end Overflow

namespace Pool

/-- Computed with words, what faces are worth is the word of their exact worth. -/
theorem worthIn_eq (p : Pool) (o : Overflow) (faces : List Nat) :
    p.worthIn o faces = o.word (p.worth faces) := by
  unfold worthIn worth
  split_ifs with hTarget
  · exact Overflow.word_mul p.scale_pos
  · have hSum : o.sum (faces.map Int.ofNat) = o.word (faces.foldr (· + ·) 0 : Nat) := by
      have hNonneg : o = .stops → ∀ n ∈ faces.map Int.ofNat, 0 ≤ n := fun _ =>
        List.forall_mem_map.2 fun face _ => Int.natCast_nonneg face
      rw [Overflow.sum_eq hNonneg]
      exact congrArg o.word (Nat.cast_list_sum faces).symm
    rw [hSum]
    exact Overflow.word_mul p.scale_pos

/-- Of a score only the total is computed with words. -/
theorem scoreIn_eq (p : Pool) (o : Overflow) (tally : List Nat) :
    p.scoreIn o tally =
      (o.word (p.score tally).total).map fun total => ⟨tally, (p.score tally).kept, total⟩ := by
  rw [scoreIn, worthIn_eq, ← total_score]
  cases o.word (p.score tally).total <;> rfl

/-- Unless it stops at the total, a program holds the group with the total wrapped. -/
theorem scoreIn_eq_some {tally : List Nat} (h : o = .stops → IsTotal (p.score tally).total) :
    p.scoreIn o tally = some (p.score tally).scored := by
  rw [scoreIn_eq, Overflow.word_eq_some h]
  rfl

theorem scoreIn_eq_none_iff {tally : List Nat} :
    p.scoreIn o tally = none ↔ o = .stops ∧ ¬ IsTotal (p.score tally).total := by
  rw [scoreIn_eq, Option.map_eq_none_iff, Overflow.word_eq_none_iff]

end Pool

theorem mapM_eq_none_iff {α β : Type} {f : α → Option β} {as : List α} :
    as.mapM f = none ↔ ∃ a ∈ as, f a = none := by
  induction as with
  | nil => simp
  | cons a as ih =>
      rw [List.mapM_cons, List.exists_mem_cons_iff, ← ih]
      cases hFirst : f a <;> cases hRest : as.mapM f <;> simp [bind, Option.bind]

namespace Throw

/-- The groups of the throw were scored from their tallies. -/
def IsScored (w : Throw) : Prop := ∀ g ∈ w.groups, w.pool.score g.tally = g

/-- No group of the throw makes the program stop. -/
def IsHeldBy (o : Overflow) (w : Throw) : Prop := o = .stops → ∀ g ∈ w.groups, IsTotal g.total

theorem scoredIn_eq_mapM (o : Overflow) (w : Throw) :
    w.scoredIn o = w.groups.mapM fun g => w.pool.scoreIn o g.tally := by
  rcases w with ⟨pool, _ | groups⟩
  · rfl
  · change (Option.map _ (groups.mapM _) >>= _) = groups.mapM _
    cases groups.mapM fun g => pool.scoreIn o g.tally <;> rfl

/-- Unless it stops at one of them, a program holds all groups. -/
theorem scoredIn_eq_some (hScored : w.IsScored) (hHeld : w.IsHeldBy o) :
    w.scoredIn o = some (w.groups.map Group.scored) := by
  rw [scoredIn_eq_mapM]
  refine mapM_eq_pure fun g hg => ?_
  have hScore := hScored g hg
  rw [Pool.scoreIn_eq_some fun hStops => hScore.symm ▸ hHeld hStops g hg, hScore]
  rfl

/-- What a program holds it can look at again. -/
theorem lastIn_eq (hScored : w.IsScored) (hHeld : w.IsHeldBy o) :
    w.lastIn o = some (w.groups?.map fun groups => groups.map Group.scored) := by
  have hGroups := scoredIn_eq_some hScored hHeld
  rw [scoredIn_eq_mapM] at hGroups
  rcases w with ⟨pool, _ | groups⟩
  · rfl
  · change Option.map some (groups.mapM fun g => pool.scoreIn o g.tally) = _
    exact congrArg (Option.map some) hGroups

/-- The program stops at a group whose worth is no total. -/
theorem scoredIn_eq_none_iff (hScored : w.IsScored) :
    w.scoredIn o = none ↔ o = .stops ∧ ∃ g ∈ w.groups, ¬ IsTotal g.total := by
  have hGroup : ∀ g ∈ w.groups,
      w.pool.scoreIn o g.tally = none ↔ o = .stops ∧ ¬ IsTotal g.total := by
    intro g hg
    rw [Pool.scoreIn_eq_none_iff, hScored g hg]
  rw [scoredIn_eq_mapM, mapM_eq_none_iff]
  constructor
  · rintro ⟨g, hg, hNone⟩
    obtain ⟨hStops, hFar⟩ := (hGroup g hg).1 hNone
    exact ⟨hStops, g, hg, hFar⟩
  · rintro ⟨hStops, g, hg, hFar⟩
    exact ⟨g, hg, (hGroup g hg).2 ⟨hStops, hFar⟩⟩

/-- If the worth of some group is no total, then neither is the sum. -/
theorem not_isTotal_total {g : Group} (hg : g ∈ w.groups) (h : ¬ IsTotal g.total) :
    ¬ IsTotal w.total := by
  have hLe : g.total ≤ w.total := by
    rw [w.total_eq_sum]
    exact List.le_sum_of_mem (List.mem_map_of_mem hg)
  unfold IsTotal minTotal maxTotal at h ⊢
  omega

/-- It makes no difference whether words or exact numbers are added up. -/
theorem word_sum_scored (hHeld : w.IsHeldBy o) :
    o.word (w.groups.map fun g => g.scored.total).sum = o.word w.total := by
  have hExact : (w.total : Int) = (w.groups.map fun g => (g.total : Int)).sum := by
    rw [w.total_eq_sum, Nat.cast_list_sum, List.map_map]
    exact congrArg List.sum (List.map_congr_left fun _ _ => rfl)
  rw [hExact]
  simp only [Group.total_scored]
  cases o with
  | stops =>
      have hSame : (w.groups.map fun g => wrapTotal g.total) =
          w.groups.map fun g => (g.total : Int) :=
        List.map_congr_left fun g hg => wrapTotal_of_isTotal (hHeld rfl g hg)
      rw [hSame]
  | wraps => rw [Overflow.word_wraps, Overflow.word_wraps, wrapTotal_sum_map]

/-- Where the program stops at a group the exact sum is no total either. -/
theorem totalIn_eq (hScored : w.IsScored) : w.totalIn o = o.word w.total := by
  rw [totalIn]
  cases hGroups : w.scoredIn o with
  | none =>
      obtain ⟨rfl, g, hg, hFar⟩ := (scoredIn_eq_none_iff hScored).1 hGroups
      exact (Overflow.word_stops_of_not_isTotal (not_isTotal_total hg hFar)).symm
  | some groups =>
      have hHeld : w.IsHeldBy o := by
        intro hStops g hg
        by_contra hFar
        rw [(scoredIn_eq_none_iff hScored).2 ⟨hStops, g, hg, hFar⟩] at hGroups
        cases hGroups
      rw [scoredIn_eq_some hScored hHeld] at hGroups
      obtain rfl := Option.some.inj hGroups
      have hShown : (w.groups.map Group.scored).map Scored.total =
          w.groups.map fun g => g.scored.total := by
        simp only [List.map_map, Function.comp_def]
      have hNonneg : o = .stops → ∀ n ∈ w.groups.map fun g => g.scored.total, 0 ≤ n := by
        refine fun hStops => List.forall_mem_map.2 fun g hg => ?_
        rw [g.total_scored, wrapTotal_of_isTotal (hHeld hStops g hg)]
        exact Int.natCast_nonneg g.total
      rw [bind_eq_of_eq_some _ rfl, hShown, Overflow.sum_eq hNonneg, word_sum_scored hHeld]

end Throw
end DiceTray
