import DiceTray.Proofs.Group.Choice
import DiceTray.Shaker.Tape

/-! Exploding only ever adds. The dice that are thrown from one state are the same dice in the same
order, whatever sets them off; so of two throws with different rules of exploding one begins with
the other, and only their lengths are to be compared. Main statement: exploding once adds to not
exploding, going on adds to exploding once, and a wider limit adds to a narrower one. -/
namespace DiceTray

variable {σ : Type} {state next after : σ}

def Pool.exploding (p : Pool) (threshold : Nat) (chain : Bool) : Pool :=
  { p with explode := threshold, chain }

def Table.exploding (t : Table σ) (limit : Nat) : Table σ :=
  { t with limits := { t.limits with explode := limit } }

/-- The group that is thrown from a state, and how many faces are drawn for it, as a table that
records shows. -/
def Table.throwCounting (t : Table σ) (p : Pool) (state : σ) : Group × Nat :=
  let (_, drawn) := ((t.recording.throwGroup p).run (state, [])).2
  (((t.throwGroup p).run state).1, drawn.length)

/-- The second group has all dice of the first, and may have more after them. It takes no fewer
draws and is worth no less. -/
structure Group.Continues (first second : Group × Nat) : Prop where
  tally : first.1.tally <+: second.1.tally
  draws : first.2 ≤ second.2
  total : first.1.total ≤ second.1.total

/-- After the same opening face the second rule does not end before the first, even if other dice
came before its own. -/
def Outlasts (p q : Pool) (limits longer : Limits) : Prop :=
  ∀ ⦃opener : Nat⦄ ⦃b c : Burst⦄ ⦃ahead : List Die⦄, b.Obeys p limits opener →
    c.Obeys q longer opener → ahead ++ c.added <+: b.added → ahead ++ c.added = b.added

namespace Burst

variable {p : Pool} {limits : Limits} {threshold limit opener : Nat} {b c : Burst}

/-- Whatever the rule, every face adds a die that another follows. -/
theorem Obeys.explode_le (h : b.Obeys p limits opener) :
    ∀ face ∈ (opener :: b.faces).dropLast, p.explode ≤ face := by
  unfold Obeys at h
  split_ifs at h with hOff hChain
  · simp [h, none, faces]
  · exact h.le_of_mem_dropLast
  · have hLength := h.length_eq
    split_ifs at hLength with hHigh
    · obtain ⟨die, hAdded⟩ := List.length_eq_one_iff.1 hLength
      simpa [faces, hAdded] using hHigh.1
    · simp [faces, List.length_eq_zero_iff.1 hLength]

/-- A chain ends at the limit or at a face below the threshold, and neither leaves room for another
die. -/
theorem Chained.eq_of_begins {ahead : List Die} (h : c.Chained threshold limit opener)
    (hHigh : ∀ face ∈ (opener :: b.faces).dropLast, threshold ≤ face)
    (hLength : b.added.length ≤ limit) (hPrefix : ahead ++ c.added <+: b.added) :
    ahead ++ c.added = b.added := by
  obtain ⟨rest, hRest⟩ := hPrefix
  cases rest with
  | nil => rwa [List.append_nil] at hRest
  | cons die rest =>
      have hShort : c.added.length < limit := by
        rw [← hRest] at hLength
        simp only [List.length_append, List.length_cons] at hLength
        omega
      have hFaces : opener :: b.faces =
          (opener :: ahead.map Die.face ++ c.faces) ++ die.face :: rest.map Die.face := by
        simp [faces, ← hRest]
      have hLast : c.faces.getLastD opener ∈ opener :: ahead.map Die.face ++ c.faces := by
        have hMem : c.faces.getLastD opener ∈ opener :: c.faces := List.getLastD_mem_cons
        simp only [List.mem_cons, List.cons_append, List.mem_append] at hMem ⊢
        tauto
      rw [hFaces, List.dropLast_append_of_ne_nil (List.cons_ne_nil _ _)] at hHigh
      have hLow := h.last_lt hShort
      exact absurd (hHigh _ (List.mem_append_left _ hLast)) (Nat.not_le.2 hLow)

end Burst

variable {p q : Pool} {limits longer : Limits}

/-- Dice that do not explode are outlasted by any others. -/
theorem outlasts_of_explode_eq_zero (h : p.explode = 0) : Outlasts p q limits longer := by
  intro opener b c ahead hBurst _ hPrefix
  rw [Burst.Obeys, if_pos h] at hBurst
  rw [hBurst] at hPrefix ⊢
  exact List.prefix_nil.1 hPrefix

/-- Nothing outlasts a chain from the same threshold on with as wide a limit. -/
theorem outlasts_of_chain (hExplode : p.explode = q.explode) (hChain : q.chain = true)
    (hLimit : limits.explode ≤ longer.explode) : Outlasts p q limits longer := by
  by_cases hOff : p.explode = 0
  · exact outlasts_of_explode_eq_zero hOff
  · intro opener b c ahead hBurst hOther hPrefix
    rw [Burst.Obeys, if_neg (hExplode ▸ hOff), if_pos hChain] at hOther
    have hHigh := hBurst.explode_le
    rw [hExplode] at hHigh
    have hLength : b.added.length ≤ longer.explode :=
      hBurst.length_le.trans ((p.burstSize_le limits).trans hLimit)
    exact hOther.eq_of_begins hHigh hLength hPrefix

/-- Burst after burst the longer rule stays ahead: after each the dice that it has added begin with
those of the other, and the induction is on what it is `ahead` by. -/
theorem flatMap_added_begins {throwDie : StateM σ Die} (h : Outlasts p q limits longer)
    {openers ahead : List Die} {bursts others : List Burst}
    (hBursts : List.Forall₂ (fun opener b => b.Obeys p limits opener.face) openers bursts)
    (hOthers : List.Forall₂ (fun opener b => b.Obeys q longer opener.face) openers others)
    (hYields : Yields throwDie state (bursts.flatMap Burst.added) next)
    (hAhead : Yields throwDie state (ahead ++ others.flatMap Burst.added) after) :
    bursts.flatMap Burst.added <+: ahead ++ others.flatMap Burst.added := by
  induction hBursts generalizing ahead others state with
  | nil => exact List.nil_prefix
  | @cons opener b openers bursts hBurst _ ih =>
      cases hOthers with
      | @cons _ c _ others hOther hOthers =>
          rw [List.flatMap_cons] at hYields
          rw [List.flatMap_cons, ← List.append_assoc] at hAhead
          rw [List.flatMap_cons, List.flatMap_cons, ← List.append_assoc]
          obtain ⟨middle, hFirst, hRest⟩ := Yields.append_iff.1 hYields
          obtain ⟨_, hFirst', -⟩ := Yields.append_iff.1 hAhead
          obtain ⟨further, hFurther⟩ : b.added <+: ahead ++ c.added := by
            rcases hFirst.begins_or_begins hFirst' with hPrefix | hPrefix
            · exact hPrefix
            · exact h hBurst hOther hPrefix ▸ List.prefix_rfl
          rw [← hFurther, List.append_assoc] at hAhead ⊢
          obtain ⟨middle', hFirst'', hRest'⟩ := Yields.append_iff.1 hAhead
          obtain rfl := hFirst.next_unique hFirst''
          exact (List.prefix_append_right_inj _).2 (ih hOthers hRest hRest')

/-- Two groups of equally many opening dice, thrown from one state. -/
theorem Spill.dice_begins {t u : Table σ} {s v : Spill} (h : Outlasts p q t.limits u.limits)
    (hDie : t.throwDie p = u.throwDie q) (hCount : p.count = q.count) (hs : s.Obeys p t.limits)
    (hv : v.Obeys q u.limits) (hDraws : Yields (t.shaker p.sides) state s.draws next)
    (hOther : Yields (u.shaker q.sides) state v.draws after) : s.dice <+: v.dice := by
  have hFirst : Yields (t.throwDie p) state s.dice next :=
    Table.yields_throwDie_iff.2 ⟨hs.dice, hDraws⟩
  have hSecond : Yields (t.throwDie p) state v.dice after := by
    rw [hDie]
    exact Table.yields_throwDie_iff.2 ⟨hv.dice, hOther⟩
  obtain ⟨middle, hOpening, hAdded⟩ := Yields.append_iff.1 hFirst
  obtain ⟨middle', hOpening', hAdded'⟩ := Yields.append_iff.1 hSecond
  have hLength : s.opening.length = v.opening.length := by
    rw [hs.length_opening, hv.length_opening, hCount]
  have hSame : s.opening = v.opening := by
    rcases hOpening.begins_or_begins hOpening' with hPrefix | hPrefix
    · exact hPrefix.eq_of_length hLength
    · exact (hPrefix.eq_of_length hLength.symm).symm
  rw [← hSame] at hOpening'
  obtain rfl := hOpening.next_unique hOpening'
  have hBursts := hs.bursts
  rw [hSame] at hBursts
  have hBegins : s.bursts.flatMap Burst.added <+: [] ++ v.bursts.flatMap Burst.added :=
    flatMap_added_begins h hBursts hv.bursts hAdded hAdded'
  rw [Spill.dice, Spill.dice, hSame]
  exact (List.prefix_append_right_inj _).2 hBegins

namespace Table

/-- The count of a throw is the number of faces that were drawn for its dice. -/
theorem exists_spill_of_throwCounting (t : Table σ) (p : Pool) (state : σ) :
    ∃ (s : Spill) (next : σ), s.Obeys p t.limits ∧ Yields (t.shaker p.sides) state s.draws next ∧
      t.throwCounting p state = (p.score s.tally, s.draws.length) := by
  rcases hRun : (t.recording.throwGroup p).run (state, []) with ⟨g, next, drawn⟩
  obtain ⟨s, hObeys, rfl, hYields⟩ := throwGroup_run_eq_iff.1 hRun
  obtain ⟨hDraws, rfl⟩ := Yields.recording_iff.1 hYields
  have hGroup : (t.throwGroup p).run state = (p.score s.tally, next) :=
    throwGroup_run_eq_iff.2 ⟨s, hObeys, rfl, hDraws⟩
  exact ⟨s, next, hObeys, hDraws, by rw [throwCounting, hRun, hGroup]; rfl⟩

/-- Pools that differ in exploding alone draw the same opening dice, so the bursts decide which of
their groups continues the other. -/
theorem throwCounting_continues {t u : Table σ} (h : Outlasts p q t.limits u.limits)
    (hDie : t.throwDie p = u.throwDie q) (hCount : p.count = q.count) (hScore : p.score = q.score) :
    Group.Continues (t.throwCounting p state) (u.throwCounting q state) := by
  obtain ⟨s, next, hs, hDraws, hFirst⟩ := t.exists_spill_of_throwCounting p state
  obtain ⟨v, after, hv, hOther, hSecond⟩ := u.exists_spill_of_throwCounting q state
  have hDice := Spill.dice_begins h hDie hCount hs hv hDraws hOther
  have hTally : s.tally <+: v.tally := hDice.map Die.face
  have hLength : s.draws.length ≤ v.draws.length := by
    obtain ⟨rest, hRest⟩ := hDice
    rw [Spill.draws, Spill.draws, ← hRest, List.flatMap_append, List.length_append]
    exact Nat.le_add_right _ _
  rw [hFirst, hSecond]
  refine ⟨hTally, hLength, ?_⟩
  rw [hScore]
  exact q.total_score_mono hTally.sublist.sublistForall₂

/-- Thrown from one state, a group whose dice do not explode is continued by the one whose dice
explode once from a threshold on, this by the one whose dice explode on and on, and this by the same
under a wider limit. -/
theorem exploding_continues (t : Table σ) (p : Pool) (state : σ) (threshold : Nat) (chain : Bool)
    {limit : Nat} (hLimit : t.limits.explode ≤ limit) :
    [t.throwCounting (p.exploding 0 chain) state,
      t.throwCounting (p.exploding threshold false) state,
      t.throwCounting (p.exploding threshold true) state,
      (t.exploding limit).throwCounting (p.exploding threshold true) state].IsChain
        Group.Continues := by
  refine .cons_cons ?_ (.cons_cons ?_ (.cons_cons ?_ (.singleton _)))
  · refine throwCounting_continues ?_ rfl rfl rfl
    exact outlasts_of_explode_eq_zero rfl
  · refine throwCounting_continues ?_ rfl rfl rfl
    exact outlasts_of_chain rfl rfl (Nat.le_refl _)
  · refine throwCounting_continues ?_ rfl rfl rfl
    exact outlasts_of_chain rfl rfl hLimit

/-- Two dice, of which the lowest does not count; from five on they explode. -/
theorem exploding_continues_of_two_dice :
    let t : Table Nat := { shaker := Tape.cycle #[6, 5, 5, 6, 2, 1], limits := { explode := 1 } }
    let p : Pool := ⟨{ sides := 6, count := 2, drop := 1 }, by decide, by decide, by decide⟩
    let throws := [t.throwCounting (p.exploding 0 true) 0, t.throwCounting (p.exploding 5 false) 0,
      t.throwCounting (p.exploding 5 true) 0, (t.exploding 3).throwCounting (p.exploding 5 true) 0]
    t.limits.explode ≤ 3 ∧ throws.IsChain Group.Continues ∧
      throws = [(p.score [6, 5], 2), (p.score [6, 5, 5, 6], 4), (p.score [6, 5, 5, 6], 4),
        (p.score [6, 5, 5, 6, 2, 1], 6)] ∧
      (p.score [6, 5]).total = 6 ∧ (p.score [6, 5, 5, 6]).total = 17 ∧
      (p.score [6, 5, 5, 6, 2, 1]).total = 24 := by
  intro t p throws
  have hLimit : t.limits.explode ≤ 3 := by decide
  exact ⟨hLimit, t.exploding_continues p 0 5 true hLimit, rfl, by cbv, by cbv, by cbv⟩

end Table
end DiceTray
