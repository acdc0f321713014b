import DiceTray.Proofs.Group.Worth
import DiceTray.Proofs.Script.RoundTrip
import DiceTray.Proofs.Section.Evaluation

/-! Arithmetic on whatever a text describes. The numbers of a pool that was read have few digits, so
its dice never come near the ends of what a total can be. Main statement: only the sum of a section
can, and it stays at the end that it meets. -/
namespace DiceTray

variable {σ : Type}

/-- What an operand is worth; dice are scored and added up with care. -/
def Operand.value? : Operand → Option Int
  | .dice w => w.total?.map Int.ofNat
  | o => some o.value

/-- The sum of the items from left to right. No care is taken of the sum itself. -/
def sumItems? (items : List Item) : Option Int :=
  items.foldlM (fun total item => item.operand.value?.map (item.joint.apply total)) 0

/-- Care makes no difference to a sum whose operands are all worth something. -/
theorem sumItems?_eq {items : List Item}
    (h : ∀ item ∈ items, item.operand.value? = some item.operand.value) :
    sumItems? items = some (sumItems items) := by
  have hFold : ∀ total, items.foldlM
      (fun total item => item.operand.value?.map (item.joint.apply total)) total =
        some (items.foldl (fun total item => item.joint.apply total item.operand.value) total) := by
    induction items with
    | nil => intro total; rfl
    | cons item items ih =>
        intro total
        obtain ⟨hFirst, hRest⟩ := List.forall_mem_cons.1 h
        rw [List.foldlM_cons, hFirst]
        exact ih hRest _
  exact hFold 0

def Section.total? (s : Section) : Option Int :=
  sumItems? (s.items.filter fun item => item.operand.scores)

/-- Only the throws of a section need care. -/
theorem Section.total?_eq {s : Section} (h : ∀ w ∈ s.throws, w.total? = some w.total) :
    s.total? = some s.outcome.total := by
  refine sumItems?_eq fun item hItem => ?_
  cases hOperand : item.operand with
  | dice w =>
      have hMem : w ∈ s.throws :=
        List.mem_filterMap.2 ⟨item, List.mem_of_mem_filter hItem, by rw [hOperand]; rfl⟩
      rw [Operand.value?, h w hMem]
      rfl
  | literal _ | note _ | plain _ => rfl

/-- What the total would be after one more operand if totals had no ends. -/
def Joint.unclamped (joint : Joint) (total value : Int) : Int :=
  match joint with
  | .signed .minus => total - value
  | .lead | .signed .plus => total + value

/-- A step clamps what the total would be without ends. -/
theorem Joint.apply_eq (joint : Joint) (total value : Int) :
    joint.apply total value = clampTotal (joint.unclamped total value) := by
  rcases joint with _ | _ | _ <;> rfl

/-- A total stays at the end that it meets. -/
theorem Joint.apply_saturates (joint : Joint) (total value : Int) :
    (joint.unclamped total value ≤ minTotal → joint.apply total value = minTotal) ∧
      (maxTotal ≤ joint.unclamped total value → joint.apply total value = maxTotal) ∧
      (minTotal ≤ joint.unclamped total value → joint.unclamped total value ≤ maxTotal →
        joint.apply total value = joint.unclamped total value) := by
  rw [joint.apply_eq]
  unfold clampTotal minTotal maxTotal
  omega

/-- The dice of a section that was read were read from a term, and so have few digits. -/
theorem Section.WellFormed.fits {s : Section} {w : Throw} (h : s.WellFormed) (hw : w ∈ s.throws) :
    w.pool.toDraft.Fits := by
  obtain ⟨item, hItem, hThrow⟩ := List.mem_filterMap.1 hw
  have hOperand := h.isClosed_or_isUnclosed hItem
  generalize item.operand = o at hThrow hOperand
  rcases hOperand with hClosed | hUnclosed
  · cases hClosed with
    | dice hFits =>
        cases hThrow
        exact hFits
    | literal | word | stray => cases hThrow
  · cases hUnclosed
    cases hThrow

theorem Draft.Fits.scale_le {p : Pool} (h : p.toDraft.Fits) : p.scale ≤ 999 :=
  max_le (Nat.le_of_lt_succ h.multiplier) (by decide)

/-- Ninety-nine dice at their highest faces, multiplied by no more than three digits, are far from
the ends. -/
theorem Draft.Fits.isInner_bounds {p : Pool} (h : p.toDraft.Fits) :
    IsInner (p.maximum + p.minimum) := by
  have hSelected : p.selected ≤ 99 := p.selected_le_count.trans (Nat.le_of_lt_succ h.count)
  have hMaximum : p.maximum ≤ 99 * 999 * 999 :=
    Nat.mul_le_mul (Nat.mul_le_mul hSelected (Nat.le_of_lt_succ h.sides)) h.scale_le
  have hMinimum := p.minimum_le_maximum
  unfold IsInner minTotal maxTotal
  omega

/-- Groups of at most 99 dice and their additions, at most 99 times over. -/
theorem Draft.Fits.isInner_total {p : Pool} {limits : Limits} {w : Throw} (h : p.toDraft.Fits)
    (hLimit : limits.explode ≤ 20) (hLength : w.groups.length = p.times)
    (hFits : ∀ g ∈ w.groups, g.Fits p limits)
    (hFaces : ∀ g ∈ w.groups, ∀ face ∈ g.tally, face < 2 ^ 32) : IsInner w.total := by
  have hDice : p.count * (1 + limits.explode) ≤ 99 * 21 :=
    Nat.mul_le_mul (Nat.le_of_lt_succ h.count) (Nat.add_le_add_left hLimit 1)
  have hGroup : ∀ g ∈ w.groups, g.total ≤ 99 * 21 * 4294967295 * 999 := fun g hg =>
    calc g.total
      _ ≤ p.count * (1 + limits.explode) * 4294967295 * p.scale :=
        (hFits g hg).total_le fun face hFace => Nat.le_of_lt_succ (hFaces g hg face hFace)
      _ ≤ 99 * 21 * 4294967295 * 999 := Nat.mul_le_mul (Nat.mul_le_mul_right _ hDice) h.scale_le
  have hTotal : w.total ≤ 99 * (99 * 21 * 4294967295 * 999) :=
    calc w.total
      _ ≤ w.groups.length * (99 * 21 * 4294967295 * 999) := Throw.total_le hGroup
      _ ≤ 99 * (99 * 21 * 4294967295 * 999) :=
        Nat.mul_le_mul_right _ (hLength.trans_le (Nat.le_of_lt_succ h.times))
  unfold IsInner minTotal maxTotal
  omega

/-- Every throw of a rolled script is the roll of one of its throws. -/
theorem Script.exists_roll_of_mem_throws {t : Table σ} {script rolled : Script} {s : Section}
    {w : Throw} {state next : σ} (h : (script.roll t).run state = (rolled, next))
    (hs : s ∈ rolled.sections) (hw : w ∈ s.throws) :
    ∃ first ∈ script.sections, ∃ v ∈ first.throws, ∃ before after,
      (v.roll t).run before = (w, after) := by
  obtain ⟨sections, _, hSections, hEnd⟩ := bind_run_eq_iff.1 h
  cases hEnd
  obtain ⟨first, hFirst, before, after, hRoll⟩ := exists_of_mem_mapM_run hSections hs
  have hThrows : (first.throws.mapM (Throw.roll t)).run before = (s.throws, after) := by
    rw [← Section.throws_roll, StateT.run_map, hRoll]
    rfl
  exact ⟨first, hFirst, exists_of_mem_mapM_run hThrows hw⟩

namespace Script

/-- No throw of a script that was read and rolled comes too far. -/
theorem total?_of_mem_throws {t : Table σ} {cs : List Char} {rolled : Script} {s : Section}
    {w : Throw} {state next : σ} (hLimit : t.limits.explode ≤ 20)
    (hFaces : ∀ sides, t.ShowsOnly sides (· < 2 ^ 32))
    (h : ((ofChars cs).roll t).run state = (rolled, next)) (hs : s ∈ rolled.sections)
    (hw : w ∈ s.throws) : w.total? = some w.total := by
  obtain ⟨first, hFirst, v, hv, before, after, hRoll⟩ := exists_roll_of_mem_throws h hs hw
  have hDraft : v.pool.toDraft.Fits := (wellFormed_of_mem_sections hFirst).fits hv
  have hShown := Throw.forall_mem_tally_of_roll (hFaces v.pool.sides) hRoll
  obtain ⟨groups, rfl, hLength, hGroups⟩ := Throw.exists_groups_of_roll hRoll
  refine Throw.total?_eq (fun g hg => (hGroups g hg).score_tally) ?_
  exact hDraft.isInner_total hLimit hLength hGroups hShown

/-- A pool that a text describes, by itself or as one of the throws of a script. -/
def Describes (text : String) (p : Pool) : Prop :=
  Pool.read text = .ok p ∨ ∃ s ∈ (read text).sections, ∃ w ∈ s.throws, w.pool = p

theorem Describes.fits {text : String} {p : Pool} (h : Describes text p) : p.toDraft.Fits := by
  rcases h with hRead | ⟨s, hs, w, hw, rfl⟩
  · exact Pool.fits_of_ofChars hRead
  · exact (wellFormed_of_mem_sections hs).fits hw

/-- Whatever a text says and whatever words of 32 bits the shaker shows, as long as a die may not
add more dice than by default: no throw comes as far as an end of what a total can be, and neither
does a bound of a pool. In general a group is worth no more than the most dice that it can have,
each at its highest face, multiplied. A section can meet an end, and then stays there. Whatever pool
is built, its lowest face is a word. -/
theorem no_throw_overflows (t : Table σ) (state : σ) (text : String) :
    (t.limits.explode ≤ ({} : Limits).explode → (∀ sides, t.ShowsOnly sides (· < 2 ^ 32)) →
      ∀ s ∈ (((read text).roll t).run state).1.sections,
        s.total? = some s.outcome.total ∧ ∀ w ∈ s.throws, w.total? = some w.total) ∧
    (∀ p, Describes text p → p.maximum? = some p.maximum ∧ p.minimum? = some p.minimum ∧
      p.boundSum? = some (p.maximum + p.minimum)) ∧
    (∀ w : Throw, ∀ g ∈ ((w.roll t).run state).1.groups, ∀ top, (∀ face ∈ g.tally, face ≤ top) →
      g.total ≤ w.pool.count * (1 + t.limits.explode) * top * w.pool.scale) ∧
    (∀ (joint : Joint) (total value : Int),
      (joint.unclamped total value ≤ minTotal → joint.apply total value = minTotal) ∧
      (maxTotal ≤ joint.unclamped total value → joint.apply total value = maxTotal) ∧
      (minTotal ≤ joint.unclamped total value → joint.unclamped total value ≤ maxTotal →
        joint.apply total value = joint.unclamped total value)) ∧
    ∀ (d : Draft) (p : Pool), d.build = .ok p → d.sides < 2 ^ 32 → p.lowest? = some p.lowest := by
  refine ⟨?_, ?_, ?_, Joint.apply_saturates, ?_⟩
  · intro hLimit hFaces s hs
    have hThrows : ∀ w ∈ s.throws, w.total? = some w.total := fun w hw =>
      total?_of_mem_throws hLimit hFaces rfl hs hw
    exact ⟨Section.total?_eq hThrows, hThrows⟩
  · intro p hDescribes
    have hFits := hDescribes.fits
    exact Pool.bounds?_eq (hFits.sides.trans (by decide)) hFits.isInner_bounds
  · intro w g hg top hTop
    rcases hRoll : (w.roll t).run state with ⟨rolled, next⟩
    rw [hRoll] at hg
    obtain ⟨groups, rfl, -, hFits⟩ := Throw.exists_groups_of_roll hRoll
    exact (hFits g hg).total_le hTop
  · intro d p hBuild hSides
    rw [← Draft.toDraft_of_build hBuild] at hSides
    exact Pool.lowest?_eq hSides

/-- A section that meets the end without any dice, and the greatest throw that can be written. -/
theorem no_throw_overflows_of_greatest_throw :
    let t : Table Unit := { shaker := fun _ => pure 4294967295 }
    let text := "9223372036854775807 + 1, 99x99d999ie1*999"
    t.limits.explode ≤ ({} : Limits).explode ∧ (∀ sides, t.ShowsOnly sides (· < 2 ^ 32)) ∧
      (read text).outcomes.map Outcome.total = [maxTotal, 0] ∧
      (read text).sections.map (fun s => s.throws.length) = [0, 1] ∧
      ∀ s ∈ (((read text).roll t).run ()).1.sections,
        s.total? = some s.outcome.total ∧ ∀ w ∈ s.throws, w.total? = some w.total := by
  intro t text
  have hFaces : ∀ sides, t.ShowsOnly sides (· < 2 ^ 32) := fun _ _ => by
    show 4294967295 < 2 ^ 32
    decide
  have hLimit : t.limits.explode ≤ ({} : Limits).explode := Nat.le_refl _
  refine ⟨hLimit, hFaces, by decide +kernel, by decide +kernel, ?_⟩
  exact (no_throw_overflows t () text).1 hLimit hFaces

end Script
end DiceTray
