import DiceTray.Proofs.Shaker.Yields
import DiceTray.Throw

/-! The loops behind a throw, with a counter that goes up and is only compared with the limit. One
turn of a loop may be followed by another for ever, unless the counter meets the limit; it does,
because it starts at zero and passes no number by. Main statement: every die and every burst is what
its loop ends in. -/
namespace DiceTray

variable {σ : Type}

/-- The loop that draws a die again, from the turn on before which it has been drawn again `redraws`
times and shows `face`. -/
inductive Die.Redrawn (draw : StateM σ Nat) (threshold limit : Nat) :
    (redraws face : Nat) → σ → Die → σ → Prop where
  | cleared {redraws face : Nat} {state : σ} (hFace : ¬ face ≤ threshold) :
      Redrawn draw threshold limit redraws face state ⟨[], face, false⟩ state
  | stopped {redraws face : Nat} {state : σ} (hFace : face ≤ threshold) (hLimit : redraws = limit) :
      Redrawn draw threshold limit redraws face state ⟨[], face, true⟩ state
  | turn {redraws face again : Nat} {state middle next : σ} {die : Die} (hFace : face ≤ threshold)
      (hLimit : redraws ≠ limit) (hDraw : draw.run state = (again, middle))
      (rest : Redrawn draw threshold limit (redraws + 1) again middle die next) :
      Redrawn draw threshold limit redraws face state
        { die with rejected := face :: die.rejected } next

/-- The loop that adds dice after an opening die, from the turn on before which `extra` dice have
been added and the last die shows `last`. -/
inductive Burst.Grown (throwDie : StateM σ Die) (threshold limit : Nat) (chain : Bool) :
    (extra last : Nat) → σ → Burst → σ → Prop where
  | cleared {extra last : Nat} {state : σ} (hLast : ¬ threshold ≤ last) :
      Grown throwDie threshold limit chain extra last state ⟨[], false⟩ state
  | stopped {extra last : Nat} {state : σ} (hLast : threshold ≤ last) (hLimit : extra = limit) :
      Grown throwDie threshold limit chain extra last state ⟨[], true⟩ state
  | once {extra last : Nat} {state next : σ} {die : Die} (hLast : threshold ≤ last)
      (hLimit : extra ≠ limit) (hDie : throwDie.run state = (die, next)) (hChain : chain = false) :
      Grown throwDie threshold limit chain extra last state ⟨[die], false⟩ next
  | turn {extra last : Nat} {state middle next : σ} {die : Die} {burst : Burst}
      (hLast : threshold ≤ last) (hLimit : extra ≠ limit)
      (hDie : throwDie.run state = (die, middle)) (hChain : chain = true)
      (rest : Grown throwDie threshold limit chain (extra + 1) die.face middle burst next) :
      Grown throwDie threshold limit chain extra last state
        { burst with added := die :: burst.added } next

variable {state next : σ}

/-- The allowance of the recursion is the distance of the counter from the limit. -/
theorem Die.settle_run_eq_iff_redrawn (redraws : Nat) {draw : StateM σ Nat}
    {threshold allowance face : Nat} {die : Die} :
    (settle draw threshold allowance face).run state = (die, next) ↔
      Redrawn draw threshold (redraws + allowance) redraws face state die next := by
  induction allowance generalizing redraws face state die with
  | zero =>
      rw [settle]
      constructor
      · intro h
        cases h
        by_cases hFace : face ≤ threshold
        · rw [decide_eq_true hFace]
          exact Redrawn.stopped hFace rfl
        · rw [decide_eq_false hFace]
          exact Redrawn.cleared hFace
      · intro h
        cases h with
        | cleared hFace => rw [decide_eq_false hFace]; rfl
        | stopped hFace => rw [decide_eq_true hFace]; rfl
        | turn _ hLimit => exact absurd rfl hLimit
  | succ allowance ih =>
      -- a turn takes one from the allowance and adds one to the counter; the limit stays
      have hCount : redraws + (allowance + 1) = redraws + 1 + allowance := by omega
      rw [settle]
      split
      · rename_i hFace
        constructor
        · intro h
          obtain ⟨again, middle, hDraw, h⟩ := bind_run_eq_iff.1 h
          obtain ⟨rest, _, hRest, hEnd⟩ := bind_run_eq_iff.1 h
          cases hEnd
          rw [ih (redraws + 1), ← hCount] at hRest
          exact Redrawn.turn hFace (by omega) hDraw hRest
        · intro h
          cases h with
          | cleared hHigh => exact absurd hFace hHigh
          | stopped _ hLimit => omega
          | turn _ _ hDraw rest =>
              rw [hCount, ← ih (redraws + 1)] at rest
              exact bind_run_eq_iff.2 ⟨_, _, hDraw, bind_run_eq_iff.2 ⟨_, _, rest, rfl⟩⟩
      · rename_i hFace
        constructor
        · intro h
          cases h
          exact Redrawn.cleared hFace
        · intro h
          cases h with
          | cleared => rfl
          | stopped hLow | turn hLow => exact absurd hLow hFace

/-- The recursion on an allowance and the loop that counts the dice added so far run alike; a turn
takes one from the allowance and adds one to the counter, so their sum stays the limit. -/
theorem Burst.after_run_eq_iff_grown (extra : Nat) {throwDie : StateM σ Die} {chain : Bool}
    {threshold allowance last : Nat} {burst : Burst} :
    (after throwDie threshold chain allowance last).run state = (burst, next) ↔
      Grown throwDie threshold (extra + allowance) chain extra last state burst next := by
  induction allowance generalizing extra last state burst with
  | zero =>
      rw [after]
      constructor
      · intro h
        cases h
        by_cases hLast : threshold ≤ last
        · rw [decide_eq_true hLast]
          exact Grown.stopped hLast rfl
        · rw [decide_eq_false hLast]
          exact Grown.cleared hLast
      · intro h
        cases h with
        | cleared hLast => rw [decide_eq_false hLast]; rfl
        | stopped hLast => rw [decide_eq_true hLast]; rfl
        | once _ hLimit | turn _ hLimit => exact absurd rfl hLimit
  | succ allowance ih =>
      have hCount : extra + (allowance + 1) = extra + 1 + allowance := by omega
      rw [after]
      split
      · rename_i hLast
        constructor
        · intro h
          obtain ⟨die, middle, hDie, h⟩ := bind_run_eq_iff.1 h
          cases chain with
          | true =>
              obtain ⟨rest, _, hRest, hEnd⟩ := bind_run_eq_iff.1 h
              cases hEnd
              rw [ih (extra + 1), ← hCount] at hRest
              exact Grown.turn hLast (by omega) hDie rfl hRest
          | false =>
              cases h
              exact Grown.once hLast (by omega) hDie rfl
        · intro h
          cases h with
          | cleared hLow => exact absurd hLast hLow
          | stopped _ hLimit => omega
          | once _ _ hDie hChain =>
              cases hChain
              exact bind_run_eq_iff.2 ⟨_, _, hDie, rfl⟩
          | turn _ _ hDie hChain rest =>
              cases hChain
              rw [hCount, ← ih (extra + 1)] at rest
              exact bind_run_eq_iff.2 ⟨_, _, hDie, bind_run_eq_iff.2 ⟨_, _, rest, rfl⟩⟩
      · rename_i hLast
        constructor
        · intro h
          cases h
          exact Grown.cleared hLast
        · intro h
          cases h with
          | cleared => rfl
          | stopped hHigh | once hHigh | turn hHigh => exact absurd hHigh hLast

namespace Table

variable {t : Table σ} {p : Pool}

/-- Throwing a die comes to an end in `die`: it shows a face, and if the pool draws any face again
then it goes through the loop. -/
def DieEnds (t : Table σ) (p : Pool) (state : σ) (die : Die) (next : σ) : Prop :=
  ∃ face middle, (t.shaker p.sides).run state = (face, middle) ∧
    if p.rerolls then Die.Redrawn (t.shaker p.sides) p.reroll t.limits.reroll 0 face middle die next
    else die = ⟨[], face, false⟩ ∧ next = middle

/-- Adding dice after an opening die comes to an end in `burst`. -/
def BurstEnds (t : Table σ) (p : Pool) (opener : Die) (state : σ) (burst : Burst) (next : σ) :
    Prop :=
  if p.explodes then
    Burst.Grown (t.throwDie p) p.explode t.limits.explode p.chain 0 opener.face state burst next
  else burst = Burst.none ∧ next = state

/-- Throwing a die comes to an end, in just one way. -/
theorem dieEnds_iff {die : Die} :
    t.DieEnds p state die next ↔ (t.throwDie p).run state = (die, next) := by
  rw [throwDie, bind_run_eq_iff, DieEnds]
  have hZero : 0 + t.limits.reroll = t.limits.reroll := Nat.zero_add _
  split
  · simp only [Die.settle_run_eq_iff_redrawn 0, hZero]
  · constructor
    · rintro ⟨face, middle, hFace, rfl, rfl⟩
      exact ⟨face, next, hFace, rfl⟩
    · rintro ⟨face, middle, hFace, hEnd⟩
      cases hEnd
      exact ⟨face, next, hFace, rfl, rfl⟩

/-- The rule for one opening die, told by the loop, gives exactly the bursts that are thrown. -/
theorem burstEnds_iff {opener : Die} {burst : Burst} :
    t.BurstEnds p opener state burst next ↔
      (t.throwBurst p opener).run state = (burst, next) := by
  rw [throwBurst, BurstEnds]
  have hZero : 0 + t.limits.explode = t.limits.explode := Nat.zero_add _
  split
  · rw [Burst.after_run_eq_iff_grown 0, hZero]
  · constructor
    · rintro ⟨rfl, rfl⟩
      rfl
    · intro h
      cases h
      exact ⟨rfl, rfl⟩

end Table
end DiceTray
