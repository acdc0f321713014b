import DiceTray.Group.Score
import DiceTray.Proofs.Pool.Canonical

/-! Idle settings have no part in a throw. A pool without them draws the same dice and scores them
the same. -/
namespace DiceTray

variable {σ : Type}

namespace Pool

theorem explodes_tidy (p : Pool) : p.tidy.explodes = p.explodes := rfl

/-- A multiplier that does nothing is not told from one that is off. -/
theorem scale_tidy (p : Pool) : p.tidy.scale = p.scale := by
  have hTidy : p.tidy.multiplier = if 1 < p.multiplier then p.multiplier else 0 := rfl
  rw [scale, scale, hTidy]
  split
  · rfl
  · omega

/-- A multiplier of nought scores as one does. -/
theorem score_tidy (p : Pool) (tally : List Nat) : p.tidy.score tally = p.score tally := by
  have hQuota : p.tidy.quota = p.quota := rfl
  have hWorth : ∀ faces, p.tidy.worth faces = p.worth faces := by
    intro faces
    rw [worth, worth, p.scale_tidy]
    rfl
  rw [score, score, hQuota, hWorth]

end Pool

namespace Table

theorem throwDie_tidy (t : Table σ) (p : Pool) : t.throwDie p.tidy = t.throwDie p := rfl

/-- Exploding on and on is looked at only where dice explode. -/
theorem throwBurst_tidy (t : Table σ) (p : Pool) : t.throwBurst p.tidy = t.throwBurst p := by
  funext opener
  rw [throwBurst, throwBurst, p.explodes_tidy]
  cases h : p.explodes with
  | false => rfl
  | true =>
      have hChain : p.tidy.chain = p.chain := by simp [Pool.tidy, h]
      rw [hChain, t.throwDie_tidy]
      rfl

/-- The flag for chains changes nothing where no die explodes. -/
theorem spill_tidy (t : Table σ) (p : Pool) : t.spill p.tidy = t.spill p := by
  rw [spill, spill, t.throwDie_tidy, t.throwBurst_tidy]
  rfl

theorem throwGroup_tidy (t : Table σ) (p : Pool) : t.throwGroup p.tidy = t.throwGroup p := by
  have hScore : p.tidy.score = p.score := funext p.score_tidy
  rw [throwGroup, throwGroup, t.spill_tidy, hScore]

end Table
end DiceTray
