import DiceTray.Proofs.Pool.Canonical
import Mathlib.Data.List.Nodup

/-! Affixes in another order. Each affix turns one dial of a draft. Turns of different dials may
trade places, and a turn does not show if the dial is turned again later. The letters of the affixes
follow each other without anything between them, so it also has to be seen that no two of them run
together: only exclamation marks could. Main statement: affixes that turn different dials may be
written in any order, and one whose dial is turned again may be left out, as long as no two affixes
that are spelled with exclamation marks meet. -/
namespace DiceTray

/-- The dials of a draft; an affix turns one of them. Whether dice explode once or on and on goes
with the threshold. -/
inductive Dial where
  | explode
  | keep
  | drop
  | reroll
  | multiplier
  | target
deriving DecidableEq, Repr

def Sigil.dial : Sigil → Dial
  | .e | .bang | .ie | .bangs => .explode
  | .k => .keep
  | .d => .drop
  | .r => .reroll
  | .star => .multiplier
  | .t => .target

def Sigil.isBang : Sigil → Bool
  | .bang | .bangs => true
  | _ => false

namespace Affix

def dial (a : Affix) : Dial := a.sigil.dial

/-- At most one of two neighbours is spelled with exclamation marks. -/
def Apart (a b : Affix) : Prop := a.sigil.isBang = true → b.sigil.isBang = false

variable {a b : Affix} {sides : Nat}

theorem Apart.mayPrecede (h : a.Apart b) : a.MayPrecede b := by
  intro hBang _
  have hOther : b.sigil.isBang = false := h (by rw [hBang]; rfl)
  constructor
  all_goals
    intro hSigil
    rw [hSigil] at hOther
    cases hOther

/-- Affixes that turn different dials do not make up one mark between them. -/
theorem apart_of_dial_ne (h : a.dial ≠ b.dial) : a.Apart b := by
  unfold dial at h
  unfold Apart
  cases ha : a.sigil <;> cases hb : b.sigil <;> simp_all [Sigil.dial, Sigil.isBang]

/-- Turns of different dials may trade places. -/
theorem change_comm (h : a.dial ≠ b.dial) (d : Draft) :
    b.change sides (a.change sides d) = a.change sides (b.change sides d) := by
  unfold dial at h
  cases ha : a.sigil <;> cases hb : b.sigil <;> simp_all [Sigil.dial, change]

/-- Of two turns of one dial the later stands. -/
theorem change_change (h : a.dial = b.dial) (d : Draft) :
    b.change sides (a.change sides d) = b.change sides d := by
  unfold dial at h
  cases ha : a.sigil <;> cases hb : b.sigil <;> simp_all [Sigil.dial, change]

/-- Affixes that turn different dials can be applied in any order. -/
theorem foldl_change_perm {affixes reordered : List Affix} (hPerm : reordered.Perm affixes)
    (hDials : (affixes.map dial).Nodup) (d : Draft) :
    reordered.foldl (change sides) d = affixes.foldl (change sides) d := by
  refine (hPerm.symm.foldl_eq' (fun a ha b hb d => ?_) d).symm
  by_cases hSame : a.dial = b.dial
  · rw [List.inj_on_of_nodup_map hDials ha hb hSame]
  · exact change_comm hSame d

/-- A turn does not show if the dial is turned again later. -/
theorem foldl_change_of_overwritten {later : List Affix}
    (h : ∃ b ∈ later, b.dial = a.dial) (d : Draft) :
    later.foldl (change sides) (a.change sides d) = later.foldl (change sides) d := by
  induction later generalizing d with
  | nil =>
      obtain ⟨b, hb, _⟩ := h
      cases hb
  | cons c later ih =>
      rw [List.foldl_cons, List.foldl_cons]
      by_cases hDial : c.dial = a.dial
      · rw [change_change hDial.symm]
      · have hLater : ∃ b ∈ later, b.dial = a.dial := by
          obtain ⟨b, hb, hSame⟩ := h
          rcases List.mem_cons.1 hb with rfl | hb
          · exact absurd hSame hDial
          · exact ⟨b, hb, hSame⟩
        rw [change_comm (Ne.symm hDial), ih hLater]

end Affix

namespace RollTerm

variable {t : RollTerm}

theorem isPaired_of_apart (h : t.affixes.IsChain Affix.Apart) : t.IsPaired :=
  h.imp fun _ _ => Affix.Apart.mayPrecede

theorem isPaired_of_nodup (h : (t.affixes.map Affix.dial).Nodup) : t.IsPaired :=
  isPaired_of_apart ((List.pairwise_map.1 h).isChain.imp fun _ _ => Affix.apart_of_dial_ne)

/-- A term is sound or has one of the flaws. -/
theorem isSound_or_hasFlaw (t : RollTerm) : t.IsSound ∨ ∃ flaw, t.HasFlaw flaw := by
  by_cases hSides : t.faces.value < 2
  · exact .inr ⟨_, .sides hSides⟩
  · by_cases hCount : t.count = 0
    · exact .inr ⟨_, .count (by omega) hCount⟩
    · by_cases hTimes : t.times = 0
      · exact .inr ⟨_, .times (by omega) (by omega) hTimes⟩
      · exact .inl ⟨by omega, by omega, by omega⟩

end RollTerm

namespace Pool

/-- A paired term is read as its dice, or its flaw is found. -/
theorem ofChars_isPaired_cases {t : RollTerm} (h : t.IsPaired) :
    (t.IsSound ∧ ∃ p, ofChars t.chars = .ok p ∧ p.toDraft = t.draft) ∨
      ∃ flaw, t.HasFlaw flaw ∧ ofChars t.chars = .error (.unsound flaw) := by
  rcases t.isSound_or_hasFlaw with hSound | ⟨flaw, hFlaw⟩
  · obtain ⟨p, hDraft⟩ := exists_draft_of_isSound hSound
    exact .inl ⟨hSound, p, ofChars_eq_ok_iff.2 ⟨t, rfl, h, hDraft⟩, hDraft.symm⟩
  · refine .inr ⟨flaw, hFlaw, ?_⟩
    rw [ofChars_of_isPaired h, RollTerm.build_draft_eq_error_iff.2 hFlaw]
    rfl

/-- Paired terms with the same draft are read alike. -/
theorem ofChars_congr {t u : RollTerm} (ht : t.IsPaired) (hu : u.IsPaired)
    (h : t.draft = u.draft) : ofChars t.chars = ofChars u.chars := by
  rw [ofChars_of_isPaired ht, ofChars_of_isPaired hu, h]

/-- Affixes that turn different dials may be written in any order: the texts are read as the same
dice, or the same flaw is found in both. And where no two affixes that are spelled with exclamation
marks stand side by side, an affix may be left out if its dial is turned again later, unless two
such affixes come to stand side by side then. -/
theorem ofChars_interchange (t : RollTerm) :
    (∀ reordered : List Affix, (t.affixes.map Affix.dial).Nodup → reordered.Perm t.affixes →
          ofChars { t with affixes := reordered }.chars = ofChars t.chars ∧
            ((t.IsSound ∧ ∃ p, ofChars t.chars = .ok p ∧ p.toDraft = t.draft) ∨
              ∃ flaw, t.HasFlaw flaw ∧ ofChars t.chars = .error (.unsound flaw))) ∧
      ∀ before a after, t.affixes = before ++ a :: after → t.affixes.IsChain Affix.Apart →
        (before ++ after).IsChain Affix.Apart → (∃ b ∈ after, b.dial = a.dial) →
          ofChars { t with affixes := before ++ after }.chars = ofChars t.chars := by
  constructor
  · intro reordered hDials hPerm
    have hReordered : (reordered.map Affix.dial).Nodup :=
      (hPerm.map Affix.dial).nodup_iff.2 hDials
    have hPaired : t.IsPaired := RollTerm.isPaired_of_nodup hDials
    refine ⟨?_, ofChars_isPaired_cases hPaired⟩
    exact ofChars_congr (RollTerm.isPaired_of_nodup hReordered) hPaired
      (Affix.foldl_change_perm hPerm hDials _)
  · intro before a after hAffixes hApart hRest hLater
    refine ofChars_congr (RollTerm.isPaired_of_apart hRest) (RollTerm.isPaired_of_apart hApart) ?_
    rw [RollTerm.draft, RollTerm.draft, hAffixes, List.foldl_append, List.foldl_append,
      List.foldl_cons]
    exact (Affix.foldl_change_of_overwritten hLater _).symm

/-- `3d6!k2r` means the same from its last affix to its first, and in `3d6!!k1!2` the first affix
does not matter. -/
theorem ofChars_interchange_of_three_affixes :
    ofChars ['3', 'd', '6', 'r', 'k', '2', '!'] = ofChars ['3', 'd', '6', '!', 'k', '2', 'r'] ∧
      ofChars ['3', 'd', '6', 'k', '1', '!', '2'] =
        ofChars ['3', 'd', '6', '!', '!', 'k', '1', '!', '2'] := by
  let amount (n : Nat) (h : n < 10 ^ 3) : Option (Figure 3) := some (Figure.ofNat n (by decide) h)
  let term (affixes : List Affix) : RollTerm :=
    ⟨none, some (Figure.ofNat 3 (by decide) (by decide)),
      .figure (Figure.ofNat 6 (by decide) (by decide)), affixes⟩
  constructor
  · let written := term [⟨.bang, none⟩, ⟨.k, amount 2 (by decide)⟩, ⟨.r, none⟩]
    exact ((ofChars_interchange written).1 _ (by decide) (List.reverse_perm _)).1
  · let written := term [⟨.bangs, none⟩, ⟨.k, amount 1 (by decide)⟩, ⟨.bang, amount 2 (by decide)⟩]
    have hWritten : written.affixes.IsChain Affix.Apart :=
      .cons_cons (fun _ => rfl) (.cons_cons nofun (.singleton _))
    exact (ofChars_interchange written).2 [] _ _ rfl hWritten hWritten.tail
      ⟨_, List.mem_cons_of_mem _ List.mem_cons_self, rfl⟩

end Pool
end DiceTray
