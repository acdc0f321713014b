import DiceTray.Proofs.Shaker.Yields
import DiceTray.Shaker.Words
import Mathlib.Algebra.BigOperators.Group.Finset.Basic
import Mathlib.Algebra.Order.Floor.Div
import Mathlib.Order.Interval.Finset.Nat

/-! Fair faces. The words that settle on one face are those whose product with the number of sides
lies in the interval of that face. All these intervals have the same length, the number of sides
times a power of two, so each holds exactly this power of multiples, wherever it begins. Main
statement: every face has equally many words, and of a run of words the first that is accepted
decides the face that is shown. -/
namespace DiceTray
namespace Words

variable {sides : Nat}

/-- Doubled as often as possible, the number of sides fills at least half of a word. -/
theorem two_pow_le_mul_headroom (hPos : 1 ≤ sides) (hWord : sides < wordCount) :
    2 ^ 31 ≤ sides * 2 ^ headroom sides ∧ sides * 2 ^ headroom sides < wordCount := by
  have hLog : sides.log2 ≤ 31 := Nat.lt_succ_iff.1 ((Nat.log2_lt (by omega)).2 hWord)
  have hExponents : sides.log2 + headroom sides = 31 := by
    unfold headroom
    omega
  have hWordCount : wordCount = 2 ^ (sides.log2 + 1) * 2 ^ headroom sides := by
    rw [← Nat.pow_add, Nat.add_right_comm, hExponents]
    rfl
  refine ⟨?_, ?_⟩
  · rw [← hExponents, Nat.pow_add]
    exact Nat.mul_le_mul_right _ (Nat.log2_self_le (by omega))
  · rw [hWordCount]
    exact Nat.mul_lt_mul_of_pos_right Nat.lt_log2_self (Nat.two_pow_pos _)

/-- The headroom is the number of zeros in front of the number of sides, written with 32 bits. -/
theorem headroom_eq_clz (hPos : 1 ≤ sides) (hWord : sides < wordCount) :
    headroom sides = (BitVec.ofNat 32 sides).clz.toNat := by
  have hNat : (BitVec.ofNat 32 sides).toNat = sides := Nat.mod_eq_of_lt hWord
  have hNonzero : BitVec.ofNat 32 sides ≠ 0#32 := by
    intro h
    rw [h, BitVec.toNat_zero] at hNat
    omega
  have hZeros : (BitVec.ofNat 32 sides).clz.toNat < 32 :=
    BitVec.lt_def.1 (BitVec.clz_lt_iff_ne_zero.2 hNonzero)
  have hLow := BitVec.two_pow_sub_clz_le_toNat_of_ne_zero (by decide) hNonzero
  have hHigh := BitVec.toNat_lt_two_pow_sub_clz (x := BitVec.ofNat 32 sides)
  rw [hNat] at hLow hHigh
  have hLog : sides.log2 = 31 - (BitVec.ofNat 32 sides).clz.toNat := by
    refine (Nat.log2_eq_iff (by omega)).2 ⟨hLow, ?_⟩
    rwa [show 31 - (BitVec.ofNat 32 sides).clz.toNat + 1 =
      32 - (BitVec.ofNat 32 sides).clz.toNat by omega]
  rw [headroom, hLog]
  omega

/-- The highest accepted places end just below the shifted number of sides. -/
theorem zone_add_one (hPos : 1 ≤ sides) : zone sides + 1 = sides * 2 ^ headroom sides := by
  have hRoom := Nat.mul_pos hPos (Nat.two_pow_pos (headroom sides))
  rw [zone, Nat.shiftLeft_eq]
  omega

/-- A word settles on a face if its product with the number of sides lies in the interval of that
face. -/
theorem settles_iff (hPos : 1 ≤ sides) (hWord : sides < wordCount) (word below : Nat) :
    accepts sides word = true ∧ face sides word = below + 1 ↔
      below * wordCount ≤ sides * word ∧
        sides * word < below * wordCount + sides * 2 ^ headroom sides := by
  have hZone := zone_add_one hPos
  have hRoom := (two_pow_le_mul_headroom hPos hWord).2
  rw [accepts, decide_eq_true_eq, face, Nat.mul_comm word sides]
  unfold wordCount at hRoom ⊢
  omega

/-- Wherever an interval begins, it holds as many multiples as its length does. -/
theorem between_multiples_iff (hPos : 0 < sides) (start count word : Nat) :
    start ≤ sides * word ∧ sides * word < start + sides * count ↔
      word ∈ Finset.Ico (start ⌈/⌉ sides) (start ⌈/⌉ sides + count) := by
  have hStart : ∀ n, start ⌈/⌉ sides ≤ n ↔ start ≤ sides * n := fun n => ceilDiv_le_iff_le_mul hPos
  have hStop : word < start ⌈/⌉ sides + count ↔ sides * word < start + sides * count := by
    rcases Nat.lt_or_ge word count with hLess | hMore
    · have hProduct : sides * word < sides * count := Nat.mul_lt_mul_of_pos_left hLess hPos
      omega
    · obtain ⟨more, rfl⟩ := Nat.exists_eq_add_of_le hMore
      rw [Nat.mul_add, Nat.add_comm count more, Nat.add_lt_add_iff_right,
        Nat.add_comm (sides * count), Nat.add_lt_add_iff_right, ← Nat.not_le, hStart, Nat.not_le]
  rw [Finset.mem_Ico, hStart, hStop]

/-- Every word has a face of the die, accepted or not. -/
theorem face_mem_range (hPos : 1 ≤ sides) {word : Nat} (h : word < wordCount) :
    1 ≤ face sides word ∧ face sides word ≤ sides := by
  have hProduct : word * sides < wordCount * sides := Nat.mul_lt_mul_of_pos_right h hPos
  have hQuotient : word * sides / wordCount < sides := Nat.div_lt_of_lt_mul hProduct
  rw [face, Nat.add_comm]
  exact ⟨Nat.le_add_left 1 _, hQuotient⟩

def settling (sides shown : Nat) : Finset Nat :=
  (Finset.range wordCount).filter fun word => accepts sides word ∧ face sides word = shown

def accepted (sides : Nat) : Finset Nat :=
  (Finset.range wordCount).filter fun word => accepts sides word

/-- Equally many words settle on each face. -/
theorem card_settling (hPos : 1 ≤ sides) (hWord : sides < wordCount) {below : Nat}
    (hFace : below < sides) : (settling sides (below + 1)).card = 2 ^ headroom sides := by
  have hRoom := (two_pow_le_mul_headroom hPos hWord).2
  have hSettling : settling sides (below + 1) =
      Finset.Ico ((below * wordCount) ⌈/⌉ sides)
        ((below * wordCount) ⌈/⌉ sides + 2 ^ headroom sides) := by
    ext word
    rw [settling, Finset.mem_filter, settles_iff hPos hWord, ← between_multiples_iff hPos,
      Finset.mem_range]
    refine and_iff_right_of_imp fun ⟨_, hStop⟩ => ?_
    have hLast : (below + 1) * wordCount ≤ sides * wordCount := Nat.mul_le_mul_right _ hFace
    rw [Nat.add_one_mul] at hLast
    exact Nat.lt_of_mul_lt_mul_left (Nat.lt_of_lt_of_le (by omega) hLast)
  rw [hSettling, Nat.card_Ico, Nat.add_sub_cancel_left]

/-- All faces together take the accepted words. -/
theorem card_accepted (hPos : 1 ≤ sides) (hWord : sides < wordCount) :
    (accepted sides).card = sides * 2 ^ headroom sides := by
  have hFaces : Set.MapsTo (fun word => face sides word - 1) (accepted sides)
      (Finset.range sides) := by
    intro word hAccepted
    obtain ⟨hOne, hSides⟩ :=
      face_mem_range hPos (Finset.mem_range.1 (Finset.mem_filter.1 hAccepted).1)
    exact Finset.mem_coe.2 (Finset.mem_range.2 (Nat.sub_one_lt_of_le hOne hSides))
  have hEach : ∀ below ∈ Finset.range sides,
      ((accepted sides).filter fun word => face sides word - 1 = below).card =
        2 ^ headroom sides := by
    intro below hBelow
    have hSame : ((accepted sides).filter fun word => face sides word - 1 = below) =
        settling sides (below + 1) := by
      ext word
      have hFace : face sides word - 1 = below ↔ face sides word = below + 1 :=
        Nat.sub_eq_iff_eq_add (Nat.le_add_right 1 _)
      simp only [accepted, settling, Finset.mem_filter, hFace, and_assoc]
    rw [hSame, card_settling hPos hWord (Finset.mem_range.1 hBelow)]
  rw [Finset.card_eq_sum_card_fiberwise hFaces, Finset.sum_congr rfl hEach, Finset.sum_const,
    Finset.card_range, smul_eq_mul]

variable {σ : Type} {word : StateM σ Nat} {state next : σ}

/-- The loop ends at the first accepted word, whatever attempts it has left. -/
theorem faceWithin_run {passed : List Nat} {last : Nat}
    (hYields : Yields word state (passed ++ [last]) next)
    (hPassed : ∀ w ∈ passed, accepts sides w = false) (hLast : accepts sides last = true)
    {attempts : Nat} (hAttempts : passed.length < attempts) :
    (faceWithin word sides attempts).run state = (some (face sides last), next) := by
  induction passed generalizing state attempts with
  | nil =>
      obtain ⟨attempts, rfl⟩ := Nat.exists_eq_add_one_of_ne_zero (Nat.ne_of_gt hAttempts)
      obtain ⟨middle, hWord, hEnd⟩ := Yields.cons_iff.1 hYields
      obtain rfl := Yields.nil_iff.1 hEnd
      refine bind_run_eq_iff.2 ⟨last, middle, hWord, ?_⟩
      rw [if_pos hLast]
      rfl
  | cons w passed ih =>
      obtain ⟨attempts, rfl⟩ := Nat.exists_eq_add_one_of_ne_zero (Nat.ne_zero_of_lt hAttempts)
      obtain ⟨middle, hWord, hRest⟩ := Yields.cons_iff.1 hYields
      obtain ⟨hFirst, hPassed⟩ := List.forall_mem_cons.1 hPassed
      refine bind_run_eq_iff.2 ⟨w, middle, hWord, ?_⟩
      rw [if_neg (by rw [hFirst]; exact Bool.false_ne_true)]
      exact ih hRest hPassed (Nat.lt_of_succ_lt_succ hAttempts)

/-- The shaker shows the face of the first accepted word if it has attempts enough. -/
theorem shaker_run {passed : List Nat} {last : Nat}
    (hYields : Yields word state (passed ++ [last]) next)
    (hPassed : ∀ w ∈ passed, accepts sides w = false) (hLast : accepts sides last = true)
    {attempts : Nat} (hAttempts : passed.length < attempts) :
    (shaker word attempts sides).run state = (face sides last, next) :=
  bind_run_eq_iff.2 ⟨_, _, faceWithin_run hYields hPassed hLast hAttempts, rfl⟩

/-- A roller takes words by the rule if an accepted word settles its face, and it goes on from any
other word as if that had not been there. -/
structure FollowsRule (word : StateM σ Nat) (sides : Nat) (roll : StateM σ Nat) : Prop where
  settles : ∀ state w next, word.run state = (w, next) → accepts sides w = true →
    roll.run state = (face sides w, next)
  passes : ∀ state w next, word.run state = (w, next) → accepts sides w = false →
    roll.run state = roll.run next

/-- Whichever roller takes words by the rule, it ends at the first that is accepted. -/
theorem FollowsRule.run {roll : StateM σ Nat} (h : FollowsRule word sides roll)
    {passed : List Nat} {last : Nat} (hYields : Yields word state (passed ++ [last]) next)
    (hPassed : ∀ w ∈ passed, accepts sides w = false) (hLast : accepts sides last = true) :
    roll.run state = (face sides last, next) := by
  induction passed generalizing state with
  | nil =>
      obtain ⟨middle, hWord, hEnd⟩ := Yields.cons_iff.1 hYields
      obtain rfl := Yields.nil_iff.1 hEnd
      exact h.settles state last middle hWord hLast
  | cons w passed ih =>
      obtain ⟨middle, hWord, hRest⟩ := Yields.cons_iff.1 hYields
      obtain ⟨hFirst, hPassed⟩ := List.forall_mem_cons.1 hPassed
      rw [h.passes state w middle hWord hFirst]
      exact ih hRest hPassed

/-- Words among which one is accepted begin with some that are not and the first that is. -/
theorem exists_first_accepted {words : List Nat} (h : ∃ w ∈ words, accepts sides w = true) :
    ∃ passed last, passed ++ [last] <+: words ∧ (∀ w ∈ passed, accepts sides w = false) ∧
      accepts sides last = true := by
  obtain ⟨last, hFind⟩ := Option.isSome_iff_exists.1 (List.find?_isSome.2 h)
  obtain ⟨hLast, passed, rest, rfl, hPassed⟩ := List.find?_eq_some_iff_append.1 hFind
  refine ⟨passed, last, ⟨rest, by simp⟩, fun w hw => ?_, hLast⟩
  simpa using hPassed w hw

/-- Among words of which one is accepted the shaker goes on to the first that is. -/
theorem exists_shaker_run {words : List Nat} (hYields : Yields word state words next)
    (hAccepted : ∃ w ∈ words, accepts sides w = true) :
    ∃ passed last middle, passed ++ [last] <+: words ∧ (∀ w ∈ passed, accepts sides w = false) ∧
      accepts sides last = true ∧ Yields word state (passed ++ [last]) middle ∧
      (∀ roll, FollowsRule word sides roll → roll.run state = (face sides last, middle)) ∧
      ∀ attempts, passed.length < attempts →
        (shaker word attempts sides).run state = (face sides last, middle) := by
  obtain ⟨passed, last, ⟨rest, rfl⟩, hPassed, hLast⟩ := exists_first_accepted hAccepted
  obtain ⟨middle, hFirst, _⟩ := Yields.append_iff.1 hYields
  exact ⟨passed, last, middle, ⟨rest, rfl⟩, hPassed, hLast, hFirst,
    fun roll hRule => hRule.run hFirst hPassed hLast,
    fun attempts hAttempts => shaker_run hFirst hPassed hLast hAttempts⟩

def roundFrom (words : Array Nat) (shown : Nat) : List Nat :=
  (List.range' shown words.size).map fun i => words.getD (i % words.size) 0

/-- A tape yields its entries in order, and starts over at its end. -/
theorem yields_tape (words : Array Nat) (shown count : Nat) :
    Yields (Tape.next words) shown
      ((List.range' shown count).map fun i => words.getD (i % words.size) 0) (shown + count) := by
  induction count generalizing shown with
  | zero => exact Yields.nil shown
  | succ count ih =>
      rw [List.range'_succ, List.map_cons, Nat.add_comm count, ← Nat.add_assoc]
      exact Yields.cons rfl (ih (shown + 1))

theorem next_eq_of_yields_tape {words : Array Nat} {shown stop : Nat} {taken : List Nat}
    (h : Yields (Tape.next words) shown taken stop) : stop = shown + taken.length := by
  induction h with
  | nil => rfl
  | cons head _ ih =>
      obtain rfl : _ + 1 = _ := congrArg Prod.snd head
      rw [ih, List.length_cons, Nat.add_assoc, Nat.add_comm 1]

/-- One round of a tape comes by all its words: an entry lies ahead in the round that is under way,
or else in the one after it. -/
theorem mem_roundFrom {words : Array Nat} {w : Nat} (h : w ∈ words) (shown : Nat) :
    w ∈ roundFrom words shown := by
  obtain ⟨i, hi, rfl⟩ := Array.mem_iff_getElem.1 h
  have hShown := Nat.div_add_mod shown words.size
  have hMod : shown % words.size < words.size := Nat.mod_lt _ (Nat.zero_lt_of_lt hi)
  obtain ⟨rounds, hFrom, hTo⟩ : ∃ rounds, shown ≤ words.size * rounds + i ∧
      words.size * rounds + i < shown + words.size := by
    by_cases hAhead : shown % words.size ≤ i
    · exact ⟨shown / words.size, by omega, by omega⟩
    · exact ⟨shown / words.size + 1, by rw [Nat.mul_add_one]; omega, by rw [Nat.mul_add_one]; omega⟩
  refine List.mem_map.2 ⟨words.size * rounds + i, List.mem_range'_1.2 ⟨hFrom, hTo⟩, ?_⟩
  rw [Nat.mul_add_mod, Nat.mod_eq_of_lt hi]
  exact dif_pos hi

/-- One round of a tape is enough to come by an accepted word, if there is one. -/
theorem exists_ofTape_run {words : Array Nat} (shown : Nat)
    (hAccepted : ∃ w ∈ words, accepts sides w = true) :
    ∃ passed last, passed ++ [last] <+: roundFrom words shown ∧
      (∀ w ∈ passed, accepts sides w = false) ∧ accepts sides last = true ∧
      Yields (Tape.next words) shown (passed ++ [last]) (shown + passed.length + 1) ∧
      passed.length < words.size ∧
      (ofTape words sides).run shown = (face sides last, shown + passed.length + 1) := by
  obtain ⟨w, hMem, hw⟩ := hAccepted
  obtain ⟨passed, last, middle, hPrefix, hPassed, hLast, hFirst, -, hShows⟩ :=
    exists_shaker_run (yields_tape words shown words.size) ⟨w, mem_roundFrom hMem shown, hw⟩
  have hAttempts : passed.length < words.size := by
    have hLength := hPrefix.length_le
    rw [List.length_map, List.length_range', List.length_append] at hLength
    exact hLength
  obtain rfl : middle = shown + passed.length + 1 := by
    rw [next_eq_of_yields_tape hFirst, List.length_append, List.length_singleton, Nat.add_assoc]
  exact ⟨passed, last, hPrefix, hPassed, hLast, hFirst, hAttempts, hShows words.size hAttempts⟩

/-- A tape on which a word is accepted is taken by the rule. -/
theorem followsRule_ofTape {words : Array Nat} (hAccepted : ∃ w ∈ words, accepts sides w = true) :
    FollowsRule (Tape.next words) sides (ofTape words sides) where
  settles shown w next hWord hSettles := by
    obtain ⟨passed, _, _, _, _, _, hAttempts, _⟩ := exists_ofTape_run shown hAccepted
    exact shaker_run (Yields.cons hWord (Yields.nil next)) (List.forall_mem_nil _) hSettles
      (Nat.zero_lt_of_lt hAttempts)
  passes shown w next hWord hPasses := by
    obtain ⟨passed, last, _, hPassed, hLast, hFirst, hAttempts, hShows⟩ :=
      exists_ofTape_run shown hAccepted
    rcases passed with _ | ⟨v, passed⟩
    · obtain ⟨middle, hLastWord, _⟩ := Yields.cons_iff.1 hFirst
      obtain ⟨rfl, rfl⟩ := Prod.mk.inj (hWord.symm.trans hLastWord)
      rw [hLast] at hPasses
      cases hPasses
    · obtain ⟨middle, hFirstWord, hRest⟩ := Yields.cons_iff.1 hFirst
      obtain ⟨rfl, rfl⟩ := Prod.mk.inj (hWord.symm.trans hFirstWord)
      rw [hShows]
      exact (shaker_run hRest (List.forall_mem_cons.1 hPassed).2 hLast
        (Nat.lt_of_succ_lt hAttempts)).symm

/-- The faces are fair, for any number of sides that is a word. A word is accepted if its places are
below the number of sides shifted up by its leading zeros. Every word has a face from one to the
number of sides, and each of these faces has the same number of words, a power of two; at least
half of all words are accepted. Among words of which one is accepted any roller that takes words by
the rule goes on to the first that is, shows its face and takes no further word; so does the shaker,
provided that it has attempts for all of them, and on a tape one round is enough. -/
theorem shaker_is_fair (hPos : 1 ≤ sides) (hWord : sides < wordCount) :
    let zeros := (BitVec.ofNat 32 sides).clz.toNat
    (∀ w, accepts sides w = true ↔ w * sides % wordCount ≤ sides * 2 ^ zeros - 1) ∧
      (∀ w < wordCount, 1 ≤ face sides w ∧ face sides w ≤ sides) ∧
      (∀ shown, 1 ≤ shown → shown ≤ sides → (settling sides shown).card = 2 ^ zeros) ∧
      wordCount ≤ 2 * (accepted sides).card ∧
      (∀ (σ : Type) (word : StateM σ Nat) (state next : σ) (words : List Nat),
        Yields word state words next → (∃ w ∈ words, accepts sides w = true) →
          ∃ passed last middle, passed ++ [last] <+: words ∧
            (∀ w ∈ passed, accepts sides w = false) ∧ accepts sides last = true ∧
            Yields word state (passed ++ [last]) middle ∧
            (∀ roll, FollowsRule word sides roll → roll.run state = (face sides last, middle)) ∧
            ∀ attempts, passed.length < attempts →
              (shaker word attempts sides).run state = (face sides last, middle)) ∧
      ∀ (tape : Array Nat) (shown : Nat), (∃ w ∈ tape, accepts sides w = true) →
        FollowsRule (Tape.next tape) sides (ofTape tape sides) ∧
        ∃ passed last, passed ++ [last] <+: roundFrom tape shown ∧
          (∀ w ∈ passed, accepts sides w = false) ∧ accepts sides last = true ∧
          (ofTape tape sides).run shown = (face sides last, shown + passed.length + 1) := by
  intro zeros
  have hZeros : headroom sides = zeros := headroom_eq_clz hPos hWord
  refine ⟨?_, fun w hw => face_mem_range hPos hw, ?_, ?_, ?_, ?_⟩
  · intro w
    have hZone := zone_add_one hPos
    rw [accepts, decide_eq_true_eq, ← hZeros, ← hZone, Nat.add_sub_cancel]
  · intro shown hOne hSides
    obtain ⟨below, rfl⟩ := Nat.exists_eq_add_of_le' hOne
    rw [card_settling hPos hWord hSides, hZeros]
  · have hHalf := (two_pow_le_mul_headroom hPos hWord).1
    rw [card_accepted hPos hWord]
    unfold wordCount
    omega
  · intro σ word state next words hYields hAccepted
    exact exists_shaker_run hYields hAccepted
  · intro tape shown hAccepted
    obtain ⟨passed, last, hPrefix, hPassed, hLast, -, -, hShows⟩ :=
      exists_ofTape_run shown hAccepted
    exact ⟨followsRule_ofTape hAccepted, passed, last, hPrefix, hPassed, hLast, hShows⟩

/-- For six sides, `715827882` is passed over and `3000000000` settles on a five, as one word in
eight does. -/
theorem shaker_is_fair_of_six_sides :
    (1 ≤ 6 ∧ 6 < wordCount) ∧ (settling 6 5).card = 2 ^ 29 ∧
      (ofTape #[715827882, 3000000000] 6).run 0 = (5, 2) := by
  have hPos : 1 ≤ 6 := by decide
  have hWord : 6 < wordCount := by decide
  obtain ⟨_, _, hCard, _, _, hTape⟩ := shaker_is_fair hPos hWord
  refine ⟨⟨hPos, hWord⟩, hCard 5 (by decide) (by decide), ?_⟩
  obtain ⟨-, passed, last, hPrefix, hPassed, hLast, hRun⟩ :=
    hTape #[715827882, 3000000000] 0 ⟨3000000000, by simp, by decide⟩
  change passed ++ [last] <+: [715827882, 3000000000] at hPrefix
  rcases passed with _ | ⟨w, _ | ⟨v, rest⟩⟩
  · obtain rfl : last = 715827882 := by simpa using hPrefix
    exact absurd hLast (by decide)
  · obtain ⟨rfl, rfl⟩ : w = 715827882 ∧ last = 3000000000 := by simpa using hPrefix
    exact hRun
  · simp at hPrefix

end Words
end DiceTray
