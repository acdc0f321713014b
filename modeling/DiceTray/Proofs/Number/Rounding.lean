import DiceTray.Number.Rounding
import Mathlib.Data.Nat.Dist

/-! Rounding told by what it comes to. A number fits if it has few enough significant digits, and no
number that fits lies strictly between the two multiples of the last kept place around a number.
Main statement: what a number is rounded to fits, none that fits is nearer, and of two equally near
the one with a zero for its last digit is taken. That rounding is monotone follows from this
alone. -/
namespace DiceTray

variable {bits m n : Nat}

/-- The number has at most `bits` significant binary digits; all places behind them are zero. -/
def FitsIn (bits n : Nat) : Prop := ∃ digits places, digits < 2 ^ bits ∧ n = digits * 2 ^ places

/-- A number rounded to its leading `bits` binary digits. -/
structure IsRounded (bits n rounded : Nat) : Prop where
  fits : FitsIn bits rounded
  nearest : ∀ m, FitsIn bits m → n.dist rounded ≤ n.dist m
  /-- Where another is as near, the last digit is zero, so that one digit less is enough. -/
  even : ∀ m, FitsIn bits m → m ≠ rounded → n.dist m = n.dist rounded → FitsIn (bits - 1) rounded

theorem FitsIn.mul_two_pow (h : FitsIn bits n) (places : Nat) : FitsIn bits (n * 2 ^ places) := by
  obtain ⟨digits, zeros, hDigits, rfl⟩ := h
  exact ⟨digits, zeros + places, hDigits, by rw [Nat.pow_add, Nat.mul_assoc]⟩

/-- The next power of two fits as well, with one digit and places behind it. -/
theorem fitsIn_of_le_two_pow (hBits : 0 < bits) (h : n ≤ 2 ^ bits) : FitsIn bits n := by
  rcases Nat.lt_or_eq_of_le h with hLess | rfl
  · exact ⟨n, 0, hLess, (Nat.mul_one n).symm⟩
  · exact ⟨1, bits, Nat.one_lt_two_pow hBits.ne', (Nat.one_mul _).symm⟩

/-- The places that rounding clears. -/
def clearedPlaces (bits n : Nat) : Nat := n.log2 + 1 - bits

/-- Rounding divides by the cleared places, goes to the nearest whole number and multiplies back. -/
theorem roundToBits_eq (bits n : Nat) :
    roundToBits bits n = divToNearest n (2 ^ clearedPlaces bits n) * 2 ^ clearedPlaces bits n := by
  rw [roundToBits, Nat.one_shiftLeft, clearedPlaces]

/-- What is left in front of the cleared places has few enough digits. -/
theorem div_lt_two_pow (bits n : Nat) : n / 2 ^ clearedPlaces bits n < 2 ^ bits := by
  refine Nat.div_lt_of_lt_mul ?_
  calc n
    _ < 2 ^ (n.log2 + 1) := Nat.lt_log2_self
    _ ≤ 2 ^ (clearedPlaces bits n + bits) :=
      Nat.pow_le_pow_right Nat.two_pos (by unfold clearedPlaces; omega)
    _ = 2 ^ clearedPlaces bits n * 2 ^ bits := Nat.pow_add _ _ _

/-- A number that fits is a multiple of the last kept place, or else too short to come above the
multiple below. -/
theorem FitsIn.le_or_le (hBits : 0 < bits) (h : FitsIn bits m) (n : Nat) :
    m ≤ n / 2 ^ clearedPlaces bits n * 2 ^ clearedPlaces bits n ∨
      (n / 2 ^ clearedPlaces bits n + 1) * 2 ^ clearedPlaces bits n ≤ m := by
  obtain ⟨digits, places, hDigits, rfl⟩ := h
  rcases Nat.lt_or_ge places (clearedPlaces bits n) with hShort | hLong
  · have hLog : n.log2 = bits - 1 + clearedPlaces bits n := by
      unfold clearedPlaces at hShort ⊢
      omega
    have hLead : 2 ^ (bits - 1) ≤ n / 2 ^ clearedPlaces bits n := by
      rw [Nat.le_div_iff_mul_le (Nat.two_pow_pos _), ← Nat.pow_add, ← hLog]
      refine Nat.log2_self_le ?_
      rintro rfl
      rw [Nat.log2_zero] at hLog
      omega
    left
    calc digits * 2 ^ places
      _ ≤ 2 ^ bits * 2 ^ places := Nat.mul_le_mul_right _ hDigits.le
      _ = 2 ^ (bits + places) := (Nat.pow_add _ _ _).symm
      _ ≤ 2 ^ (bits - 1 + clearedPlaces bits n) := Nat.pow_le_pow_right Nat.two_pos (by omega)
      _ = 2 ^ (bits - 1) * 2 ^ clearedPlaces bits n := Nat.pow_add _ _ _
      _ ≤ n / 2 ^ clearedPlaces bits n * 2 ^ clearedPlaces bits n := Nat.mul_le_mul_right _ hLead
  · obtain ⟨more, rfl⟩ := Nat.exists_eq_add_of_le hLong
    rw [Nat.pow_add, Nat.mul_left_comm, Nat.mul_comm]
    exact (Nat.lt_or_ge _ _).symm.imp (Nat.mul_le_mul_right _) (Nat.mul_le_mul_right _)

/-- A quotient is rounded down or up to its nearer neighbour, and from the middle to the even
one. -/
theorem divToNearest_spec (n d : Nat) :
    (divToNearest n d = n / d ∧ 2 * (n % d) ≤ d ∧ (2 * (n % d) = d → n / d % 2 = 0)) ∨
      (divToNearest n d = n / d + 1 ∧ d ≤ 2 * (n % d) ∧ (2 * (n % d) = d → n / d % 2 = 1)) := by
  unfold divToNearest
  split_ifs <;> omega

/-- An even number of so many places is half of it with one place more. -/
theorem fitsIn_of_even {digits : Nat} (hBits : 1 < bits) (hEven : digits % 2 = 0)
    (h : digits ≤ 2 ^ bits) (places : Nat) : FitsIn (bits - 1) (digits * 2 ^ places) := by
  have hHalf : digits / 2 ≤ 2 ^ (bits - 1) := by
    have hPow := Nat.two_pow_pred_mul_two (Nat.lt_of_succ_lt hBits)
    omega
  have hDigits : digits * 2 ^ places = digits / 2 * 2 ^ (places + 1) := by
    rw [Nat.pow_succ', ← Nat.mul_assoc, Nat.div_mul_cancel (Nat.dvd_of_mod_eq_zero hEven)]
  rw [hDigits]
  exact (fitsIn_of_le_two_pow (Nat.sub_pos_of_lt hBits) hHalf).mul_two_pow _

/-- The two multiples of the last kept place around the number are next to each other among the
numbers that fit, and the nearer of them is taken. -/
theorem isRounded_roundToBits (hBits : 1 < bits) (n : Nat) :
    IsRounded bits n (roundToBits bits n) := by
  have hGap : ∀ m, FitsIn bits m → _ := fun m h => h.le_or_le (Nat.lt_of_succ_lt hBits) n
  have hSpec := divToNearest_spec n (2 ^ clearedPlaces bits n)
  have hDivision := Nat.div_add_mod' n (2 ^ clearedPlaces bits n)
  have hRemainder := Nat.mod_lt n (Nat.two_pow_pos (clearedPlaces bits n))
  have hDigits : divToNearest n (2 ^ clearedPlaces bits n) ≤ 2 ^ bits := by
    have hQuotient := div_lt_two_pow bits n
    omega
  simp only [Nat.succ_mul] at hGap
  rw [roundToBits_eq]
  refine ⟨(fitsIn_of_le_two_pow (Nat.lt_of_succ_lt hBits) hDigits).mul_two_pow _, ?_, ?_⟩
  · intro m hm
    have hOutside := hGap m hm
    unfold Nat.dist
    rcases hSpec with ⟨hDown, hNear, -⟩ | ⟨hUp, hNear, -⟩
    · rw [hDown]
      omega
    · rw [hUp, Nat.succ_mul]
      omega
  · intro m hm hOther hTie
    have hOutside := hGap m hm
    refine fitsIn_of_even hBits ?_ hDigits _
    unfold Nat.dist at hTie
    rcases hSpec with ⟨hDown, hNear, hEven⟩ | ⟨hUp, hNear, hOdd⟩
    · rw [hDown] at hOther hTie ⊢
      exact hEven (by omega)
    · rw [hUp, Nat.succ_mul] at hOther hTie
      have hQuotient := hOdd (by omega)
      omega

/-- Nothing is nearer to a number that fits than the number itself. -/
theorem IsRounded.eq_of_fitsIn {rounded : Nat} (h : IsRounded bits n rounded) (hn : FitsIn bits n) :
    rounded = n := by
  have hNearest := h.nearest n hn
  unfold Nat.dist at hNearest
  omega

/-- Two numbers that round to numbers in the other order are both in the middle, and so equal. -/
theorem roundToBits_mono (hBits : 1 < bits) (h : m ≤ n) :
    roundToBits bits m ≤ roundToBits bits n := by
  have hm := isRounded_roundToBits hBits m
  have hn := isRounded_roundToBits hBits n
  rcases Nat.lt_or_eq_of_le h with hLess | rfl
  · have hFirst := hm.nearest _ hn.fits
    have hSecond := hn.nearest _ hm.fits
    unfold Nat.dist at hFirst hSecond
    omega
  · exact Nat.le_refl _

theorem roundToBits_of_fitsIn (hBits : 1 < bits) (h : FitsIn bits n) : roundToBits bits n = n :=
  (isRounded_roundToBits hBits n).eq_of_fitsIn h

/-- Doubling only adds a place. -/
theorem roundToBits_two_mul (hBits : 1 < bits) (n : Nat) :
    roundToBits bits (2 * n) = 2 * roundToBits bits n := by
  rcases Nat.lt_or_ge n.log2 bits with hShort | hLong
  · have hFits : FitsIn bits n := by
      refine fitsIn_of_le_two_pow (Nat.lt_of_succ_lt hBits) ?_
      exact Nat.lt_log2_self.le.trans (Nat.pow_le_pow_right Nat.two_pos hShort)
    have hTwice : FitsIn bits (2 * n) := by
      rw [Nat.mul_comm]
      exact hFits.mul_two_pow 1
    rw [roundToBits_of_fitsIn hBits hTwice, roundToBits_of_log2_lt hShort]
  · have hPlaces : 2 ^ clearedPlaces bits (2 * n) = 2 * 2 ^ clearedPlaces bits n := by
      have hNonzero : n ≠ 0 := by
        rintro rfl
        rw [Nat.log2_zero] at hLong
        omega
      have hLog : (2 * n).log2 = n.log2 + 1 := Nat.log2_two_mul hNonzero
      rw [← Nat.pow_succ', clearedPlaces, clearedPlaces, hLog]
      congr 1
      omega
    have hQuotient : ∀ d, divToNearest (2 * n) (2 * d) = divToNearest n d := by
      intro d
      rw [divToNearest, divToNearest, Nat.mul_mod_mul_left, Nat.mul_div_mul_left _ _ Nat.two_pos]
      exact if_congr (by omega) rfl rfl
    rw [roundToBits_eq, roundToBits_eq, hPlaces, hQuotient, Nat.mul_left_comm]

end DiceTray
