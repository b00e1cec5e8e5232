import Mathlib.Data.Nat.Log
import ScriptLang.Proofs.Decimal.Sums

/-!
# The number nearest to an integer

A number has 53 places, so an integer becomes a whole number of units of its last place when it is made a
number (`Number.isInt_ofInt`). Up to `2 ^ 53` the unit is one and nothing is rounded. Integers that are
numbers stay as they are, and rounding never passes one of them (`Number.le_rounded`, `Number.rounded_le`):
an integer between two numbers is rounded to a number between them.

It may be rounded to one of the two, though. The integer right below a number is rounded to something smaller
just in two cases (`Number.rounded_pred_lt_iff`): it is not rounded at all, or it lies in the middle between
the number and its neighbour, and the neighbour has the even mantissa.
-/

namespace ScriptLang.Number

open Binary

variable {a b c d k n w : ℕ} {i j : ℤ} {x : Float}

/-! ### Rounded quotients -/

theorem le_roundDiv (hb : 0 < b) (h : k * b ≤ a) : k ≤ roundDiv a b :=
  ((Nat.le_div_iff_mul_le hb).2 h).trans (roundDiv_bounds a b).1

theorem roundDiv_le (hb : 0 < b) (h : a ≤ k * b) : roundDiv a b ≤ k := by
  obtain hlt | rfl := h.lt_or_eq
  · have hdiv : a / b < k := (Nat.div_lt_iff_lt_mul hb).2 hlt
    have := (roundDiv_bounds a b).2
    omega
  · unfold roundDiv
    rw [Nat.mul_div_cancel k hb, Nat.mul_mod_left]
    exact (if_pos hb).le

theorem roundDiv_mul (hb : 0 < b) : roundDiv (k * b) b = k :=
  le_antisymm (roundDiv_le hb le_rfl) (le_roundDiv hb le_rfl)

theorem roundDiv_mono (h : a ≤ c) : roundDiv a b ≤ roundDiv c b := by
  obtain hlt | heq := (Nat.div_le_div_right (c := b) h).lt_or_eq
  · have := (roundDiv_bounds a b).2
    have := (roundDiv_bounds c b).1
    omega
  · have hrest : a % b ≤ c % b := by
      have ha := Nat.div_add_mod a b
      have hc := Nat.div_add_mod c b
      rw [heq] at ha
      omega
    unfold roundDiv
    rw [heq]
    simp only [beq_iff_eq]
    split_ifs <;> omega

/-- Right above a multiple of `2 * w`. -/
theorem roundDiv_succ (hw : 0 < w) :
    roundDiv (2 * w * d + 1) (2 * w) = if w = 1 ∧ d % 2 = 1 then d + 1 else d := by
  have hdiv : (2 * w * d + 1) / (2 * w) = d := by
    rw [Nat.mul_add_div (by omega), Nat.div_eq_of_lt (by omega), Nat.add_zero]
  have hmod : (2 * w * d + 1) % (2 * w) = 1 := by
    rw [Nat.mul_add_mod, Nat.mod_eq_of_lt (by omega)]
  unfold roundDiv
  rw [hdiv, hmod]
  dsimp only
  by_cases hone : w = 1
  · subst hone
    rw [if_neg (by omega), if_neg (by omega)]
    simp only [beq_iff_eq, true_and]
    split <;> split <;> omega
  · rw [if_pos (by omega), if_neg (by omega)]

/-- Right below the next multiple. -/
theorem roundDiv_pred (hw : 0 < w) :
    roundDiv (2 * w * d + (2 * w - 1)) (2 * w) = if w = 1 ∧ d % 2 = 0 then d else d + 1 := by
  have hdiv : (2 * w * d + (2 * w - 1)) / (2 * w) = d := by
    rw [Nat.mul_add_div (by omega), Nat.div_eq_of_lt (by omega), Nat.add_zero]
  have hmod : (2 * w * d + (2 * w - 1)) % (2 * w) = 2 * w - 1 := by
    rw [Nat.mul_add_mod, Nat.mod_eq_of_lt (by omega)]
  unfold roundDiv
  rw [hdiv, hmod]
  dsimp only
  by_cases hone : w = 1
  · subst hone
    rw [if_neg (by omega), if_neg (by omega)]
    simp only [beq_iff_eq, true_and]
  · rw [if_neg (by omega), if_pos (by omega), if_neg (by omega)]

/-! ### Units of the last place -/

/-- The unit of the last of the 53 places of a natural number. -/
def unit (n : ℕ) : ℕ := 2 ^ (n.log2 - 52)

theorem unit_pos (n : ℕ) : 0 < unit n := Nat.two_pow_pos _

theorem unit_dvd_unit (h : c.log2 ≤ n.log2) : unit c ∣ unit n := pow_dvd_pow 2 (by omega)

theorem log2_mono (h : c ≤ n) : c.log2 ≤ n.log2 := by
  rw [Nat.log2_eq_log_two, Nat.log2_eq_log_two]
  exact Nat.log_mono_right h

theorem unit_of_log2_le (h : n.log2 ≤ 52) : unit n = 1 := by
  unfold unit
  rw [Nat.sub_eq_zero_of_le h, pow_zero]

/-- Natural numbers up to `2 ^ 53` are whole units. -/
theorem unit_dvd_of_le (h : n ≤ mantissaCount) : unit n ∣ n := by
  obtain hlt | rfl := h.lt_or_eq
  · have hlog : n.log2 ≤ 52 := Nat.lt_succ_iff.1 (log2_lt_of_lt hlt)
    rw [unit_of_log2_le hlog]
    exact one_dvd n
  · decide

/-- So is every number that is an integer. -/
theorem IsInt.unit_dvd (h : IsInt x i) : unit i.natAbs ∣ i.natAbs := by
  have hparts := holds_iff.1 (isInt_iff.1 h)
  cases hx : ofFloat x with
  | nan =>
    rw [hx] at hparts
    cases hparts
  | infinite s =>
    rw [hx] at hparts
    cases hparts
  | finite negative m q =>
    obtain ⟨hcanonical, -⟩ := toFloat_of_ofFloat hx
    rw [hx] at hparts
    have hsize : (m : ℚ) * 2 ^ q = i.natAbs := by
      have habs : |(i : ℚ)| = m * 2 ^ q := by
        rw [← Option.some.inj hparts]
        split
        · rw [abs_neg, abs_of_nonneg (by positivity)]
        · exact abs_of_nonneg (by positivity)
      rw [Nat.cast_natAbs, Int.cast_abs, habs]
    generalize i.natAbs = n at hsize
    by_cases hm : m = 0
    · obtain rfl : n = 0 := by
        rw [hm, Nat.cast_zero, zero_mul] at hsize
        exact_mod_cast hsize.symm
      exact dvd_zero _
    have hlog := log2_of_magnitude hm hsize
    have hmlog := log2_lt_of_lt hcanonical.mantissa
    by_cases hq : 0 ≤ q
    · obtain ⟨e, rfl⟩ := Int.eq_ofNat_of_zero_le hq
      have hn : n = m * 2 ^ e := by
        rw [zpow_natCast] at hsize
        exact_mod_cast hsize.symm
      have hunit : unit n ∣ 2 ^ e := pow_dvd_pow 2 (by omega)
      rw [hn] at hunit ⊢
      exact hunit.trans (dvd_mul_left _ _)
    · rw [unit_of_log2_le (by omega)]
      exact one_dvd n

/-! ### Rounding to units -/

/-- A natural number rounded to whole units. -/
def roundedSize (n : ℕ) : ℕ := roundDiv n (unit n) * unit n

theorem le_roundedSize (hc : unit c ∣ c) (h : c ≤ n) : c ≤ roundedSize n := by
  by_cases hdvd : unit n ∣ c
  · obtain ⟨d, rfl⟩ := hdvd
    rw [mul_comm] at h ⊢
    exact Nat.mul_le_mul_right _ (le_roundDiv (unit_pos n) h)
  -- the unit of `c` is smaller, so `c` has fewer places
  have hlog : 52 < n.log2 := by
    by_contra hlow
    rw [unit_of_log2_le (not_lt.1 hlow)] at hdvd
    exact hdvd (one_dvd c)
  have hpower : hiddenBit * unit n = 2 ^ n.log2 := by
    have hexp : 52 + (n.log2 - 52) = n.log2 := by omega
    unfold unit
    rw [← hexp, pow_add]
    norm_num [hiddenBit]
  have hbelow : c ≤ hiddenBit * unit n := by
    by_contra hlarge
    have hplaces : n.log2 ≤ c.log2 := by
      rw [Nat.le_log2 (by omega), ← hpower]
      omega
    exact hdvd ((unit_dvd_unit hplaces).trans hc)
  have hunits : hiddenBit * unit n ≤ n := by
    rw [hpower]
    exact Nat.log2_self_le (by rintro rfl; exact absurd hlog (by decide))
  exact hbelow.trans (Nat.mul_le_mul_right _ (le_roundDiv (unit_pos n) hunits))

theorem roundedSize_le (hc : unit c ∣ c) (h : n ≤ c) : roundedSize n ≤ c := by
  obtain ⟨d, hd⟩ := (unit_dvd_unit (log2_mono h)).trans hc
  rw [mul_comm] at hd
  have hle : n ≤ d * unit n := by omega
  rw [hd]
  exact Nat.mul_le_mul_right _ (roundDiv_le (unit_pos n) hle)

theorem roundedSize_of_dvd (h : unit n ∣ n) : roundedSize n = n :=
  le_antisymm (roundedSize_le h le_rfl) (le_roundedSize h le_rfl)

theorem roundedSize_mono (h : c ≤ n) : roundedSize c ≤ roundedSize n := by
  obtain hlt | heq := (log2_mono h).lt_or_eq
  · -- there is a power of two between them
    have hn : n ≠ 0 := by
      rintro rfl
      exact absurd hlt (Nat.not_lt_zero _)
    have hpower : unit (2 ^ n.log2) ∣ 2 ^ n.log2 := by
      unfold unit
      rw [Nat.log2_two_pow]
      exact pow_dvd_pow 2 (Nat.sub_le _ _)
    have hbelow : c ≤ 2 ^ n.log2 := by
      have hle : 2 ^ (c.log2 + 1) ≤ 2 ^ n.log2 := Nat.pow_le_pow_right (by decide) hlt
      exact (Nat.lt_log2_self.trans_le hle).le
    exact (roundedSize_le hpower hbelow).trans (le_roundedSize hpower (Nat.log2_self_le hn))
  · have hunit : unit c = unit n := by
      unfold unit
      rw [heq]
    unfold roundedSize
    rw [hunit]
    exact Nat.mul_le_mul_right _ (roundDiv_mono h)

/-- An integer rounded to 53 places. -/
def rounded (i : ℤ) : ℤ := i.sign * roundedSize i.natAbs

theorem rounded_natCast (n : ℕ) : rounded n = roundedSize n := by
  unfold rounded
  rw [Int.natAbs_natCast]
  obtain rfl | hn := Nat.eq_zero_or_pos n
  · rfl
  · rw [Int.sign_eq_one_of_pos (by omega), one_mul]

theorem rounded_neg (i : ℤ) : rounded (-i) = -rounded i := by
  unfold rounded
  rw [Int.sign_neg, Int.natAbs_neg, Int.neg_mul]

/-- Rounding does not pass a number from above. -/
theorem le_rounded (hi : unit i.natAbs ∣ i.natAbs) (h : i ≤ j) : i ≤ rounded j := by
  obtain ⟨n, rfl | rfl⟩ := j.eq_nat_or_neg
  · rw [rounded_natCast]
    by_cases hpos : 0 < i
    · have := le_roundedSize (n := n) hi (by omega)
      omega
    · omega
  · rw [rounded_neg, rounded_natCast]
    have := roundedSize_le (n := n) hi (by omega)
    omega

/-- Nor does it from below. -/
theorem rounded_le (hj : unit j.natAbs ∣ j.natAbs) (h : i ≤ j) : rounded i ≤ j := by
  have hneg := le_rounded (i := -j) (j := -i) (by rwa [Int.natAbs_neg]) (by omega)
  rw [rounded_neg] at hneg
  omega

theorem rounded_of_dvd (h : unit i.natAbs ∣ i.natAbs) : rounded i = i :=
  le_antisymm (rounded_le h le_rfl) (le_rounded h le_rfl)

/-- Up to `2 ^ 53` nothing is rounded. -/
theorem rounded_of_le (h : i.natAbs ≤ mantissaCount) : rounded i = i := rounded_of_dvd (unit_dvd_of_le h)

theorem rounded_mono (h : i ≤ j) : rounded i ≤ rounded j := by
  have hzero (n : ℕ) : (0 : ℤ) ≤ roundedSize n := Int.natCast_nonneg _
  obtain ⟨m, rfl | rfl⟩ := i.eq_nat_or_neg <;> obtain ⟨n, rfl | rfl⟩ := j.eq_nat_or_neg
  · rw [rounded_natCast, rounded_natCast]
    exact_mod_cast roundedSize_mono (by omega)
  · obtain ⟨rfl, rfl⟩ : m = 0 ∧ n = 0 := by omega
    rfl
  · rw [rounded_neg, rounded_natCast, rounded_natCast]
    have := hzero m
    have := hzero n
    omega
  · rw [rounded_neg, rounded_neg, rounded_natCast, rounded_natCast]
    have := roundedSize_mono (c := n) (n := m) (by omega)
    omega

/-! ### Right below a number -/

/-- From `2 ^ 53` on the unit is even. -/
theorem unit_even (h : mantissaCount ≤ n) : ∃ e, unit n = 2 * 2 ^ e := by
  have hlog : 53 ≤ n.log2 := by
    rw [Nat.le_log2 (by unfold mantissaCount at h; omega)]
    exact h
  refine ⟨n.log2 - 53, ?_⟩
  have hexp : n.log2 - 52 = n.log2 - 53 + 1 := by omega
  unfold unit
  rw [hexp, pow_succ, mul_comm]

theorem unit_succ (hn : unit n ∣ n) (h : mantissaCount ≤ n) : unit (n + 1) = unit n := by
  obtain ⟨e, he⟩ := unit_even h
  obtain ⟨d, hd⟩ := hn
  have hne : n ≠ 0 := by
    unfold mantissaCount at h
    omega
  have hlog : (n + 1).log2 = n.log2 := by
    have htop : n < 2 ^ n.log2 * 2 := by
      rw [← pow_succ]
      exact Nat.lt_log2_self
    have heven : n = 2 * (2 ^ e * d) := by rw [← mul_assoc, ← he, ← hd]
    rw [Nat.log2_eq_iff (by omega), pow_succ]
    constructor
    · exact (Nat.log2_self_le hne).trans (Nat.le_succ n)
    · omega
  unfold unit
  rw [hlog]

/-- Whether a multiple of a unit above one is twice an odd number: the unit is two then. -/
theorem mod_four_iff (e d : ℕ) : 2 * 2 ^ e * d % 4 = 2 ↔ 2 ^ e = 1 ∧ d % 2 = 1 := by
  cases e with
  | zero =>
    rw [pow_zero]
    omega
  | succ e =>
    have hfour : 2 * 2 ^ (e + 1) * d = 4 * (2 ^ e * d) := by ring
    have hpos := Nat.two_pow_pos e
    rw [hfour, pow_succ]
    omega

/-- The natural number right above a number is rounded up. -/
theorem lt_roundedSize_succ_iff (hn : unit n ∣ n) (h : mantissaCount ≤ n) :
    n < roundedSize (n + 1) ↔ n % 4 = 2 := by
  obtain ⟨e, he⟩ := unit_even h
  have hunit := unit_succ hn h
  obtain ⟨d, hd⟩ := hn
  rw [he] at hd
  have hpos := Nat.two_pow_pos e
  unfold roundedSize
  rw [hunit, he, hd, mod_four_iff, roundDiv_succ hpos]
  by_cases hodd : 2 ^ e = 1 ∧ d % 2 = 1
  · rw [if_pos hodd, hodd.1]
    exact iff_of_true (by omega) ⟨rfl, hodd.2⟩
  · rw [if_neg hodd, mul_comm]
    exact iff_of_false (lt_irrefl _) hodd

/-- The natural number right below a number is rounded down. -/
theorem roundedSize_pred_lt_iff (hn : unit (n + 1) ∣ n + 1) (h : mantissaCount ≤ n) :
    roundedSize n < n + 1 ↔ (n + 1) % 4 = 2 := by
  obtain ⟨e, he⟩ := unit_even h
  obtain ⟨d, hd⟩ := (unit_dvd_unit (log2_mono (Nat.le_succ n))).trans hn
  rw [he] at hd
  have hpos := Nat.two_pow_pos e
  obtain ⟨d, rfl⟩ : ∃ d', d = d' + 1 := Nat.exists_eq_succ_of_ne_zero (by rintro rfl; omega)
  have hbelow : n = 2 * 2 ^ e * d + (2 * 2 ^ e - 1) := by
    rw [Nat.mul_succ] at hd
    omega
  have hsize : roundedSize n = (if 2 ^ e = 1 ∧ d % 2 = 0 then d else d + 1) * (2 * 2 ^ e) := by
    unfold roundedSize
    rw [he, hbelow, roundDiv_pred hpos]
  rw [hsize, hd, mod_four_iff]
  by_cases heven : 2 ^ e = 1 ∧ d % 2 = 0
  · rw [if_pos heven, heven.1]
    exact iff_of_true (by omega) ⟨rfl, by omega⟩
  · rw [if_neg heven, mul_comm]
    exact iff_of_false (lt_irrefl _) fun hodd => heven ⟨hodd.1, by omega⟩

/-- The integer right below a number is rounded to something smaller if it is not rounded at all, or if the
number is twice an odd one: then the neighbour below has the even mantissa. -/
theorem rounded_pred_lt_iff (hj : unit j.natAbs ∣ j.natAbs) :
    rounded (j - 1) < j ↔ -(mantissaCount : ℤ) < j ∧ j ≤ mantissaCount ∨ j % 4 = 2 := by
  obtain hlow | ⟨hlow, hhigh⟩ | hhigh : j ≤ -(mantissaCount : ℤ) ∨
      (-(mantissaCount : ℤ) < j ∧ j ≤ mantissaCount) ∨ (mantissaCount : ℤ) < j := by omega
  · obtain ⟨n, rfl⟩ : ∃ n : ℕ, j = -n := ⟨j.natAbs, by omega⟩
    rw [Int.natAbs_neg, Int.natAbs_natCast] at hj
    have hneg : -(n : ℤ) - 1 = -((n + 1 : ℕ) : ℤ) := by
      push_cast
      ring
    have hiff := lt_roundedSize_succ_iff hj (by omega)
    rw [hneg, rounded_neg, rounded_natCast]
    omega
  · rw [rounded_of_le (by omega)]
    exact iff_of_true (by omega) (.inl ⟨hlow, hhigh⟩)
  · obtain ⟨n, rfl⟩ : ∃ n : ℕ, j = (n + 1 : ℕ) := ⟨j.natAbs - 1, by omega⟩
    rw [Int.natAbs_natCast] at hj
    have hpred : ((n + 1 : ℕ) : ℤ) - 1 = n := by
      push_cast
      ring
    have hiff := roundedSize_pred_lt_iff hj (by omega)
    rw [hpred, rounded_natCast]
    omega

/-! ### Integers as numbers -/

/-- The exponent that fits a natural number. -/
theorem fittingExponent_natural (hn : n ≠ 0) : fittingExponent n 1 = (n.log2 : ℤ) - 52 := by
  have htwo : (1 : ℚ) < 2 := by norm_num
  have hcast : (n : ℚ) / (1 : ℕ) = n := by rw [Nat.cast_one, div_one]
  obtain ⟨hmin, hup, hdown⟩ := fittingExponent_spec hn one_ne_zero hcast
  generalize fittingExponent n 1 = e at *
  have hlow : (2 : ℚ) ^ (n.log2 : ℤ) ≤ n := by
    rw [zpow_natCast]
    exact_mod_cast Nat.log2_self_le hn
  have hhigh : (n : ℚ) < 2 ^ ((n.log2 : ℤ) + 1) := by
    have hlt : (n : ℚ) < 2 ^ (n.log2 + 1) := by exact_mod_cast Nat.lt_log2_self
    exact_mod_cast hlt
  have hle := (zpow_lt_zpow_iff_right₀ htwo).1 (hlow.trans_lt hup)
  have hleast : minExponent < e := by
    unfold minExponent
    omega
  have hge := (zpow_lt_zpow_iff_right₀ htwo).1 ((hdown hleast).trans_lt hhigh)
  omega

/-- What a natural number in units of that exponent is rounded to. -/
theorem roundDiv_fitting (hn : n ≠ 0) :
    (roundDiv (n * Nat.pow 2 (-fittingExponent n 1).toNat) (1 * Nat.pow 2 (fittingExponent n 1).toNat) : ℚ) *
      2 ^ fittingExponent n 1 = roundedSize n := by
  rw [fittingExponent_natural hn]
  by_cases hlog : 52 ≤ n.log2
  · obtain ⟨e, he⟩ := Nat.exists_eq_add_of_le hlog
    have hexp : (n.log2 : ℤ) - 52 = e := by omega
    have hunit : unit n = 2 ^ e := by
      unfold unit
      rw [he, Nat.add_sub_cancel_left]
    have hdown : (-(e : ℤ)).toNat = 0 := by omega
    rw [hexp, hdown, Int.toNat_natCast, zpow_natCast, roundedSize, hunit]
    simp only [Nat.pow_eq, pow_zero, mul_one, one_mul]
    push_cast
    rfl
  · obtain ⟨e, he⟩ := Nat.exists_eq_add_of_le (Nat.le_of_not_le hlog)
    have hexp : (n.log2 : ℤ) - 52 = -e := by omega
    have hup : (-(e : ℤ)).toNat = 0 := by omega
    have hunit : unit n = 1 := unit_of_log2_le (by omega)
    have hwhole : roundedSize n = n := roundedSize_of_dvd (hunit ▸ one_dvd n)
    have hround : roundDiv (n * 2 ^ e) 1 = n * 2 ^ e := by
      have hone := roundDiv_mul (k := n * 2 ^ e) one_pos
      rwa [mul_one] at hone
    rw [hexp, hup, neg_neg, Int.toNat_natCast, zpow_neg, zpow_natCast, hwhole]
    simp only [Nat.pow_eq, pow_zero, mul_one, hround]
    push_cast
    field_simp

/-- The parts of the number that is nearest to a natural number. -/
theorem exists_nearest_natural (hn : n ≠ 0) (h : n ≤ 2 ^ 64) : ∃ m q, IsCanonical m q ∧
    (m : ℚ) * 2 ^ q = roundedSize n ∧ ∀ negative, nearest? negative n 1 = some (toFloat negative m q) := by
  obtain ⟨m, q, hnearest⟩ := exists_isNearest hn one_ne_zero
  have hvalue := hnearest.value.trans (roundDiv_fitting hn)
  have hbound : q ≤ maxExponent := by
    by_contra hgreat
    have htwo : (1 : ℚ) < 2 := by norm_num
    have hfull : hiddenBit ≤ m := by
      by_contra hlow
      have := hnearest.subnormal (by omega)
      unfold minExponent at this
      unfold maxExponent at hgreat
      omega
    have hlarge : (2 : ℚ) ^ q ≤ 2 ^ (64 : ℤ) := by
      have hone : (1 : ℚ) ≤ m := by exact_mod_cast (show 1 ≤ hiddenBit by decide).trans hfull
      have hsize : (roundedSize n : ℚ) ≤ 2 ^ (64 : ℤ) := by
        exact_mod_cast roundedSize_le (by decide +kernel : unit (2 ^ 64) ∣ 2 ^ 64) h
      have hpos : (0 : ℚ) < 2 ^ q := by positivity
      nlinarith
    have := (zpow_le_zpow_iff_right₀ htwo).1 hlarge
    unfold maxExponent at hgreat
    omega
  refine ⟨m, q, hnearest.isCanonical hbound, hvalue, ?_⟩
  intro negative
  rw [hnearest.found, if_neg (by omega)]

/-- The number that an integer becomes. -/
theorem isInt_ofInt (h : i.natAbs ≤ 2 ^ 64) : IsInt (ofInt i) (rounded i) := by
  by_cases hi : i = 0
  · subst hi
    exact ⟨by decide +kernel, by decide +kernel⟩
  obtain ⟨m, q, hcanonical, hvalue, hfound⟩ := exists_nearest_natural (Int.natAbs_ne_zero.2 hi) h
  have hfloat : ofInt i = toFloat (decide (i < 0)) m q := by
    unfold ofInt
    rw [hfound]
    rfl
  rw [isInt_iff, holds_iff, hfloat, ofFloat_toFloat _ hcanonical, partsValue?, hvalue]
  congr 1
  unfold rounded
  by_cases hneg : i < 0
  · rw [if_pos (decide_eq_true hneg), Int.sign_eq_neg_one_of_neg hneg]
    push_cast
    ring
  · rw [if_neg (by simpa using hneg), Int.sign_eq_one_of_pos (by omega)]
    push_cast
    ring

end ScriptLang.Number
