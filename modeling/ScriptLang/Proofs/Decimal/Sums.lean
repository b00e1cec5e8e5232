import ScriptLang.Proofs.Decimal.Values

/-!
# Sums of numbers

A sum is rounded to 53 bits: its exact value is shifted to units of its last place, and the units that are
left are rounded (`round_spec`). Integers up to `2 ^ 53` are whole units, so that a sum of integers is exact
as long as it does not go beyond (`IsInt.add`). One that does is rounded, but never back below `2 ^ 53`
(`IsInt.add_beyond`), as that is a whole number of units too.
-/

namespace ScriptLang.Number

open Float.Model (UnpackedFloat Format totalExponent)
open Float.Model.UnpackedFloat Binary

/-! ### Shifting a mantissa -/

theorem mantissa_shiftRight (em : ExtendedMantissa) (k : ℕ) : (em >>> k).mantissa = em.mantissa / 2 ^ k := by
  induction k with
  | zero => exact (Nat.div_one _).symm
  | succ k ih =>
    have hstep : (em >>> (k + 1)).mantissa = (em >>> k).mantissa / 2 := rfl
    rw [hstep, ih, Nat.div_div_eq_div_mul, pow_succ]

/-- A shift that drops only zeros is exact. -/
theorem shiftRight_of_dvd {m k : ℕ} (h : 2 ^ k ∣ m) :
    (⟨m, false, false⟩ : ExtendedMantissa) >>> k = ⟨m / 2 ^ k, false, false⟩ := by
  induction k with
  | zero =>
    rw [pow_zero, Nat.div_one]
    rfl
  | succ k ih =>
    have hstep : (⟨m, false, false⟩ : ExtendedMantissa) >>> (k + 1) =
        ((⟨m, false, false⟩ : ExtendedMantissa) >>> k).shiftRightOne := rfl
    obtain ⟨c, rfl⟩ := h
    have hhalf : 2 ^ (k + 1) * c / 2 ^ k = 2 * c := by
      rw [pow_succ, mul_assoc, Nat.mul_div_cancel_left _ (Nat.two_pow_pos k)]
    rw [hstep, ih ⟨2 * c, by ring⟩, hhalf, Nat.mul_div_cancel_left _ (Nat.two_pow_pos _)]
    simp [ExtendedMantissa.shiftRightOne]

/-- Rounding takes the mantissa or the next one. -/
theorem roundedMantissa_bounds (em : ExtendedMantissa) :
    em.mantissa ≤ em.roundedMantissa ∧ em.roundedMantissa ≤ em.mantissa + 1 := by
  obtain ⟨m, roundBit, stickyBit⟩ := em
  have hparity : m % 2 < 2 := Nat.mod_lt m (by decide)
  cases roundBit <;> cases stickyBit <;>
    simp only [ExtendedMantissa.roundedMantissa, ExtendedMantissa.accuracy,
      Accuracy.roundToNearestEven] <;> omega

/-! ### Rounding a mantissa with an exponent -/

theorem targetExponent_eq (m : ℕ) (e : ℤ) :
    Format.binary64.targetExponent (totalExponent m e) = max (m.log2 + e - 52) minExponent := by
  unfold Format.targetExponent totalExponent
  change max ((m.log2 : ℤ) + 1 + e - (53 : ℕ)) minExponent = _
  congr 1
  push_cast
  ring

/-- A mantissa has 53 bits at most. -/
theorem log2_lt_of_lt {m : ℕ} (h : m < mantissaCount) : m.log2 < 53 := by
  by_cases hzero : m = 0
  · rw [hzero]
    decide
  · exact (Nat.log2_lt hzero).2 h

/-- A mantissa that fits stays as it is. -/
theorem shiftToTargetExponent_of_lt {m : ℕ} {q : ℤ} (hm : m < mantissaCount) (hq : minExponent ≤ q) :
    shiftToTargetExponent Format.binary64 m q .exact = (⟨m, false, false⟩, q) := by
  have hlog := log2_lt_of_lt hm
  have hshift : (max ((m.log2 : ℤ) + q - 52) minExponent - q).toNat = 0 := by omega
  unfold shiftToTargetExponent shiftToExponent
  dsimp only
  rw [targetExponent_eq, hshift, Nat.cast_zero, add_zero]
  rfl

/-- A mantissa that has become too great by rounding is halved. -/
theorem shiftToTargetExponent_mantissaCount {q : ℤ} (hq : minExponent ≤ q) :
    shiftToTargetExponent Format.binary64 mantissaCount q .exact =
      (⟨hiddenBit, false, false⟩, q + 1) := by
  have hlog : mantissaCount.log2 = 53 := by decide
  have hshift : (max ((mantissaCount.log2 : ℤ) + q - 52) minExponent - q).toNat = 1 := by
    rw [hlog]
    omega
  unfold shiftToTargetExponent shiftToExponent
  dsimp only
  rw [targetExponent_eq, hshift]
  rfl

/-- Rounding to `r` units of `2 ^ t`. -/
theorem roundWithAccuracy_eq {s : Sign} {m k r : ℕ} {e t : ℤ}
    (ht : max (m.log2 + e - 52) minExponent = t) (hk : e + k = t)
    (hr : ((⟨m, false, false⟩ : ExtendedMantissa) >>> k).roundedMantissa = r) (hpos : 0 < r)
    (hle : r ≤ mantissaCount) :
    ∃ m' q hp, roundWithAccuracy Format.binary64 s m e .exact = .finite s m' q hp ∧
      (r < mantissaCount ∧ m' = r ∧ q = t ∨ r = mantissaCount ∧ m' = hiddenBit ∧ q = t + 1) := by
  have hleast : minExponent ≤ t := ht ▸ le_max_right _ _
  have hfirst : shiftToTargetExponent Format.binary64 m e .exact =
      ((⟨m, false, false⟩ : ExtendedMantissa) >>> k, t) := by
    have hshift : (t - e).toNat = k := by omega
    unfold shiftToTargetExponent shiftToExponent
    dsimp only
    rw [targetExponent_eq, ht, hshift, hk]
    rfl
  unfold roundWithAccuracy
  rw [hfirst]
  dsimp only
  rw [hr]
  by_cases hlt : r < mantissaCount
  · rw [shiftToTargetExponent_of_lt hlt hleast]
    exact ⟨r, t, hpos, dif_neg hpos.ne', .inl ⟨hlt, rfl, rfl⟩⟩
  · obtain rfl : r = mantissaCount := le_antisymm hle (not_lt.1 hlt)
    rw [shiftToTargetExponent_mantissaCount hleast]
    exact ⟨hiddenBit, t + 1, by decide, dif_neg (show ¬hiddenBit = 0 by decide), .inr ⟨rfl, rfl, rfl⟩⟩

/-- What comes out when `m · 2 ^ e` is rounded to units of `2 ^ t`: a number that is canonical up to the
greatest exponent, that does not fall below units which did not lie above, and that is exact for units. -/
structure RoundsTo (v : ℚ) (t : ℤ) (m : ℕ) (q : ℤ) : Prop where
  mantissa : m < mantissaCount
  least : minExponent ≤ q
  subnormal : m < hiddenBit → q = minExponent
  near : q ≤ t + 1
  above : ∀ c : ℕ, (c : ℚ) * 2 ^ t ≤ v → (c : ℚ) * 2 ^ t ≤ m * 2 ^ q
  exact : ∀ c : ℕ, v = c * 2 ^ t → (m : ℚ) * 2 ^ q = v

theorem log2_mul_two_pow {m : ℕ} (hm : m ≠ 0) (d : ℕ) : (m * 2 ^ d).log2 = m.log2 + d := by
  have hpos := Nat.two_pow_pos d
  rw [Nat.log2_eq_iff (Nat.mul_ne_zero hm hpos.ne')]
  constructor
  · rw [pow_add]
    exact Nat.mul_le_mul_right _ (Nat.log2_self_le hm)
  · rw [add_right_comm, pow_add]
    exact Nat.mul_lt_mul_of_pos_right Nat.lt_log2_self hpos

/-- A mantissa without the bits that are dropped. -/
theorem dropped_bounds {m k : ℕ} (hm : m ≠ 0) (hlog : m.log2 ≤ 52 + k) :
    m / 2 ^ k < mantissaCount ∧ (m.log2 = 52 + k → hiddenBit ≤ m / 2 ^ k) := by
  have hpos := Nat.two_pow_pos k
  constructor
  · rw [Nat.div_lt_iff_lt_mul hpos]
    have hcount : mantissaCount * 2 ^ k = 2 ^ (53 + k) := (pow_add 2 53 k).symm
    rw [hcount, ← Nat.log2_lt hm]
    omega
  · intro hfull
    have hbit : hiddenBit * 2 ^ k = 2 ^ (52 + k) := (pow_add 2 52 k).symm
    rw [Nat.le_div_iff_mul_le hpos, hbit, ← hfull]
    exact Nat.log2_self_le hm

theorem round_spec (s : Sign) {m : ℕ} {e : ℤ} (hm : m ≠ 0) (he : minExponent ≤ e) :
    ∃ m' q hp, UnpackedFloat.round Format.binary64 s m e = .finite s m' q hp ∧
      RoundsTo (m * 2 ^ e) (max (m.log2 + e - 52) minExponent) m' q := by
  obtain ⟨t, ht⟩ : ∃ t, max (m.log2 + e - 52) minExponent = t := ⟨_, rfl⟩
  obtain ⟨d, hd⟩ : ∃ d, (e - t).toNat = d := ⟨_, rfl⟩
  obtain ⟨k, hk⟩ : ∃ k : ℕ, e - d + k = t := ⟨(t - (e - d)).toNat, by omega⟩
  have hround : UnpackedFloat.round Format.binary64 s m e =
      roundWithAccuracy Format.binary64 s (m * 2 ^ d) (e - d) .exact := by
    unfold UnpackedFloat.round decreaseExponent
    dsimp only
    rw [targetExponent_eq, ht, hd, Nat.shiftLeft_eq]
  have hvalue : (m : ℚ) * 2 ^ e = (m * 2 ^ d : ℕ) / 2 ^ k * 2 ^ t := by
    rw [← hk, zpow_add₀ (by norm_num), zpow_sub₀ (by norm_num), zpow_natCast, zpow_natCast]
    push_cast
    field_simp
  have hne : m * 2 ^ d ≠ 0 := Nat.mul_ne_zero hm (Nat.two_pow_pos d).ne'
  have hlog := log2_mul_two_pow hm d
  rw [ht, hround, hvalue]
  generalize m * 2 ^ d = n at hne hlog hround ⊢
  obtain ⟨hlt, hfull⟩ := dropped_bounds (k := k) hne (by omega)
  obtain ⟨r, hr⟩ : ∃ r, ((⟨n, false, false⟩ : ExtendedMantissa) >>> k).roundedMantissa = r := ⟨_, rfl⟩
  obtain ⟨hlow, hhigh⟩ := roundedMantissa_bounds ((⟨n, false, false⟩ : ExtendedMantissa) >>> k)
  rw [mantissa_shiftRight, hr] at hlow hhigh
  dsimp only at hlow hhigh
  have hnormal : r < hiddenBit → t = minExponent := by
    intro hr'
    by_contra ht'
    exact absurd (hfull (by omega)) (by omega)
  have hpos : 0 < r := by
    by_contra hzero
    have hleast := hnormal (by unfold hiddenBit; omega)
    obtain rfl : k = 0 := by omega
    rw [pow_zero, Nat.div_one] at hlow
    omega
  obtain ⟨m', q, hp, heq, hparts⟩ := roundWithAccuracy_eq (s := s) (e := e - d) (t := t) (by omega) hk hr
    hpos (by omega)
  refine ⟨m', q, hp, heq, ?_⟩
  have hunits : (m' : ℚ) * 2 ^ q = r * 2 ^ t := by
    obtain ⟨-, rfl, rfl⟩ | ⟨rfl, rfl, rfl⟩ := hparts
    · rfl
    · have hdouble : (mantissaCount : ℚ) = 2 * hiddenBit := by norm_num [mantissaCount, hiddenBit]
      rw [hdouble, zpow_add_one₀ (by norm_num)]
      ring
  have hscale : (0 : ℚ) < 2 ^ t := by positivity
  have hdrop : (0 : ℚ) < 2 ^ k := by positivity
  have hsplit : hiddenBit < mantissaCount := by decide
  constructor
  case mantissa => omega
  case least => omega
  case subnormal => omega
  case near => omega
  case above =>
    intro c hc
    have hunder : (c : ℚ) * 2 ^ k ≤ n := by
      rw [← le_div_iff₀ hdrop]
      exact le_of_mul_le_mul_right hc hscale
    have hfloor : c ≤ n / 2 ^ k := by
      rw [Nat.le_div_iff_mul_le (Nat.two_pow_pos k)]
      exact_mod_cast hunder
    have hcr : (c : ℚ) ≤ r := by exact_mod_cast hfloor.trans hlow
    rw [hunits]
    gcongr
  case exact =>
    intro c hc
    have hwhole : n = c * 2 ^ k := by
      have hdiv := mul_right_cancel₀ hscale.ne' hc
      rw [div_eq_iff hdrop.ne'] at hdiv
      exact_mod_cast hdiv
    have hrc : r = c := by
      rw [← hr, shiftRight_of_dvd ⟨c, by rw [hwhole, mul_comm]⟩, hwhole,
        Nat.mul_div_cancel _ (Nat.two_pow_pos k)]
      rfl
    rw [hunits, hrc, hc]

/-! ### Rounding an integer -/

/-- The first bit of a natural number, from a mantissa and an exponent that make it up. -/
theorem log2_of_magnitude {m n : ℕ} {e : ℤ} (hm : m ≠ 0) (h : (m : ℚ) * 2 ^ e = n) :
    (n.log2 : ℤ) = m.log2 + e := by
  obtain ⟨d, rfl | rfl⟩ := e.eq_nat_or_neg
  · have hn : n = m * 2 ^ d := by
      rw [zpow_natCast] at h
      exact_mod_cast h.symm
    rw [hn, log2_mul_two_pow hm]
    push_cast
    rfl
  · have hm' : m = n * 2 ^ d := by
      have hpos : (0 : ℚ) < 2 ^ d := by positivity
      rw [zpow_neg, zpow_natCast, ← div_eq_mul_inv, div_eq_iff hpos.ne'] at h
      exact_mod_cast h
    have hn : n ≠ 0 := by
      rintro rfl
      exact hm (hm'.trans (Nat.zero_mul _))
    rw [hm', log2_mul_two_pow hn]
    push_cast
    ring

/-- Natural numbers up to `2 ^ 53` are units of their last place. -/
theorem units_of_le {n : ℕ} (h : n ≤ mantissaCount) : ∃ c : ℕ, (n : ℚ) = c * 2 ^ ((n.log2 : ℤ) - 52) := by
  obtain hlt | rfl := h.lt_or_eq
  · have hlog : n.log2 ≤ 52 := Nat.lt_succ_iff.1 (log2_lt_of_lt hlt)
    obtain ⟨d, hd⟩ := Nat.exists_eq_add_of_le hlog
    have hexp : (n.log2 : ℤ) - 52 = -(d : ℤ) := by omega
    refine ⟨n * 2 ^ d, ?_⟩
    rw [hexp, zpow_neg, zpow_natCast]
    push_cast
    field_simp
  · have hlog : mantissaCount.log2 = 53 := by decide
    refine ⟨hiddenBit, ?_⟩
    rw [hlog]
    norm_num [mantissaCount, hiddenBit]

/-- For a natural number from `2 ^ 53` up to `2 ^ 54`, so is `2 ^ 53`. -/
theorem units_mantissaCount {n : ℕ} (hn : n ≠ 0) (h : mantissaCount ≤ n) (hle : n ≤ 2 * mantissaCount) :
    ∃ c : ℕ, (mantissaCount : ℚ) = c * 2 ^ ((n.log2 : ℤ) - 52) := by
  have hlow : 53 ≤ n.log2 := (Nat.le_log2 hn).2 h
  have hhigh : n.log2 < 55 := by
    rw [Nat.log2_lt hn]
    unfold mantissaCount at hle
    omega
  obtain hlog | hlog : n.log2 = 53 ∨ n.log2 = 54 := by omega
  · refine ⟨hiddenBit, ?_⟩
    rw [hlog]
    norm_num [mantissaCount, hiddenBit]
  · refine ⟨hiddenBit / 2, ?_⟩
    rw [hlog]
    norm_num [mantissaCount, hiddenBit]

/-- Integers up to `2 ^ 53` are not rounded, and the others stay beyond `2 ^ 53`. -/
theorem round_natural (s : Sign) {m n : ℕ} {e : ℤ} (hm : m ≠ 0) (he : minExponent ≤ e)
    (hn : (m : ℚ) * 2 ^ e = n) (hle : n ≤ 2 * mantissaCount) :
    ∃ m' q hp, UnpackedFloat.round Format.binary64 s m e = .finite s m' q hp ∧ IsCanonical m' q ∧
      (n ≤ mantissaCount → (m' : ℚ) * 2 ^ q = n) ∧
      (mantissaCount ≤ n → (mantissaCount : ℚ) ≤ m' * 2 ^ q) := by
  obtain ⟨m', q, hp, hround, hrounds⟩ := round_spec s hm he
  have hn0 : n ≠ 0 := by
    rintro rfl
    have hpos : (0 : ℚ) < m * 2 ^ e := magnitude_pos (Nat.pos_of_ne_zero hm)
    rw [hn] at hpos
    exact absurd hpos (by norm_num)
  have hlog := log2_of_magnitude hm hn
  have htop : n.log2 < 55 := by
    rw [Nat.log2_lt hn0]
    unfold mantissaCount at hle
    omega
  have ht : max (m.log2 + e - 52) minExponent = (n.log2 : ℤ) - 52 := by
    rw [← hlog, minExponent]
    omega
  rw [ht, hn] at hrounds
  refine ⟨m', q, hp, hround, ?_, ?_, ?_⟩
  · have hnear := hrounds.near
    exact ⟨hrounds.mantissa, hrounds.least, by unfold maxExponent; omega, hrounds.subnormal⟩
  · intro hsmall
    obtain ⟨c, hc⟩ := units_of_le hsmall
    exact hrounds.exact c hc
  · intro hlarge
    obtain ⟨c, hc⟩ := units_mantissaCount hn0 hlarge hle
    rw [hc]
    apply hrounds.above
    rw [← hc]
    exact_mod_cast hlarge

/-! ### Sums -/

/-- What comes out for a sum whose exact value is the integer `i`. -/
structure SumsTo (i : ℤ) (u : UnpackedFloat) : Prop where
  canonical : Canonical u
  exact : i.natAbs ≤ mantissaCount → valueOf u = i
  above : (mantissaCount : ℤ) ≤ i → (mantissaCount : ℚ) ≤ valueOf u
  below : i ≤ -mantissaCount → valueOf u ≤ -mantissaCount

theorem SumsTo.of_eq {i : ℤ} {u : UnpackedFloat} (h : Canonical u) (hi : valueOf u = i) :
    SumsTo i u where
  canonical := h
  exact _ := hi
  above hle := by
    rw [hi]
    exact_mod_cast hle
  below hle := by
    rw [hi]
    exact_mod_cast hle

theorem apply_cast (s : Sign) (k : ℕ) : ((s.apply (k : ℤ) : ℤ) : ℚ) = (s.apply 1 : ℤ) * k := by
  cases s <;> simp [Sign.apply]

/-- Rounding gives the sum from its magnitude and its sign. -/
theorem round_sumsTo {s : Sign} {m n : ℕ} {e : ℤ} (hm : m ≠ 0) (he : minExponent ≤ e)
    (hn : (m : ℚ) * 2 ^ e = n) (hle : n ≤ 2 * mantissaCount) :
    SumsTo (s.apply n) (UnpackedFloat.round Format.binary64 s m e) := by
  obtain ⟨m', q, hp, hround, hcanonical, hexact, habove⟩ := round_natural s hm he hn hle
  rw [hround]
  have hvalue : valueOf (.finite s m' q hp) = (s.apply 1 : ℤ) * (m' * 2 ^ q) := by
    rw [valueOf_finite, apply_cast, mul_assoc]
  constructor
  case canonical => exact hcanonical
  case exact =>
    intro hsmall
    have hsmall : n ≤ mantissaCount := by cases s <;> simp only [Sign.apply] at hsmall <;> omega
    rw [hvalue, hexact hsmall, ← apply_cast]
  case above =>
    intro hlarge
    cases s with
    | negative =>
      simp only [Sign.apply] at hlarge
      unfold mantissaCount at hlarge
      omega
    | positive =>
      rw [hvalue]
      simp only [Sign.apply] at hlarge
      simpa [Sign.apply] using habove (by omega)
  case below =>
    intro hlarge
    cases s with
    | negative =>
      rw [hvalue]
      simp only [Sign.apply] at hlarge
      simpa [Sign.apply] using habove (by omega)
    | positive =>
      simp only [Sign.apply] at hlarge
      unfold mantissaCount at hlarge
      omega

theorem normalize_sumsTo {m i : ℤ} {e : ℤ} (he : minExponent ≤ e) (h : (m : ℚ) * 2 ^ e = i)
    (hi : i.natAbs ≤ 2 * mantissaCount) :
    SumsTo i (UnpackedFloat.normalize Format.binary64 m e .positive) := by
  have hscale : (0 : ℚ) < 2 ^ e := by positivity
  have habs : (m.natAbs : ℚ) * 2 ^ e = i.natAbs := by
    rw [Nat.cast_natAbs, Nat.cast_natAbs, Int.cast_abs, Int.cast_abs, ← h, abs_mul, abs_of_pos hscale]
  unfold UnpackedFloat.normalize
  obtain hm | rfl | hm := lt_trichotomy m 0
  · have hneg : i < 0 := by
      have hlt : (i : ℚ) < 0 := h ▸ mul_neg_of_neg_of_pos (by exact_mod_cast hm) hscale
      exact_mod_cast hlt
    have hsign : Sign.negative.apply i.natAbs = i := by
      simp only [Sign.apply]
      omega
    have hnat : (-m).toNat = m.natAbs := by omega
    rw [compare_lt_iff_lt.2 hm]
    dsimp only
    rw [hnat]
    exact hsign ▸ round_sumsTo (by omega) he habs hi
  · have hzero : i = 0 := by
      rw [Int.cast_zero, zero_mul] at h
      exact_mod_cast h.symm
    rw [hzero]
    exact .of_eq trivial Int.cast_zero.symm
  · have hpos : 0 < i := by
      have hlt : (0 : ℚ) < i := h ▸ mul_pos (by exact_mod_cast hm) hscale
      exact_mod_cast hlt
    have hsign : Sign.positive.apply i.natAbs = i := by
      simp only [Sign.apply]
      omega
    have hnat : m.toNat = m.natAbs := by omega
    rw [compare_gt_iff_gt.2 hm]
    dsimp only
    rw [hnat]
    exact hsign ▸ round_sumsTo (by omega) he habs hi

theorem shiftLeft_value {m : ℕ} {e t : ℤ} (h : t ≤ e) :
    ((m <<< (e - t).toNat : ℕ) : ℚ) * 2 ^ t = m * 2 ^ e := by
  obtain ⟨d, rfl⟩ := Int.le.dest h
  have hshift : (t + d - t).toNat = d := by omega
  rw [hshift, Nat.shiftLeft_eq, zpow_add₀ (by norm_num), zpow_natCast]
  push_cast
  ring

theorem add_sumsTo {a b : UnpackedFloat} {i : ℤ} (ha : Canonical a) (hb : Canonical b)
    (h : valueOf a + valueOf b = i) (hi : i.natAbs ≤ 2 * mantissaCount) :
    SumsTo i (UnpackedFloat.add Format.binary64 a b) := by
  cases a with
  | notANumber => exact ha.elim
  | infinity s => exact ha.elim
  | zero s =>
    have hsum : valueOf b = i := by
      rw [← h]
      exact (zero_add _).symm
    cases b with
    | notANumber => exact hb.elim
    | infinity s' => exact hb.elim
    | zero s' =>
      unfold UnpackedFloat.add
      dsimp only
      split <;> exact .of_eq trivial hsum
    | finite s' m' q' hp' => exact .of_eq hb hsum
  | finite s m q hp =>
    cases b with
    | notANumber => exact hb.elim
    | infinity s' => exact hb.elim
    | zero s' =>
      refine .of_eq ha ?_
      rw [← h]
      exact (add_zero _).symm
    | finite s' m' q' hp' =>
      have hleast : minExponent ≤ min q q' :=
        le_min (IsCanonical.least ha) (IsCanonical.least hb)
      refine normalize_sumsTo hleast ?_ hi
      rw [← h, valueOf_finite, valueOf_finite, Int.cast_add, apply_cast, apply_cast, apply_cast,
        apply_cast, add_mul, mul_assoc, mul_assoc, shiftLeft_value (min_le_left _ _),
        shiftLeft_value (min_le_right _ _), mul_assoc, mul_assoc]

variable {x y : Float} {i j : ℤ}

theorem unpack_add (hx : Canonical x.toModel.unpack) (hy : Canonical y.toModel.unpack)
    (h : valueOf x.toModel.unpack + valueOf y.toModel.unpack = i)
    (hi : i.natAbs ≤ 2 * mantissaCount) : SumsTo i (x + y).toModel.unpack := by
  have hsum := add_sumsTo hx hy h hi
  have hpack : (x + y).toModel.unpack = _ := unpack_pack hsum.canonical
  exact hpack ▸ hsum

/-- The sum of two integers is exact up to `2 ^ 53`. -/
theorem IsInt.add (hx : IsInt x i) (hy : IsInt y j) (h : (i + j).natAbs ≤ mantissaCount) :
    IsInt (x + y) (i + j) := by
  obtain ⟨hcanonical, hvalue⟩ := isInt_iff.1 hx
  obtain ⟨hcanonical', hvalue'⟩ := isInt_iff.1 hy
  have hsum := unpack_add (i := i + j) hcanonical hcanonical'
    (by rw [hvalue, hvalue', Int.cast_add]) (by omega)
  exact isInt_iff.2 ⟨hsum.canonical, hsum.exact h⟩

/-- Beyond `2 ^ 53` it stays beyond. -/
theorem IsInt.add_beyond (hx : IsInt x i) (hy : IsInt y j)
    (h : (i + j).natAbs ≤ 2 * mantissaCount) : ∃ v, Holds (x + y) v ∧
      ((mantissaCount : ℤ) ≤ i + j → (mantissaCount : ℚ) ≤ v) ∧
      (i + j ≤ -mantissaCount → v ≤ -mantissaCount) := by
  obtain ⟨hcanonical, hvalue⟩ := isInt_iff.1 hx
  obtain ⟨hcanonical', hvalue'⟩ := isInt_iff.1 hy
  have hsum := unpack_add (i := i + j) hcanonical hcanonical'
    (by rw [hvalue, hvalue', Int.cast_add]) h
  exact ⟨_, ⟨hsum.canonical, rfl⟩, hsum.above, hsum.below⟩

end ScriptLang.Number
