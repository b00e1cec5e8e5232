import Mathlib.Algebra.Order.Field.Power
import Mathlib.Data.Rat.Cast.Order
import Mathlib.Tactic.FieldSimp
import Mathlib.Tactic.Linarith
import Mathlib.Tactic.NormNum
import Mathlib.Tactic.Positivity
import Mathlib.Tactic.Ring
import ScriptLang.Decimal.Shortest
import ScriptLang.Proofs.Decimal.Bits

/-!
# The nearest number

`Decimal.Reads m q x` says that the rational number `x` lies in the interval around `m · 2 ^ q` in
which numbers are read as that one. The interval reaches half way to the neighbours, and its ends
belong to it when the mantissa is even. The main result is that `Binary.nearest?` gives
`m · 2 ^ q` for every fraction in its interval (`Binary.nearest?_of_reads`).
-/

namespace ScriptLang

/-- Whether a rational number is read as `m · 2 ^ q`. -/
def Decimal.Reads (m : Nat) (q : Int) (x : ℚ) : Prop :=
  ((bounds m q).1 * (2 : ℚ) ^ (q - 2) < x ∨ (bounds m q).1 * (2 : ℚ) ^ (q - 2) = x ∧ m % 2 = 0) ∧
    (x < (bounds m q).2 * (2 : ℚ) ^ (q - 2) ∨ x = (bounds m q).2 * (2 : ℚ) ^ (q - 2) ∧ m % 2 = 0)

namespace Binary

/-! ### Powers with an integer exponent -/

theorem zpow_eq_div (b : ℚ) (e : Int) : b ^ e = b ^ e.toNat / b ^ (-e).toNat := by
  obtain ⟨n, rfl | rfl⟩ := e.eq_nat_or_neg
  · simp
  · simp

theorem two_zpow_eq (q : Int) : (2 : ℚ) ^ q = 4 * 2 ^ (q - 2) := by
  rw [zpow_sub₀ (by norm_num)]
  ring

/-- A fraction in units of `2 ^ e`. -/
theorem scaled_div (num den : Nat) (e : Int) :
    ((num * Nat.pow 2 (-e).toNat : Nat) : ℚ) / ((den * Nat.pow 2 e.toNat : Nat) : ℚ) =
      (num : ℚ) / den / 2 ^ e := by
  rw [zpow_eq_div 2 e]
  simp only [Nat.pow_eq, Nat.cast_mul, Nat.cast_pow, Nat.cast_ofNat]
  field_simp

/-! ### Rounding to an integer -/

theorem roundDiv_eq {a b k : Nat} (hb : 0 < b)
    (hlow : 2 * k * b < 2 * a + b ∨ 2 * k * b = 2 * a + b ∧ k % 2 = 0)
    (hhigh : 2 * a < 2 * k * b + b ∨ 2 * a = 2 * k * b + b ∧ k % 2 = 0) : roundDiv a b = k := by
  have hdiv := Nat.div_add_mod a b
  have hmod := Nat.mod_lt a hb
  rw [roundDiv]
  generalize a / b = q at *
  generalize a % b = r at *
  subst hdiv
  have hnear : k = q ∨ k = q + 1 := by
    have hle : k ≤ q + 1 := by
      by_contra hgt
      obtain ⟨d, rfl⟩ : ∃ d, k = q + 2 + d := ⟨k - (q + 2), by omega⟩
      have : 2 * (q + 2 + d) * b ≤ 2 * (b * q + r) + b := by omega
      nlinarith
    have hge : q ≤ k := by
      by_contra hlt
      obtain ⟨d, rfl⟩ : ∃ d, q = k + 1 + d := ⟨q - (k + 1), by omega⟩
      have : 2 * (b * (k + 1 + d) + r) ≤ 2 * k * b + b := by omega
      nlinarith
    omega
  rcases hnear with rfl | rfl
  · have hhalf : 2 * r < b ∨ 2 * r = b ∧ k % 2 = 0 := by
      rcases hhigh with h | ⟨h, heven⟩
      · exact .inl (by nlinarith)
      · exact .inr ⟨by nlinarith, heven⟩
    rcases hhalf with h | ⟨h, heven⟩
    · rw [if_pos h]
    · rw [if_neg (by omega), if_neg (by omega), if_pos (by simpa using heven)]
  · have hhalf : b < 2 * r ∨ b = 2 * r ∧ (q + 1) % 2 = 0 := by
      rcases hlow with h | ⟨h, heven⟩
      · exact .inl (by nlinarith)
      · exact .inr ⟨by nlinarith, heven⟩
    rcases hhalf with h | ⟨h, heven⟩
    · rw [if_neg (by omega), if_pos h]
    · rw [if_neg (by omega), if_neg (by omega), if_neg (by simp; omega)]

/-- The integer that a fraction is rounded to. -/
theorem roundDiv_of_near {a b k : Nat} (hb : 0 < b) {x : ℚ} (hx : (a : ℚ) / b = x)
    (hlow : (k : ℚ) - 1 / 2 < x ∨ (k : ℚ) - 1 / 2 = x ∧ k % 2 = 0)
    (hhigh : x < k + 1 / 2 ∨ x = k + 1 / 2 ∧ k % 2 = 0) : roundDiv a b = k := by
  have hb' : (0 : ℚ) < b := by exact_mod_cast hb
  have ha : (a : ℚ) = x * b := by
    rw [← hx]
    field_simp
  refine roundDiv_eq hb ?_ ?_
  · rcases hlow with h | ⟨h, heven⟩
    · refine .inl ?_
      have : (2 * k * b : ℚ) < 2 * a + b := by nlinarith
      exact_mod_cast this
    · refine .inr ⟨?_, heven⟩
      have : (2 * k * b : ℚ) = 2 * a + b := by
        rw [ha, ← h]
        ring
      exact_mod_cast this
  · rcases hhigh with h | ⟨h, heven⟩
    · refine .inl ?_
      have : (2 * a : ℚ) < 2 * k * b + b := by nlinarith
      exact_mod_cast this
    · refine .inr ⟨?_, heven⟩
      have : (2 * a : ℚ) = 2 * k * b + b := by
        rw [ha, h]
        ring
      exact_mod_cast this

/-! ### The exponent -/

/-- The exponent at which a fraction has 53 bits before the point, or the least. -/
theorem fittingExponent_spec {num den : Nat} (hn : num ≠ 0) (hd : den ≠ 0) {x : ℚ}
    (hx : (num : ℚ) / den = x) :
    minExponent ≤ fittingExponent num den ∧ x < 2 ^ (fittingExponent num den + 53) ∧
      (minExponent < fittingExponent num den → 2 ^ (fittingExponent num den + 52) ≤ x) := by
  have htwo : (1 : ℚ) < 2 := by norm_num
  have hd' : (0 : ℚ) < den := by exact_mod_cast Nat.pos_of_ne_zero hd
  have hnum : (2 : ℚ) ^ num.log2 ≤ num ∧ (num : ℚ) < 2 ^ (num.log2 + 1) :=
    ⟨by exact_mod_cast Nat.log2_self_le hn, by exact_mod_cast Nat.lt_log2_self⟩
  have hden : (2 : ℚ) ^ den.log2 ≤ den ∧ (den : ℚ) < 2 ^ (den.log2 + 1) :=
    ⟨by exact_mod_cast Nat.log2_self_le hd, by exact_mod_cast Nat.lt_log2_self⟩
  obtain ⟨g, hg⟩ : ∃ g : Int, (num.log2 : Int) - den.log2 - 53 = g := ⟨_, rfl⟩
  have hquot (m n : Nat) : (2 : ℚ) ^ ((m : Int) - n) = 2 ^ m / 2 ^ n := by
    rw [zpow_sub₀ (by norm_num), zpow_natCast, zpow_natCast]
  have hlow : (2 : ℚ) ^ (g + 52) ≤ x := by
    rw [show g + 52 = (num.log2 : Int) - (den.log2 + 1 : Nat) by omega, hquot, ← hx]
    exact div_le_div₀ (by positivity) hnum.1 hd' hden.2.le
  have hhigh : x < (2 : ℚ) ^ (g + 54) := by
    rw [show g + 54 = ((num.log2 + 1 : Nat) : Int) - den.log2 by omega, hquot, ← hx]
    exact div_lt_div₀ hnum.2 hden.1 (by positivity) (by positivity)
  have hscaled : (num * Nat.pow 2 (-g).toNat) / (den * Nat.pow 2 g.toNat) < mantissaCount ↔
      x < 2 ^ (g + 53) := by
    have hpos : 0 < den * Nat.pow 2 g.toNat :=
      Nat.mul_pos (Nat.pos_of_ne_zero hd) (Nat.pow_pos (by decide))
    have hpos' : (0 : ℚ) < (den * Nat.pow 2 g.toNat : Nat) := by exact_mod_cast hpos
    have hcount : (mantissaCount : ℚ) = 2 ^ (53 : Int) := by norm_num [mantissaCount]
    rw [Nat.div_lt_iff_lt_mul hpos, ← Nat.cast_lt (α := ℚ), Nat.cast_mul mantissaCount,
      ← div_lt_iff₀ hpos', scaled_div, hx, div_lt_iff₀ (by positivity), hcount,
      ← zpow_add₀ (by norm_num), add_comm]
  rw [fittingExponent]
  simp only [hg, hscaled]
  obtain ⟨e, he, hup, hdown⟩ : ∃ e, (if x < 2 ^ (g + 53) then g else g + 1) = e ∧
      x < 2 ^ (e + 53) ∧ 2 ^ (e + 52) ≤ x := by
    split
    · exact ⟨g, rfl, ‹_›, hlow⟩
    · refine ⟨g + 1, rfl, ?_, ?_⟩
      · rw [show g + 1 + 53 = g + 54 by omega]
        exact hhigh
      · rw [show g + 1 + 52 = g + 53 by omega]
        exact not_lt.1 ‹_›
  rw [he]
  refine ⟨le_max_left _ _, ?_, fun hmin => ?_⟩
  · refine hup.trans_le (zpow_le_zpow_right₀ htwo.le ?_)
    have := le_max_right minExponent e
    omega
  · rw [max_eq_right (by omega)]
    exact hdown

/-! ### The nearest number -/

end Binary

namespace Decimal

open Binary

/-- The interval in units of `2 ^ q`. -/
theorem reads_iff {m : Nat} {q : Int} {x : ℚ} : Reads m q x ↔
    (((bounds m q).1 : ℚ) / 4 < x / 2 ^ q ∨ ((bounds m q).1 : ℚ) / 4 = x / 2 ^ q ∧ m % 2 = 0) ∧
      (x / 2 ^ q < ((bounds m q).2 : ℚ) / 4 ∨ x / 2 ^ q = ((bounds m q).2 : ℚ) / 4 ∧ m % 2 = 0) := by
  have hq : (0 : ℚ) < 2 ^ q := by positivity
  have hunit : (2 : ℚ) ^ (q - 2) = 2 ^ q / 4 := by
    rw [two_zpow_eq q]
    ring
  have hlt (a : ℚ) : a / 4 < x / 2 ^ q ↔ a * 2 ^ (q - 2) < x := by
    rw [hunit, lt_div_iff₀ hq]
    constructor <;> intro h <;> linarith
  have heq (a : ℚ) : a / 4 = x / 2 ^ q ↔ a * 2 ^ (q - 2) = x := by
    rw [hunit, eq_div_iff hq.ne']
    constructor <;> intro h <;> linarith
  have hgt (a : ℚ) : x / 2 ^ q < a / 4 ↔ x < a * 2 ^ (q - 2) := by
    rw [hunit, div_lt_iff₀ hq]
    constructor <;> intro h <;> linarith
  rw [Reads, hlt, hgt, heq, eq_comm (a := x / 2 ^ q), heq, eq_comm (a := x)]

variable {m : Nat} {q : Int} {x : ℚ}

/-- The interval reaches at most half a unit down. -/
theorem Reads.low (hm : m ≠ 0) (h : Reads m q x) :
    (m : ℚ) - 1 / 2 < x / 2 ^ q ∨ (m : ℚ) - 1 / 2 = x / 2 ^ q ∧ m % 2 = 0 := by
  have hcast : ((4 * m - 2 : Nat) : ℚ) / 4 = m - 1 / 2 := by
    rw [Nat.cast_sub (by omega)]
    push_cast
    ring
  have hcast' : ((4 * m - 1 : Nat) : ℚ) / 4 = m - 1 / 4 := by
    rw [Nat.cast_sub (by omega)]
    push_cast
    ring
  obtain ⟨hlow, -⟩ := reads_iff.1 h
  rw [bounds] at hlow
  dsimp only at hlow
  split at hlow
  · rw [hcast'] at hlow
    refine .inl ?_
    rcases hlow with h | ⟨h, -⟩ <;> linarith
  · rwa [hcast] at hlow

/-- Below a power of two it reaches at most a quarter of a unit down. -/
theorem Reads.low_power (h : Reads hiddenBit q x) (hq : minExponent < q) :
    (hiddenBit : ℚ) - 1 / 4 ≤ x / 2 ^ q := by
  obtain ⟨hlow, -⟩ := reads_iff.1 h
  have hcond : (hiddenBit == hiddenBit && decide (q > minExponent)) = true := by simpa using hq
  rw [bounds] at hlow
  dsimp only at hlow
  rw [if_pos hcond] at hlow
  have hcast : ((4 * hiddenBit - 1 : Nat) : ℚ) / 4 = hiddenBit - 1 / 4 := by norm_num [hiddenBit]
  rw [hcast] at hlow
  rcases hlow with h | ⟨h, -⟩ <;> linarith

/-- It reaches half a unit up. -/
theorem Reads.high (h : Reads m q x) :
    x / 2 ^ q < m + 1 / 2 ∨ x / 2 ^ q = m + 1 / 2 ∧ m % 2 = 0 := by
  have hcast : ((4 * m + 2 : Nat) : ℚ) / 4 = m + 1 / 2 := by
    push_cast
    ring
  have hhigh := (reads_iff.1 h).2
  rwa [bounds, hcast] at hhigh

end Decimal

namespace Binary

/-- A fraction that is read as `m · 2 ^ q` gets the exponent `q`, but for fractions right below a power
of two. -/
theorem fittingExponent_of_reads {num den m : Nat} {q : Int} (hm : m ≠ 0) (hc : IsCanonical m q)
    (hn : num ≠ 0) (hd : den ≠ 0) (hr : Decimal.Reads m q ((num : ℚ) / den)) :
    fittingExponent num den = q ∨ fittingExponent num den + 1 = q ∧ m = hiddenBit ∧
      (num : ℚ) / den / 2 ^ q < hiddenBit := by
  obtain ⟨hmin, hup, hdown⟩ := fittingExponent_spec hn hd rfl
  generalize hx : (num : ℚ) / den = x at *
  generalize fittingExponent num den = e at *
  have htwo : (1 : ℚ) < 2 := by norm_num
  have hq : (0 : ℚ) < 2 ^ q := by positivity
  have hmax : (m : ℚ) + 1 ≤ 2 ^ (53 : Int) := by
    have : m + 1 ≤ 2 ^ 53 := hc.mantissa
    exact_mod_cast this
  have htop : x < 2 ^ (q + 53) := by
    rw [add_comm, zpow_add₀ (by norm_num), ← div_lt_iff₀ hq]
    rcases hr.high with h | ⟨h, -⟩ <;> linarith
  have hle : e ≤ q := by
    by_cases h : minExponent < e
    · have := (zpow_lt_zpow_iff_right₀ htwo).1 ((hdown h).trans_lt htop)
      omega
    · have := hc.least
      omega
  rcases hle.eq_or_lt with heq | hlt
  · exact .inl heq
  refine .inr ?_
  have hleast : minExponent < q := by omega
  have hnormal : hiddenBit ≤ m := by
    by_contra h
    have := hc.subnormal (by omega)
    omega
  have hbelow : x / 2 ^ q < hiddenBit := by
    have hle : (2 : ℚ) ^ (e + 53) ≤ 2 ^ (q + 52) := zpow_le_zpow_right₀ htwo.le (by omega)
    have hbit : (hiddenBit : ℚ) = 2 ^ (52 : Int) := by norm_num [hiddenBit]
    rw [div_lt_iff₀ hq, hbit, ← zpow_add₀ (by norm_num), add_comm]
    exact hup.trans_le hle
  have hpower : m = hiddenBit := by
    have : (m : ℚ) < hiddenBit + 1 := by rcases hr.low hm with h | ⟨h, -⟩ <;> linarith
    have : m < hiddenBit + 1 := by exact_mod_cast this
    omega
  refine ⟨?_, hpower, hbelow⟩
  rw [hpower] at hr
  have habove : (2 : ℚ) ^ (q + 51) < x := by
    have := hr.low_power hleast
    rw [add_comm, zpow_add₀ (by norm_num), ← lt_div_iff₀ hq]
    have hbit : (2 : ℚ) ^ (51 : Int) < hiddenBit - 1 / 4 := by norm_num [hiddenBit]
    linarith
  have := (zpow_lt_zpow_iff_right₀ htwo).1 (habove.trans hup)
  omega

/-- A fraction that is read as `m · 2 ^ q` has that number nearest. -/
theorem nearest?_of_reads {num den m : Nat} {q : Int} (negative : Bool) (hm : m ≠ 0)
    (hc : IsCanonical m q) (hd : den ≠ 0) (hr : Decimal.Reads m q ((num : ℚ) / den)) :
    nearest? negative num den = some (toFloat negative m q) := by
  have hn : num ≠ 0 := by
    have hone : (1 : ℚ) ≤ m := by exact_mod_cast Nat.one_le_iff_ne_zero.2 hm
    have hlow := hr.low hm
    rintro rfl
    simp only [Nat.cast_zero, zero_div] at hlow
    rcases hlow with h | ⟨h, -⟩ <;> linarith
  have hpos (e : Int) : 0 < den * Nat.pow 2 e.toNat :=
    Nat.mul_pos (Nat.pos_of_ne_zero hd) (Nat.pow_pos (by decide))
  have hgreatest := hc.greatest
  rw [nearest?, if_neg (by simpa using hn)]
  rcases fittingExponent_of_reads hm hc hn hd hr with he | ⟨he, rfl, hbelow⟩
  · have hround := roundDiv_of_near (hpos q) (scaled_div num den q) (hr.low hm) hr.high
    have hcarry : ¬(m == mantissaCount) = true := by
      have := hc.mantissa
      simp only [beq_iff_eq]
      omega
    simp only [he, hround, if_neg hcarry]
    rw [if_neg (by omega)]
  · -- the mantissa is rounded up to the next power of two
    have hround : roundDiv (num * Nat.pow 2 (-fittingExponent num den).toNat)
        (den * Nat.pow 2 (fittingExponent num den).toNat) = mantissaCount := by
      have hlow := hr.low_power (by
        have := (fittingExponent_spec hn hd rfl).1
        omega)
      have hscale : (num : ℚ) / den / 2 ^ fittingExponent num den = 2 * ((num : ℚ) / den / 2 ^ q) := by
        rw [← he, zpow_add₀ (by norm_num), zpow_one]
        field_simp
      refine roundDiv_of_near (hpos _) ((scaled_div num den _).trans hscale) ?_ (.inl ?_)
      · have hcast : (mantissaCount : ℚ) - 1 / 2 = 2 * (hiddenBit - 1 / 4) := by
          norm_num [mantissaCount, hiddenBit]
        rw [hcast]
        rcases hlow.lt_or_eq with h | h
        · exact .inl (by linarith)
        · exact .inr ⟨by linarith, by decide⟩
      · have hcast : (mantissaCount : ℚ) = 2 * hiddenBit := by norm_num [mantissaCount, hiddenBit]
        rw [hcast]
        linarith
    simp only [hround, beq_self_eq_true, if_true, he]
    rw [if_neg (by omega)]

theorem roundDiv_bounds (a b : Nat) : a / b ≤ roundDiv a b ∧ roundDiv a b ≤ a / b + 1 := by
  rw [roundDiv]
  split
  · omega
  split
  · omega
  split <;> omega

/-- The mantissa and the exponent of the number nearest to a fraction. It has the fraction's value rounded to
units of the exponent that fits. -/
structure IsNearest (num den m : Nat) (q : Int) : Prop where
  mantissa : m < mantissaCount
  least : minExponent ≤ q
  subnormal : m < hiddenBit → q = minExponent
  value : (m : ℚ) * 2 ^ q = roundDiv (num * Nat.pow 2 (-fittingExponent num den).toNat)
    (den * Nat.pow 2 (fittingExponent num den).toNat) * 2 ^ fittingExponent num den
  found : ∀ negative, nearest? negative num den =
    if q > maxExponent then none else some (toFloat negative m q)

theorem exists_isNearest {num den : Nat} (hn : num ≠ 0) (hd : den ≠ 0) :
    ∃ m q, IsNearest num den m q := by
  obtain ⟨hmin, hup, hdown⟩ := fittingExponent_spec hn hd rfl
  obtain ⟨e, he⟩ : ∃ e, fittingExponent num den = e := ⟨_, rfl⟩
  rw [he] at hmin hup hdown
  have hpos : 0 < den * Nat.pow 2 e.toNat :=
    Nat.mul_pos (Nat.pos_of_ne_zero hd) (Nat.pow_pos (by decide))
  have hpos' : (0 : ℚ) < (den * Nat.pow 2 e.toNat : Nat) := by exact_mod_cast hpos
  have hq : (0 : ℚ) < 2 ^ e := by positivity
  have hlt : (num * Nat.pow 2 (-e).toNat) / (den * Nat.pow 2 e.toNat) < mantissaCount := by
    have hcount : (mantissaCount : ℚ) = 2 ^ (53 : Int) := by norm_num [mantissaCount]
    rw [Nat.div_lt_iff_lt_mul hpos, ← Nat.cast_lt (α := ℚ), Nat.cast_mul mantissaCount,
      ← div_lt_iff₀ hpos', scaled_div, div_lt_iff₀ hq, hcount, ← zpow_add₀ (by norm_num), add_comm]
    exact hup
  have hge : minExponent < e →
      hiddenBit ≤ (num * Nat.pow 2 (-e).toNat) / (den * Nat.pow 2 e.toNat) := by
    intro he
    have hbit : (hiddenBit : ℚ) = 2 ^ (52 : Int) := by norm_num [hiddenBit]
    rw [Nat.le_div_iff_mul_le hpos, ← Nat.cast_le (α := ℚ), Nat.cast_mul hiddenBit,
      ← le_div_iff₀ hpos', scaled_div, le_div_iff₀ hq, hbit, ← zpow_add₀ (by norm_num), add_comm]
    exact hdown he
  obtain ⟨hfloor, hceil⟩ := roundDiv_bounds (num * Nat.pow 2 (-e).toNat) (den * Nat.pow 2 e.toNat)
  obtain ⟨m, hm⟩ : ∃ m, roundDiv (num * Nat.pow 2 (-e).toNat) (den * Nat.pow 2 e.toNat) = m := ⟨_, rfl⟩
  rw [hm] at hfloor hceil
  have hsome : ¬(num == 0) = true := by simpa using hn
  by_cases hcarry : m = mantissaCount
  · -- the mantissa was rounded up to a power of two
    have hcount : hiddenBit < mantissaCount := by decide
    have hdouble : (mantissaCount : ℚ) = hiddenBit * 2 := by norm_num [mantissaCount, hiddenBit]
    refine ⟨hiddenBit, e + 1, hcount, by omega, fun hlow => absurd hlow (lt_irrefl _), ?_, ?_⟩
    · rw [he, hm, hcarry, hdouble, zpow_add₀ (by norm_num), zpow_one]
      ring
    · intro negative
      rw [nearest?, if_neg hsome]
      simp only [he, hm, beq_iff_eq, if_pos hcarry]
  · refine ⟨m, e, by omega, hmin, ?_, ?_, ?_⟩
    · intro hlow
      by_contra hne
      have := hge (by omega)
      omega
    · rw [he, hm]
    · intro negative
      rw [nearest?, if_neg hsome]
      simp only [he, hm, beq_iff_eq, if_neg hcarry]

theorem IsNearest.isCanonical {num den m : Nat} {q : Int} (h : IsNearest num den m q)
    (hq : q ≤ maxExponent) : IsCanonical m q :=
  ⟨h.mantissa, h.least, hq, h.subnormal⟩

/-- The nearest number is finite and not negative. -/
theorem ofFloat_of_nearest? {num den : Nat} (hd : den ≠ 0) {v : Float}
    (h : nearest? false num den = some v) : ∃ m q, ofFloat v = .finite false m q := by
  by_cases hn : num = 0
  · subst hn
    cases h
    exact ⟨_, _, ofFloat_toFloat false ⟨by decide, by decide, by decide, fun _ => rfl⟩⟩
  · obtain ⟨m, q, hnearest⟩ := exists_isNearest hn hd
    rw [hnearest.found] at h
    split at h
    · cases h
    · next hmax =>
      cases h
      exact ⟨m, q, ofFloat_toFloat false (hnearest.isCanonical (by omega))⟩

end Binary

end ScriptLang
