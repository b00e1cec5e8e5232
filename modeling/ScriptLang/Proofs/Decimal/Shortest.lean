import Mathlib.Data.Nat.Cast.Order.Field
import ScriptLang.Proofs.Decimal.Rounding

/-!
# The shortest decimal is read back

The search for the shortest decimal goes from coarse grids to fine ones and stops at a grid point in
the interval of the number. On the grid with seventeen digits there always is one: the interval is
wider than the distance of its points. So the search never comes to its end, and its result is read
as the number (`Decimal.reads_shortest`).
-/

namespace ScriptLang

/-! ### Counting digits -/

theorem lt_pow_digitCount (n : Nat) : n < 10 ^ digitCount n := by
  rw [digitCount]
  split
  · rename_i h
    rw [beq_iff_eq.1 h]
    decide
  · exact (Nat.length_toDigits_le_iff (by decide) Nat.length_toDigits_pos).1 (Nat.le_refl _)

theorem pow_digitCount_le {n : Nat} (hn : n ≠ 0) : 10 ^ (digitCount n - 1) ≤ n := by
  rw [digitCount, if_neg (by simpa using hn)]
  by_contra hlt
  by_cases hone : (Nat.toDigits 10 n).length = 1
  · rw [hone] at hlt
    simp at hlt
    omega
  · have hpos : 0 < (Nat.toDigits 10 n).length := Nat.length_toDigits_pos
    have := (Nat.length_toDigits_le_iff (by decide) (by omega)).2 (not_le.1 hlt)
    omega

namespace Decimal

open Binary

/-- The value of a decimal. -/
def value (d : Decimal) : ℚ := d.digits * 10 ^ d.exponent

/-! ### Comparing -/

/-- What both sides of `compareBinary` are multiples of. -/
theorem cross_mul (c x : Nat) (e p : Int) :
    ((c * Nat.pow 10 e.toNat * Nat.pow 2 (-p).toNat : Nat) : ℚ) =
        c * 10 ^ e * (10 ^ (-e).toNat * 2 ^ (-p).toNat) ∧
      ((x * Nat.pow 2 p.toNat * Nat.pow 10 (-e).toNat : Nat) : ℚ) =
        x * 2 ^ p * (10 ^ (-e).toNat * 2 ^ (-p).toNat) := by
  rw [zpow_eq_div 10 e, zpow_eq_div 2 p]
  simp only [Nat.pow_eq, Nat.cast_mul, Nat.cast_pow, Nat.cast_ofNat]
  constructor <;> field_simp

theorem compareBinary_spec (c x : Nat) (e p : Int) :
    (compareBinary c e x p = .gt ↔ (x : ℚ) * 2 ^ p < c * 10 ^ e) ∧
      (compareBinary c e x p = .lt ↔ (c : ℚ) * 10 ^ e < x * 2 ^ p) ∧
      (compareBinary c e x p = .eq ↔ (c : ℚ) * 10 ^ e = x * 2 ^ p) := by
  obtain ⟨hl, hr⟩ := cross_mul c x e p
  have hpos : (0 : ℚ) < 10 ^ (-e).toNat * 2 ^ (-p).toNat := by positivity
  rw [compareBinary, Nat.compare_eq_gt, Nat.compare_eq_lt, Nat.compare_eq_eq]
  refine ⟨?_, ?_, ?_⟩
  · rw [← Nat.cast_lt (α := ℚ), hl, hr, mul_lt_mul_iff_left₀ hpos]
  · rw [← Nat.cast_lt (α := ℚ), hl, hr, mul_lt_mul_iff_left₀ hpos]
  · rw [← Nat.cast_inj (R := ℚ), hl, hr, mul_left_inj' hpos.ne']

theorem readsAs_iff {m c : Nat} {q e : Int} :
    readsAs m q c e = true ↔ Reads m q ((c : ℚ) * 10 ^ e) := by
  obtain ⟨hgt, -, heq⟩ := compareBinary_spec c (bounds m q).1 e (q - 2)
  obtain ⟨-, hlt, heq'⟩ := compareBinary_spec c (bounds m q).2 e (q - 2)
  rw [readsAs, Reads, ← hgt, ← hlt, ← heq', eq_comm (b := (c : ℚ) * 10 ^ e), ← heq]
  simp

/-! ### Grids -/

variable {m : Nat} {q e : Int}

theorem reads_onGrid? {d : Decimal} (h : onGrid? m q e = some d) :
    Reads m q d.value ∧ d.digits ≠ 0 := by
  rw [onGrid?] at h
  split at h
  · rename_i hbelow
    cases h
    simp only [Bool.and_eq_true, decide_eq_true_eq] at hbelow
    exact ⟨readsAs_iff.1 hbelow.1.2, Nat.ne_of_gt hbelow.1.1⟩
  · split at h
    · rename_i habove
      cases h
      exact ⟨readsAs_iff.1 habove, Nat.succ_ne_zero _⟩
    · cases h

/-- On a grid with a point between the lower end of the interval and the number there is a hit. -/
theorem onGrid?_isSome (hm : m ≠ 0) (he : (10 : ℚ) ^ e ≤ m * 2 ^ q)
    (hfine : ((bounds m q).1 : ℚ) * 2 ^ (q - 2) < m * 2 ^ q - 10 ^ e) : (onGrid? m q e).isSome := by
  have hpos : (0 : ℚ) < 10 ^ e := by positivity
  rw [onGrid?]
  obtain ⟨num, hnum⟩ : ∃ n, m * Nat.pow 2 q.toNat * Nat.pow 10 (-e).toNat = n := ⟨_, rfl⟩
  obtain ⟨den, hden⟩ : ∃ n, Nat.pow 2 (-q).toNat * Nat.pow 10 e.toNat = n := ⟨_, rfl⟩
  have hquot : (num : ℚ) / den = m * 2 ^ q / 10 ^ e := by
    rw [← hnum, ← hden, zpow_eq_div 10 e, zpow_eq_div 2 q]
    simp only [Nat.pow_eq, Nat.cast_mul, Nat.cast_pow, Nat.cast_ofNat]
    field_simp
  have hden' : 0 < den := by
    rw [← hden]
    exact Nat.mul_pos (Nat.pow_pos (by decide)) (Nat.pow_pos (by decide))
  have hdenq : (0 : ℚ) < den := by exact_mod_cast hden'
  have hfloor : ((num / den : Nat) : ℚ) * 10 ^ e ≤ m * 2 ^ q := by
    rw [← le_div_iff₀ hpos, ← hquot]
    exact Nat.cast_div_le
  have hceil : (m : ℚ) * 2 ^ q < ((num / den : Nat) + 1) * 10 ^ e := by
    rw [← div_lt_iff₀ hpos, ← hquot, div_lt_iff₀ hdenq]
    exact_mod_cast (Nat.lt_mul_div_succ num hden').trans_eq (Nat.mul_comm _ _)
  have hone : 0 < num / den := by
    rw [Nat.div_pos_iff]
    refine ⟨hden', ?_⟩
    have : (1 : ℚ) ≤ (num : ℚ) / den := by rwa [hquot, one_le_div hpos]
    rw [one_le_div hdenq] at this
    exact_mod_cast this
  have hbelow : readsAs m q (num / den) e = true := by
    rw [readsAs_iff]
    refine ⟨.inl (by linarith), .inl (hfloor.trans_lt ?_)⟩
    have hunitPos : (0 : ℚ) < 2 ^ (q - 2) := by positivity
    rw [two_zpow_eq q, bounds]
    push_cast
    nlinarith
  simp only [hnum, hden, hbelow, hone, decide_true, Bool.true_and]
  split
  · rfl
  · rename_i h
    cases habove : readsAs m q (num / den + 1) e with
    | true => rfl
    | false => simp [habove] at h

/-- The first digit of a number. -/
theorem pow_leadingPower_le (hm : m ≠ 0) : (10 : ℚ) ^ leadingPower m q ≤ m * 2 ^ q := by
  rw [leadingPower]
  obtain ⟨num, hnum⟩ : ∃ n, m * Nat.pow 2 q.toNat = n := ⟨_, rfl⟩
  obtain ⟨den, hden⟩ : ∃ n, Nat.pow 2 (-q).toNat = n := ⟨_, rfl⟩
  have hquot : (m : ℚ) * 2 ^ q = num / den := by
    rw [← hnum, ← hden, zpow_eq_div 2 q]
    simp only [Nat.pow_eq, Nat.cast_mul, Nat.cast_pow, Nat.cast_ofNat]
    field_simp
  have hden' : 0 < den := hden ▸ Nat.pow_pos (by decide)
  have hnum' : 0 < num := hnum ▸ Nat.mul_pos (Nat.pos_of_ne_zero hm) (Nat.pow_pos (by decide))
  have hdenq : (0 : ℚ) < den := by exact_mod_cast hden'
  have hnumq : (0 : ℚ) < num := by exact_mod_cast hnum'
  simp only [hnum, hden, hquot]
  split
  · rename_i hge
    have hne : num / den ≠ 0 := Nat.ne_of_gt (Nat.div_pos hge hden')
    have hlow := pow_digitCount_le hne
    have hcount : 0 < digitCount (num / den) := by
      by_contra hzero
      have := lt_pow_digitCount (num / den)
      rw [Nat.eq_zero_of_not_pos hzero, Nat.pow_zero] at this
      exact hne (Nat.lt_one_iff.1 this)
    rw [show (digitCount (num / den) : Int) - 1 = (digitCount (num / den) - 1 : Nat) by omega,
      zpow_natCast]
    refine le_trans ?_ (Nat.cast_div_le (α := ℚ))
    exact_mod_cast hlow
  · rename_i hlt
    have hceil : den ≤ ((den + num - 1) / num) * num := by
      have := Nat.div_add_mod (den + num - 1) num
      have := Nat.mod_lt (den + num - 1) hnum'
      rw [Nat.mul_comm]
      omega
    have hpow := lt_pow_digitCount ((den + num - 1) / num - 1)
    have hle : den ≤ 10 ^ digitCount ((den + num - 1) / num - 1) * num :=
      hceil.trans (Nat.mul_le_mul_right _ (by omega))
    rw [zpow_neg, zpow_natCast, inv_eq_one_div, div_le_div_iff₀ (by positivity) hdenq, one_mul,
      mul_comm]
    exact_mod_cast hle

/-! ### The search -/

theorem reads_search (top : Int) : ∀ (n k : Nat), (∃ j, k ≤ j ∧ j < k + n ∧
    (onGrid? m q (top - (j : Int))).isSome) →
    Reads m q (search m q top n k).value ∧ (search m q top n k).digits ≠ 0
  | 0, k, ⟨j, hk, hj, _⟩ => by omega
  | n + 1, k, ⟨j, hk, hj, h⟩ => by
    rw [search]
    split
    · exact reads_onGrid? ‹_›
    · rename_i hnone
      refine reads_search top n (k + 1) ⟨j, ?_, by omega, h⟩
      by_contra hlt
      obtain rfl : j = k := by omega
      rw [hnone] at h
      cases h

/-- Seventeen digits suffice. -/
theorem onGrid?_seventeen (hm : m ≠ 0) (hc : IsCanonical m q) :
    (onGrid? m q (leadingPower m q - (17 : Nat))).isSome := by
  have hlead := pow_leadingPower_le (q := q) hm
  have hunitPos : (0 : ℚ) < 2 ^ (q - 2) := by positivity
  have hgrid : (10 : ℚ) ^ (leadingPower m q - (17 : Nat)) * 10 ^ 17 ≤ m * 2 ^ q := by
    rw [zpow_sub₀ (by norm_num), zpow_natCast]
    refine le_trans (le_of_eq ?_) hlead
    field_simp
  have hpos : (0 : ℚ) < 10 ^ (leadingPower m q - (17 : Nat)) := by positivity
  have hbound : (m : ℚ) + 1 ≤ 2 ^ 53 := by
    have : m + 1 ≤ 2 ^ 53 := hc.mantissa
    exact_mod_cast this
  have hsmall : (10 : ℚ) ^ (leadingPower m q - (17 : Nat)) < 2 ^ (q - 2) := by
    rw [two_zpow_eq q] at hgrid
    nlinarith
  refine onGrid?_isSome hm ?_ ?_
  · nlinarith
  · have hlow : ((bounds m q).1 : ℚ) ≤ 4 * m - 1 := by
      have : (bounds m q).1 + 1 ≤ 4 * m := by
        rw [bounds]
        split <;> dsimp only <;> omega
      have : ((bounds m q).1 : ℚ) + 1 ≤ 4 * m := by exact_mod_cast this
      linarith
    rw [two_zpow_eq q]
    nlinarith

/-! ### Zeros at the end -/

theorem strip_spec : ∀ (n : Nat) (d : Decimal),
    (strip n d).value = d.value ∧ (d.digits ≠ 0 → (strip n d).digits ≠ 0)
  | 0, d => ⟨rfl, id⟩
  | n + 1, d => by
    rw [strip]
    split
    · rename_i h
      simp only [Bool.and_eq_true, beq_iff_eq, decide_eq_true_eq] at h
      obtain ⟨hvalue, hne⟩ := strip_spec n ⟨d.digits / 10, d.exponent + 1⟩
      refine ⟨hvalue.trans ?_, fun _ => hne ?_⟩
      · have hdigits : (d.digits : ℚ) = 10 * (d.digits / 10 : Nat) := by
          have : d.digits = 10 * (d.digits / 10) := by omega
          exact_mod_cast this
        rw [value, value, zpow_add₀ (by norm_num), hdigits]
        ring
      · dsimp only
        omega
    · exact ⟨rfl, id⟩

/-- The shortest decimal of a number is read as the number. -/
theorem reads_shortest (hm : m ≠ 0) (hc : IsCanonical m q) :
    Reads m q (shortest m q).value ∧ (shortest m q).digits ≠ 0 := by
  obtain ⟨hreads, hne⟩ := reads_search (m := m) (q := q) (leadingPower m q) 18 0
    ⟨17, by omega, by omega, onGrid?_seventeen hm hc⟩
  obtain ⟨hvalue, hdigits⟩ := strip_spec 20 (search m q (leadingPower m q) 18 0)
  rw [shortest, hvalue]
  exact ⟨hreads, hdigits hne⟩

/-- A number is read as itself. -/
theorem reads_self (hm : m ≠ 0) : Reads m q ((m : ℚ) * 2 ^ q) := by
  have hunitPos : (0 : ℚ) < 2 ^ (q - 2) := by positivity
  have hlow : ((bounds m q).1 : ℚ) < 4 * m := by
    have : (bounds m q).1 < 4 * m := by
      rw [bounds]
      split <;> dsimp only <;> omega
    exact_mod_cast this
  have hhigh : (4 * m : ℚ) < (bounds m q).2 := by
    rw [bounds]
    push_cast
    linarith
  rw [Reads, two_zpow_eq q]
  exact ⟨.inl (by nlinarith), .inl (by nlinarith)⟩

end Decimal

end ScriptLang
