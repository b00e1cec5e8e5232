import ScriptLang.Proofs.Decimal.Numeral

/-!
# The texts of numbers are numerals

The text of a decimal, with or without an exponent, is a numeral that stands for the decimal, and it has no
zero in front (`Numeral.exists_positional`, `Numeral.exists_scientific`). So is the text of an integer that is
written in full. What stands for a number is in the number's interval, whichever way it is written
(`Number.exists_numeral`).
-/

namespace ScriptLang

namespace Text

theorem digitsValue_lt {t : Text} (ht : ∀ b ∈ t, isDigit b = true) : digitsValue t < 10 ^ t.length := by
  induction t with
  | nil => exact Nat.one_pos
  | cons b t ih =>
    obtain ⟨hb, ht⟩ := List.forall_mem_cons.1 ht
    have hdigit : b.toNat - 0x30 < 10 := by
      simp only [isDigit, Bool.and_eq_true, decide_eq_true_eq, UInt8.le_iff_toNat_le,
        UInt8.reduceToNat] at hb
      omega
    have hmul := Nat.mul_le_mul_right (10 ^ t.length) (Nat.succ_le_of_lt hdigit)
    rw [digitsValue_cons, List.length_cons, pow_succ]
    have := ih ht
    rw [Nat.succ_mul] at hmul
    omega

/-- A positive natural number is written without a zero in front. -/
theorem head?_ofNat {n : Nat} (hn : n ≠ 0) : (ofNat n).head? ≠ some 0x30 := by
  intro h
  obtain ⟨r, hr⟩ : ∃ r, ofNat n = 0x30 :: r := by
    cases hcons : ofNat n with
    | nil => exact absurd hcons (ofNat_ne_nil n)
    | cons b r =>
      rw [hcons] at h
      cases h
      exact ⟨r, rfl⟩
  have hdigits : ∀ b ∈ r, isDigit b = true := fun b hb =>
    isDigit_ofNat n b (hr ▸ List.mem_cons_of_mem _ hb)
  have hvalue : digitsValue r = n := by
    rw [← digitsValue_ofNat n, hr, digitsValue_cons]
    simp
  have hlength := length_ofNat hn
  rw [hr, List.length_cons] at hlength
  have hle := pow_digitCount_le hn
  rw [← hlength, Nat.add_sub_cancel] at hle
  have := digitsValue_lt hdigits
  omega

/-- Whether a text has the digits of a number, with no zero in front. -/
structure Spells (ds : Text) (n : Nat) : Prop where
  /-- There are digits. -/
  ne : ds ≠ []
  /-- There is nothing else. -/
  digit : ∀ b ∈ ds, isDigit b = true
  /-- They are read as the number. -/
  value : digitsValue ds = n
  /-- The first one is not zero. -/
  head : ds.head? ≠ some 0x30

theorem Spells.head_take {ds : Text} {n : Nat} (h : ds.Spells n) (k : Nat) :
    (ds.take k).head? = some 0x30 → ds.take k = [0x30] := by
  intro hhead
  rw [List.head?_take] at hhead
  split at hhead
  · cases hhead
  · exact absurd hhead h.head

theorem spells_ofNat {n : Nat} (hn : n ≠ 0) : (ofNat n).Spells n :=
  ⟨ofNat_ne_nil n, isDigit_ofNat n, digitsValue_ofNat n, head?_ofNat hn⟩

end Text

namespace Decimal

open Binary

/-- The first digit of a decimal. -/
theorem pow_power_le {d : Decimal} (hd : d.digits ≠ 0) :
    (10 : ℚ) ^ d.power ≤ d.value ∧ d.value < 10 ^ (d.power + 1) := by
  have hcount : 0 < digitCount d.digits := by
    by_contra hzero
    have := lt_pow_digitCount d.digits
    rw [Nat.eq_zero_of_not_pos hzero] at this
    omega
  have hscale : (0 : ℚ) < 10 ^ d.exponent := by positivity
  constructor
  · have hdigits : ((10 ^ (digitCount d.digits - 1) : Nat) : ℚ) ≤ d.digits := by
      exact_mod_cast pow_digitCount_le hd
    have hpower : d.power = (digitCount d.digits - 1 : Nat) + d.exponent := by
      rw [power]
      omega
    rw [value, hpower, zpow_add₀ (by norm_num), zpow_natCast]
    push_cast at hdigits
    exact mul_le_mul_of_nonneg_right hdigits hscale.le
  · have hdigits : (d.digits : ℚ) < ((10 ^ digitCount d.digits : Nat) : ℚ) := by
      exact_mod_cast lt_pow_digitCount d.digits
    have hpower : d.power + 1 = (digitCount d.digits : Nat) + d.exponent := by
      rw [power]
      omega
    rw [value, hpower, zpow_add₀ (by norm_num), zpow_natCast]
    push_cast at hdigits
    exact mul_lt_mul_of_pos_right hdigits hscale

/-- The first digit of what is read as a finite number is not too far from the point. -/
theorem power_natAbs_lt {d : Decimal} {m : Nat} {q : Int} (hm : m ≠ 0) (hc : IsCanonical m q)
    (hd : d.digits ≠ 0) (h : Reads m q d.value) : d.power.natAbs < 10000 := by
  have hten : (1 : ℚ) < 10 := by norm_num
  have hunit : (0 : ℚ) < 2 ^ q := by positivity
  obtain ⟨hfirst, hnext⟩ := pow_power_le hd
  have hlow : (2 : ℚ) ^ (-1075 : Int) ≤ d.value := by
    have hone : (1 : ℚ) ≤ m := by exact_mod_cast Nat.one_le_iff_ne_zero.2 hm
    have hhalf : (1 / 2 : ℚ) ≤ d.value / 2 ^ q := by
      rcases h.low hm with h | ⟨h, -⟩ <;> linarith
    have hleast : (2 : ℚ) ^ (-1074 : Int) ≤ 2 ^ q := zpow_le_zpow_right₀ (by norm_num) hc.least
    have hsplit : (2 : ℚ) ^ (-1075 : Int) = 1 / 2 * 2 ^ (-1074 : Int) := by
      rw [show (-1075 : Int) = -1 + -1074 by norm_num, zpow_add₀ (by norm_num)]
      norm_num
    rw [le_div_iff₀ hunit] at hhalf
    linarith
  have hhigh : d.value ≤ (2 : ℚ) ^ (1024 : Int) := by
    have hmantissa : (m : ℚ) + 1 ≤ 2 ^ 53 := by
      have : m + 1 ≤ 2 ^ 53 := hc.mantissa
      exact_mod_cast this
    have hhalf : d.value / 2 ^ q ≤ 2 ^ 53 := by
      rcases h.high with h | ⟨h, -⟩ <;> linarith
    have hgreatest : (2 : ℚ) ^ q ≤ 2 ^ (971 : Int) := zpow_le_zpow_right₀ (by norm_num) hc.greatest
    have hsplit : (2 : ℚ) ^ (1024 : Int) = 2 ^ 53 * 2 ^ (971 : Int) := by
      rw [show (1024 : Int) = 53 + 971 by norm_num, zpow_add₀ (by norm_num)]
      norm_num
    rw [div_le_iff₀ hunit] at hhalf
    rw [hsplit]
    linarith
  -- powers of ten are further from one than powers of two
  have hup : (2 : ℚ) ^ (1024 : Int) ≤ 10 ^ (1024 : Int) :=
    zpow_le_zpow_left₀ (by norm_num) (by norm_num) (by norm_num)
  have hdown : (10 : ℚ) ^ (-1075 : Int) ≤ 2 ^ (-1075 : Int) := by
    rw [zpow_neg, zpow_neg]
    exact inv_anti₀ (by positivity) (zpow_le_zpow_left₀ (by norm_num) (by norm_num) (by norm_num))
  have hle := (zpow_le_zpow_iff_right₀ hten).1 (hfirst.trans (hhigh.trans hup))
  have hlt := (zpow_lt_zpow_iff_right₀ hten).1 ((hdown.trans hlow).trans_lt hnext)
  omega

end Decimal

namespace Numeral

variable {p : Numeral} {t whole places : Text} {e : Option (Bool × Text)} {x : ℚ}

/-- Whether a numeral is the text of a number and has no zero in front. -/
structure Writes (p : Numeral) (t : Text) (x : ℚ) : Prop where
  /-- The parts are what they must be. -/
  proper : p.Proper
  /-- Only a single zero starts with a zero. -/
  leads : p.whole.head? = some 0x30 → p.whole = [0x30]
  /-- The text. -/
  text : p.text = t
  /-- The number, which may have a sign in addition. -/
  value : p.value = x

/-- A numeral without sign and exponent. -/
theorem text_plain : (Numeral.mk false whole places none).text =
    if places = [] then whole else whole ++ 0x2e :: places := by
  change whole ++ (fraction places ++ []) = _
  rw [List.append_nil, fraction]
  split
  · exact List.append_nil _
  · rfl

theorem value_plain : (Numeral.mk false whole places none).value =
    (Text.digitsValue (whole ++ places) : ℚ) / 10 ^ places.length := by
  change (Text.digitsValue (whole ++ places) : ℚ) * 10 ^ (0 - (places.length : Int)) = _
  rw [zero_sub, zpow_neg, zpow_natCast]
  rfl

theorem proper_plain (hne : whole ≠ []) (hw : ∀ b ∈ whole, Text.isDigit b = true)
    (hp : ∀ b ∈ places, Text.isDigit b = true) : (Numeral.mk false whole places none).Proper :=
  ⟨hne, hw, hp, nofun⟩

/-- A minus sign in front. -/
theorem Writes.negated (h : (Numeral.mk false whole places e).Writes t x) :
    (Numeral.mk true whole places e).Writes (0x2d :: t) x where
  proper := ⟨h.proper.whole_ne, h.proper.whole, h.proper.places, h.proper.exponent⟩
  leads := h.leads
  text := congrArg (0x2d :: ·) h.text
  value := h.value

theorem writes_ofNat (n : Nat) : (Numeral.mk false (Text.ofNat n) [] none).Writes (Text.ofNat n) n where
  proper := proper_plain (Text.ofNat_ne_nil n) (Text.isDigit_ofNat n) (List.forall_mem_nil _)
  leads h := by
    obtain rfl : n = 0 := by
      by_contra hn
      exact Text.head?_ofNat hn h
    rfl
  text := text_plain
  value := by
    rw [value_plain, List.append_nil, Text.digitsValue_ofNat]
    simp

section

variable {ds : Text} {n : Nat}

/-- All digits stand after the point. -/
theorem writes_below (h : ds.Spells n) (k : Nat) :
    (Numeral.mk false [0x30] (Layout.zeros k ++ ds) none).Writes (Text.ofString "0." ++ Layout.zeros k ++ ds)
      (n / 10 ^ (k + ds.length)) := by
  have hdigits : ∀ b ∈ Layout.zeros k ++ ds, Text.isDigit b = true := fun b hb =>
    (List.mem_append.1 hb).elim (Text.isDigit_zeros k b) (h.digit b)
  refine ⟨proper_plain (List.cons_ne_nil _ _) (List.forall_mem_singleton.2 rfl) hdigits, fun _ => rfl, ?_, ?_⟩
  · rw [text_plain, if_neg (List.append_ne_nil_of_right_ne_nil _ h.ne)]
    exact (List.append_assoc (Text.ofString "0.") _ _).symm
  · have hzero : Text.digitsValue [0x30] = 0 := rfl
    rw [value_plain, Text.digitsValue_append, Text.digitsValue_append, Text.digitsValue_zeros, h.value,
      hzero, Nat.zero_mul, Nat.zero_mul, Nat.zero_add, Nat.zero_add, List.length_append, Layout.zeros,
      List.length_replicate]

/-- All digits stand before the point. -/
theorem writes_above (h : ds.Spells n) (k : Nat) :
    (Numeral.mk false (ds ++ Layout.zeros k) [] none).Writes (ds ++ Layout.zeros k) (n * 10 ^ k) := by
  have hdigits : ∀ b ∈ ds ++ Layout.zeros k, Text.isDigit b = true := fun b hb =>
    (List.mem_append.1 hb).elim (h.digit b) (Text.isDigit_zeros k b)
  refine ⟨proper_plain (List.append_ne_nil_of_left_ne_nil h.ne _) hdigits (List.forall_mem_nil _),
    fun hhead => ?_, text_plain, ?_⟩
  · exact absurd (List.head?_append_of_ne_nil _ h.ne ▸ hhead) h.head
  · rw [value_plain, List.append_nil, Text.digitsValue_append, Text.digitsValue_zeros, h.value,
      Layout.zeros, List.length_replicate]
    simp

/-- The point stands among the digits. -/
theorem writes_among (h : ds.Spells n) {k : Nat} (hpos : 0 < k) (hlt : k < ds.length) :
    (Numeral.mk false (ds.take k) (ds.drop k) none).Writes (ds.take k ++ Text.ofString "." ++ ds.drop k)
      (n / 10 ^ (ds.length - k)) := by
  have hwhole : ds.take k ≠ [] := by
    rw [Ne, List.take_eq_nil_iff]
    exact not_or.2 ⟨Nat.ne_of_gt hpos, h.ne⟩
  refine ⟨proper_plain hwhole (fun b hb => h.digit b (List.mem_of_mem_take hb))
    fun b hb => h.digit b (List.mem_of_mem_drop hb), h.head_take k, ?_, ?_⟩
  · rw [text_plain, if_neg (by rw [List.drop_eq_nil_iff]; omega)]
    exact (List.append_assoc _ (Text.ofString ".") _).symm
  · rw [value_plain, List.take_append_drop, h.value, List.length_drop]

end

/-- The text of a decimal without exponent stands for the decimal. -/
theorem exists_positional {d : Decimal} (hd : d.digits ≠ 0) : ∃ whole places,
    (Numeral.mk false whole places none).Writes (Layout.positional d) d.value := by
  have hlen := Text.length_ofNat hd
  have hds := Text.spells_ofNat hd
  rw [Layout.positional, Layout.digits, Decimal.power]
  generalize Text.ofNat d.digits = ds at hlen hds ⊢
  have hdivide {k : Nat} (hk : d.exponent = -(k : Int)) : (d.digits : ℚ) / 10 ^ k = d.value := by
    rw [Decimal.value, hk, zpow_neg, zpow_natCast]
    rfl
  split
  · next hpoint =>
    have hwrites := writes_below hds (-(d.exponent + digitCount d.digits - 1 + 1)).toNat
    rw [hdivide (by omega)] at hwrites
    exact ⟨_, _, hwrites⟩
  split
  · next hpoint =>
    obtain ⟨k, hk⟩ : ∃ k : Nat, d.exponent = k := ⟨d.exponent.toNat, by omega⟩
    have hmultiply : (d.digits : ℚ) * 10 ^ k = d.value := by rw [Decimal.value, hk, zpow_natCast]
    have hzeros : (d.exponent + digitCount d.digits - 1 + 1).toNat - ds.length = k := by omega
    rw [hzeros]
    exact ⟨_, _, hmultiply ▸ writes_above hds k⟩
  · next hlow hhigh =>
    have hwrites := writes_among (k := (d.exponent + digitCount d.digits - 1 + 1).toNat) hds (by omega)
      (by omega)
    rw [hdivide (by omega)] at hwrites
    exact ⟨_, _, hwrites⟩

/-- The part after the first digit. -/
theorem fraction_tail (ds : Text) :
    (if ds.length > 1 then Text.ofString "." ++ ds.drop 1 else []) = fraction (ds.drop 1) := by
  rw [fraction]
  by_cases hone : ds.length > 1
  · rw [if_pos hone, if_neg (by rw [List.drop_eq_nil_iff]; omega)]
    rfl
  · rw [if_neg hone, if_pos (by rw [List.drop_eq_nil_iff]; omega)]

/-- The sign of an exponent and its size. -/
theorem mark_sign (e : Int) (size : Text) :
    (if e < 0 then Text.ofString "e-" else Text.ofString "e+") ++ size =
      mark (some (decide (e < 0), size)) := by
  rw [mark]
  by_cases hneg : e < 0
  · rw [if_pos hneg, decide_eq_true hneg, if_pos rfl]
    rfl
  · rw [if_neg hneg, decide_eq_false hneg, if_neg Bool.false_ne_true]
    rfl

theorem power_sign {e : Int} {size : Text} (h : Text.digitsValue size = e.natAbs) :
    power (some (decide (e < 0), size)) = e := by
  simp only [power, decide_eq_true_eq, h]
  split <;> omega

/-- The text of a decimal with an exponent stands for the decimal. -/
theorem exists_scientific {d : Decimal} (hd : d.digits ≠ 0) (hpower : d.power.natAbs < 10000)
    (width : Int → Nat) : ∃ whole places e,
      (Numeral.mk false whole places e).Writes (Layout.scientific width d) d.value := by
  have hlen := Text.length_ofNat hd
  have hds := Text.spells_ofNat hd
  rw [Layout.scientific, Layout.digits]
  generalize Text.ofNat d.digits = ds at hlen hds ⊢
  have hcount : 0 < ds.length := List.length_pos_iff.2 hds.ne
  obtain ⟨size, hsize⟩ : ∃ t, Layout.zeros (width d.power - (Text.ofNat d.power.natAbs).length) ++
      Text.ofNat d.power.natAbs = t := ⟨_, rfl⟩
  have hsizeNe : size ≠ [] := hsize ▸ List.append_ne_nil_of_right_ne_nil _ (Text.ofNat_ne_nil _)
  have hsizeDigit : ∀ b ∈ size, Text.isDigit b = true := fun b hb =>
    (List.mem_append.1 (hsize ▸ hb)).elim (Text.isDigit_zeros _ b) (Text.isDigit_ofNat _ b)
  have hsizeValue : Text.digitsValue size = d.power.natAbs := by
    rw [← hsize, Text.digitsValue_append, Text.digitsValue_zeros, Text.digitsValue_ofNat, Nat.zero_mul,
      Nat.zero_add]
  have hwhole : ds.take 1 ≠ [] := by
    rw [Ne, List.take_eq_nil_iff]
    exact not_or.2 ⟨Nat.one_ne_zero, hds.ne⟩
  refine ⟨ds.take 1, ds.drop 1, some (decide (d.power < 0), size),
    ⟨hwhole, fun b hb => hds.digit b (List.mem_of_mem_take hb),
      fun b hb => hds.digit b (List.mem_of_mem_drop hb), ?_⟩,
    hds.head_take 1, ?_, ?_⟩
  · intro negative ds' h
    cases h
    exact ⟨hsizeNe, hsizeDigit, hsizeValue ▸ hpower⟩
  · change ds.take 1 ++ (fraction (ds.drop 1) ++ mark (some (decide (d.power < 0), size))) = _
    rw [← fraction_tail, ← mark_sign, ← hsize]
    simp only [List.append_assoc]
  · have hscale : power (some (decide (d.power < 0), size)) - ((ds.drop 1).length : Int) = d.exponent := by
      rw [power_sign hsizeValue, List.length_drop, hlen, Decimal.power]
      omega
    change (Text.digitsValue (ds.take 1 ++ ds.drop 1) : ℚ) *
      10 ^ (power (some (decide (d.power < 0), size)) - ((ds.drop 1).length : Int)) = _
    rw [hscale, List.take_append_drop, hds.value, Decimal.value]

/-- The text of a decimal under a layout stands for the decimal. -/
theorem exists_layout (l : Layout) {d : Decimal} (hd : d.digits ≠ 0) (hpower : d.power.natAbs < 10000) :
    ∃ whole places e, (Numeral.mk false whole places e).Writes
        (if l.usesExponent d.power then Layout.scientific l.exponentDigits d else Layout.positional d)
        d.value ∧
      ((∀ x, l.usesExponent x = false) → e = none) := by
  by_cases huses : l.usesExponent d.power = true
  · rw [if_pos huses]
    obtain ⟨whole, places, e, hwrites⟩ := exists_scientific hd hpower l.exponentDigits
    exact ⟨whole, places, e, hwrites, fun h => absurd huses (by rw [h]; exact Bool.false_ne_true)⟩
  · rw [if_neg huses]
    obtain ⟨whole, places, hwrites⟩ := exists_positional hd
    exact ⟨whole, places, none, hwrites, fun _ => rfl⟩

/-- An integer is written as its size, after a minus sign if it is negative. -/
theorem exists_ofInt (negative : Bool) (size : Nat) : ∃ whole,
    (Numeral.mk (negative && size != 0) whole [] none).Writes
      (Text.ofInt (if negative then -size else size)) size := by
  cases negative with
  | false => exact ⟨_, writes_ofNat size⟩
  | true =>
    cases size with
    | zero => exact ⟨_, writes_ofNat 0⟩
    | succ n => exact ⟨_, (writes_ofNat (n + 1)).negated⟩

end Numeral

namespace Number

/-- A whole number that is small enough is written in full, and zero always is. -/
theorem integerText?_spec {limit : Nat} (hlimit : 0 < limit) {v : Float} {negative : Bool} {m : Nat}
    {q : Int} (hv : Binary.ofFloat v = .finite negative m q) :
    (∃ size : Nat, (size : ℚ) = m * 2 ^ q ∧
      integerText? limit v = some (Text.ofInt (if negative then -size else size))) ∨
    (m ≠ 0 ∧ integerText? limit v = none) := by
  rw [integerText?, truncate?, isWhole, hv]
  dsimp only
  obtain ⟨size, hsize⟩ : ∃ n, (if q ≥ 0 then m * Nat.pow 2 q.toNat else m / Nat.pow 2 (-q).toNat) = n :=
    ⟨_, rfl⟩
  have habs : (if negative then -(size : Int) else size).natAbs = size := by split <;> simp
  rw [hsize, habs]
  by_cases hcond : ((decide (q ≥ 0) || m % Nat.pow 2 (-q).toNat == 0) && decide (size < limit)) = true
  · refine .inl ⟨size, ?_, if_pos hcond⟩
    simp only [Bool.and_eq_true, Bool.or_eq_true, decide_eq_true_eq, beq_iff_eq] at hcond
    rw [← hsize, Binary.zpow_eq_div 2 q]
    by_cases hq : q ≥ 0
    · rw [if_pos hq, show (-q).toNat = 0 by omega]
      simp
    · have hdvd : Nat.pow 2 (-q).toNat ∣ m := Nat.dvd_of_mod_eq_zero (hcond.1.resolve_left hq)
      rw [if_neg hq, Nat.cast_div hdvd (by simp), show q.toNat = 0 by omega]
      simp [div_eq_mul_inv]
  · refine .inr ⟨?_, if_neg hcond⟩
    rintro rfl
    have hzero : size = 0 := by
      rw [← hsize]
      simp
    rw [hzero] at hcond
    simp [hlimit] at hcond

/-- An integer below a limit is written in full, any other number under a layout. The text stands for a
fraction in the interval of the number, apart from the sign of zero, which is lost. -/
theorem exists_numeral (l : Layout) {limit : Nat} (hlimit : 0 < limit) {v : Float} {negative : Bool}
    {m : Nat} {q : Int} (hv : Binary.ofFloat v = .finite negative m q) :
    ∃ (whole places : Text) (e : Option (Bool × Text)) (x : ℚ),
      (Numeral.mk (negative && m != 0) whole places e).Writes ((integerText? limit v).getD (l.write v)) x ∧
      (m = 0 → x = 0) ∧ (m ≠ 0 → Decimal.Reads m q x) ∧ ((∀ i, l.usesExponent i = false) → e = none) := by
  obtain ⟨size, hexact, htext⟩ | ⟨hm, hnone⟩ := integerText?_spec hlimit hv
  · have hiff : size = 0 ↔ m = 0 := by
      have hunit : (2 : ℚ) ^ q ≠ 0 := by positivity
      have hcast : (size : ℚ) = 0 ↔ (m : ℚ) = 0 := by rw [hexact, mul_eq_zero, or_iff_left hunit]
      exact_mod_cast hcast
    have hsign : (negative && size != 0) = (negative && m != 0) := by
      rw [Bool.eq_iff_iff]
      simp [hiff]
    obtain ⟨whole, hwrites⟩ := Numeral.exists_ofInt negative size
    rw [htext, Option.getD_some]
    exact ⟨whole, [], none, size, hsign ▸ hwrites, fun hm => by rw [hiff.2 hm, Nat.cast_zero],
      fun hm => hexact ▸ Decimal.reads_self hm, fun _ => rfl⟩
  · have hc := (Binary.toFloat_of_ofFloat hv).1
    obtain ⟨hreads, hdigits⟩ := Decimal.reads_shortest hm hc
    obtain ⟨whole, places, e, hwrites, hplain⟩ :=
      Numeral.exists_layout l hdigits (Decimal.power_natAbs_lt hm hc hdigits hreads)
    have hsign : (negative && m != 0) = negative := by simp [hm]
    rw [hnone, Option.getD_none, Layout.write, hv, hsign]
    dsimp only
    rw [if_neg (by simpa using hm)]
    cases negative with
    | false => exact ⟨whole, places, e, _, hwrites, fun h => absurd h hm, fun _ => hreads, hplain⟩
    | true => exact ⟨whole, places, e, _, hwrites.negated, fun h => absurd h hm, fun _ => hreads, hplain⟩

end Number

end ScriptLang
