import Mathlib.Algebra.Order.Field.Power
import Mathlib.Data.Rat.Cast.Order
import Mathlib.Tactic.Linarith
import Mathlib.Tactic.NormNum
import Mathlib.Tactic.Positivity
import Mathlib.Tactic.Ring
import ScriptLang.Proofs.Decimal.Bits
import ScriptLang.Proofs.Decimal.Rounding
import ScriptLang.Store.Basic

/-!
# The values of numbers

A finite number has a rational number for its value. Both ways to take a number apart agree on it
(`ofFloat_eq_partsOf`), and it is what a number that is put together from its parts has again
(`unpack_pack`). Finite numbers are equal, and one is smaller than another, as their values are
(`Holds.beq_iff`, `Holds.lt_iff`).

A number is an integer if it is finite and has no fraction, which is just when its value is one
(`Number.isInt_iff`). A value of the language leads to an integer if that is what is left of it without
annotations and references.
-/

namespace ScriptLang.Number

open Float.Model (UnpackedFloat Format)
open Float.Model.UnpackedFloat Binary

/-! ### Numbers that are taken apart -/

/-- The parts of a number that is taken apart. -/
def partsOf : UnpackedFloat → Binary
  | .notANumber => .nan
  | .infinity s => .infinite (s == .negative)
  | .zero s => .finite (s == .negative) 0 minExponent
  | .finite s m q _ => .finite (s == .negative) m q

theorem negative_unpackSign (b : BitVec 64) :
    (Sign.ofBitVec (@unpackSign Format.binary64 b) == .negative) = (b.toNat / signBit == 1) := by
  have hsign := signPart_unpackSign b
  have hlt : b.toNat < 2 ^ 64 := b.isLt
  cases hs : Sign.ofBitVec (@unpackSign Format.binary64 b) with
  | negative =>
    rw [hs] at hsign
    have hone : signPart .negative = signBit := rfl
    rw [hone, signBit] at hsign
    have hb : b.toNat / signBit = 1 := by
      rw [signBit]
      omega
    rw [hb]
    rfl
  | positive =>
    rw [hs] at hsign
    have hzero : signPart .positive = 0 := rfl
    rw [hzero, signBit] at hsign
    have hb : b.toNat / signBit = 0 := by
      rw [signBit]
      omega
    rw [hb]
    rfl

/-- Both ways to take a number apart give the same parts. -/
theorem ofFloat_eq_partsOf (x : Float) : ofFloat x = partsOf x.toModel.unpack := by
  have hm : (@unpackMantissa Format.binary64 x.toBits.toBitVec).toNat =
      x.toBits.toNat % hiddenBit := toNat_unpackMantissa _
  have he : (@unpackExponent Format.binary64 x.toBits.toBitVec).toNat =
      x.toBits.toNat / hiddenBit % 2048 := toNat_unpackExponent _
  have hs : (Sign.ofBitVec (@unpackSign Format.binary64 x.toBits.toBitVec) == .negative) =
      (x.toBits.toNat / signBit == 1) := negative_unpackSign _
  have hmzero : @unpackMantissa Format.binary64 x.toBits.toBitVec = 0#52 ↔
      x.toBits.toNat % hiddenBit = 0 := by
    rw [← BitVec.toNat_inj, hm]
    rfl
  have hezero : @unpackExponent Format.binary64 x.toBits.toBitVec = 0#11 ↔
      x.toBits.toNat / hiddenBit % 2048 = 0 := by
    rw [← BitVec.toNat_inj, he]
    rfl
  have hemax : @unpackExponent Format.binary64 x.toBits.toBitVec = -1#11 ↔
      x.toBits.toNat / hiddenBit % 2048 = 2047 := by
    rw [← BitVec.toNat_inj, he]
    rfl
  have hmant : (1#1 ++ @unpackMantissa Format.binary64 x.toBits.toBitVec).toNat =
      hiddenBit + x.toBits.toNat % hiddenBit := by
    rw [toNat_append, hm]
    rfl
  change _ = partsOf (UnpackedFloat.unpack Format.binary64 x.toBits.toBitVec)
  delta UnpackedFloat.unpack
  dsimp only
  unfold ofFloat
  dsimp only
  by_cases hmax : x.toBits.toNat / hiddenBit % 2048 = 2047
  · rw [if_pos (beq_iff_eq.2 hmax), if_pos (hemax.2 hmax)]
    by_cases hfraction : x.toBits.toNat % hiddenBit = 0
    · rw [if_pos (beq_iff_eq.2 hfraction), if_pos (hmzero.2 hfraction)]
      dsimp only [partsOf]
      rw [hs]
    · rw [if_neg (mt beq_iff_eq.1 hfraction), if_neg (mt hmzero.1 hfraction)]
      rfl
  rw [if_neg (mt beq_iff_eq.1 hmax), if_neg (mt hemax.1 hmax)]
  by_cases hzero : x.toBits.toNat / hiddenBit % 2048 = 0
  · rw [if_pos (beq_iff_eq.2 hzero), if_pos (hezero.2 hzero)]
    by_cases hfraction : x.toBits.toNat % hiddenBit = 0
    · rw [dif_pos (hmzero.2 hfraction)]
      dsimp only [partsOf]
      rw [hs, hfraction]
    · rw [dif_neg (mt hmzero.1 hfraction)]
      dsimp only [partsOf]
      rw [hs, hm, he, hzero]
      rfl
  · rw [if_neg (mt beq_iff_eq.1 hzero), if_neg (mt hezero.1 hzero)]
    dsimp only [partsOf]
    rw [hs, hmant, he]
    rfl

/-! ### Values -/

/-- What a finite number that is taken apart is made of. -/
def Canonical : UnpackedFloat → Prop
  | .zero _ => True
  | .finite _ m q _ => IsCanonical m q
  | _ => False

/-- The value of a number that is taken apart. -/
def valueOf : UnpackedFloat → ℚ
  | .finite s m q _ => (s.apply m : ℤ) * 2 ^ q
  | _ => 0

theorem valueOf_finite {s : Sign} {m : ℕ} {q : ℤ} {hp : 0 < m} :
    valueOf (.finite s m q hp) = (s.apply m : ℤ) * 2 ^ q :=
  rfl

/-- Whether a number is finite and has the value `v`. -/
structure Holds (x : Float) (v : ℚ) : Prop where
  canonical : Canonical x.toModel.unpack
  value : valueOf x.toModel.unpack = v

theorem partsOf_injective {a b : UnpackedFloat} (h : partsOf a = partsOf b) : a = b := by
  have hsign {s s' : Sign} (hs : (s == .negative) = (s' == .negative)) : s = s' := by
    cases s <;> cases s' <;> first | rfl | cases hs
  cases a <;> cases b <;> dsimp only [partsOf] at h <;>
    simp only [Binary.finite.injEq, Binary.infinite.injEq, reduceCtorEq] at h
  case infinity => rw [hsign h]
  case notANumber => rfl
  case zero.zero => rw [hsign h.1]
  case zero.finite hp => omega
  case finite.zero hp => omega
  case finite.finite =>
    obtain ⟨hs, rfl, rfl⟩ := h
    rw [hsign hs]

/-- The parts of a finite number, from its bits. -/
theorem ofFloat_of_toNat {x : Float} {s : Sign} {e f : ℕ} (he : e < 2047) (hf : f < hiddenBit)
    (h : x.toBits.toNat = signPart s + (e * hiddenBit + f)) :
    ofFloat x = if e = 0 then .finite (s == .negative) f minExponent
      else .finite (s == .negative) (hiddenBit + f) ((e : ℤ) - 1075) := by
  obtain ⟨k, hk, hpart, hs⟩ : ∃ k ≤ 1, signPart s = k * signBit ∧ (k == 1) = (s == .negative) := by
    cases s
    · exact ⟨1, le_rfl, rfl, rfl⟩
    · exact ⟨0, Nat.zero_le 1, rfl, rfl⟩
  rw [hpart] at h
  have hsign : x.toBits.toNat / signBit = k := by
    rw [h]
    unfold signBit hiddenBit at *
    omega
  have hscale : x.toBits.toNat / hiddenBit % 2048 = e := by
    rw [h]
    unfold signBit hiddenBit at *
    omega
  have hfraction : x.toBits.toNat % hiddenBit = f := by
    rw [h]
    unfold signBit hiddenBit at *
    omega
  have hfinite : ¬e = 2047 := by omega
  unfold ofFloat
  dsimp only
  rw [hsign, hscale, hfraction, hs]
  simp only [beq_iff_eq, if_neg hfinite]

theorem ofFloat_pack {u : UnpackedFloat} (h : Canonical u) :
    ofFloat ⟨Float.Model.pack u⟩ = partsOf u := by
  cases u with
  | notANumber => exact h.elim
  | infinity s => exact h.elim
  | zero s =>
    have hbits : (⟨Float.Model.pack (.zero s)⟩ : Float).toBits.toNat =
        signPart s + (0 * hiddenBit + 0) := toNat_packComponents s 0 0
    rw [ofFloat_of_toNat (by decide) (by decide) hbits]
    rfl
  | finite s m q hp =>
    have hcanonical : IsCanonical m q := h
    by_cases hlow : m < hiddenBit
    · obtain rfl := hcanonical.subnormal hlow
      have hbits : (⟨Float.Model.pack (.finite s m minExponent hp)⟩ : Float).toBits.toNat =
          signPart s + (0 * hiddenBit + m) := by
        rw [Nat.zero_mul, Nat.zero_add]
        exact toNat_pack_subnormal hp hlow
      rw [ofFloat_of_toNat (by decide) hlow hbits]
      rfl
    · have hleast := hcanonical.least
      have hgreatest := hcanonical.greatest
      have hmant := hcanonical.mantissa
      unfold minExponent at hleast
      unfold maxExponent at hgreatest
      obtain ⟨e, rfl⟩ : ∃ e : ℕ, q = (e : ℤ) - 1075 := ⟨(q + 1075).toNat, by omega⟩
      have hf : m - hiddenBit < hiddenBit := by
        unfold mantissaCount at hmant
        unfold hiddenBit
        omega
      have hm : m = hiddenBit + (m - hiddenBit) := by omega
      have hbits : (⟨Float.Model.pack (.finite s m ((e : ℤ) - 1075) hp)⟩ : Float).toBits.toNat =
          signPart s + (e * hiddenBit + (m - hiddenBit)) :=
        toNat_pack_normal (by omega) (by omega) hf hm hp
      rw [ofFloat_of_toNat (by omega) hf hbits, if_neg (by omega), ← hm]
      rfl

/-- The number that is put together from parts is taken apart to the same parts. -/
theorem unpack_pack {u : UnpackedFloat} (h : Canonical u) : (Float.Model.pack u).unpack = u := by
  apply partsOf_injective
  rw [← ofFloat_pack h]
  exact (ofFloat_eq_partsOf ⟨Float.Model.pack u⟩).symm

/-- A greater exponent makes a number greater, whatever the mantissas are. -/
theorem magnitude_lt {m m' : ℕ} {q q' : ℤ} (h : IsCanonical m q) (h' : IsCanonical m' q')
    (hlt : q < q' ∨ q = q' ∧ m < m') : (m : ℚ) * 2 ^ q < m' * 2 ^ q' := by
  obtain hq | ⟨rfl, hm⟩ := hlt
  · have hfull : hiddenBit ≤ m' := by
      by_contra hlow
      have := h'.subnormal (Nat.lt_of_not_le hlow)
      have := h.least
      omega
    have hm : (m : ℚ) < mantissaCount := by exact_mod_cast h.mantissa
    have hm' : (hiddenBit : ℚ) ≤ m' := by exact_mod_cast hfull
    have hdouble : (mantissaCount : ℚ) = 2 * hiddenBit := by norm_num [mantissaCount, hiddenBit]
    calc (m : ℚ) * 2 ^ q < mantissaCount * 2 ^ q := by gcongr
      _ = hiddenBit * 2 ^ (q + 1) := by
        rw [hdouble, zpow_add_one₀ (by norm_num)]
        ring
      _ ≤ m' * 2 ^ q' := by
        gcongr
        · norm_num
        · omega
  · gcongr

theorem magnitude_pos {m : ℕ} {q : ℤ} (hp : 0 < m) : (0 : ℚ) < m * 2 ^ q := by positivity

/-- What comes first among the places has the smaller value. -/
theorem valueOf_lt {a b : UnpackedFloat} (ha : Canonical a) (hb : Canonical b)
    (h : placeOf a < placeOf b) : valueOf a < valueOf b := by
  cases a with
  | notANumber => exact ha.elim
  | infinity s => exact ha.elim
  | zero s =>
    cases b with
    | notANumber => exact hb.elim
    | infinity s' => exact hb.elim
    | zero s' => exact absurd h (lt_irrefl [(0 : ℤ)])
    | finite s' m' q' hp' =>
      have hpos := magnitude_pos (q := q') hp'
      cases s' <;> dsimp only [placeOf, valueOf, Canonical] at * <;>
        simp_all [Sign.apply, List.cons_lt_cons_iff]
  | finite s m q hp =>
    have hpos := magnitude_pos (q := q) hp
    cases b with
    | notANumber => exact hb.elim
    | infinity s' => exact hb.elim
    | zero s' =>
      cases s <;> dsimp only [placeOf, valueOf, Canonical] at * <;>
        simp_all [Sign.apply, List.cons_lt_cons_iff]
    | finite s' m' q' hp' =>
      have hpos' := magnitude_pos (q := q') hp'
      cases s <;> cases s' <;> dsimp only [placeOf, valueOf] at h ⊢ <;>
        simp [Sign.apply, List.cons_lt_cons_iff] at h ⊢
      case negative.negative =>
        have hlt : q' < q ∨ q' = q ∧ m' < m := h.imp_right (And.imp_left Eq.symm)
        exact magnitude_lt hb ha hlt
      case negative.positive => linarith
      case positive.positive => exact magnitude_lt ha hb h

theorem valueOf_eq {a b : UnpackedFloat} (ha : Canonical a) (hb : Canonical b)
    (h : placeOf a = placeOf b) : valueOf a = valueOf b := by
  cases a with
  | notANumber => exact ha.elim
  | infinity s => exact ha.elim
  | zero s =>
    cases b with
    | notANumber => exact hb.elim
    | infinity s' => exact hb.elim
    | zero s' => rfl
    | finite s' => cases s' <;> cases h
  | finite s =>
    cases b with
    | notANumber => exact hb.elim
    | infinity s' => exact hb.elim
    | zero s' => cases s <;> cases h
    | finite s' =>
      cases s <;> cases s' <;> dsimp only [placeOf, valueOf, Canonical] at * <;> simp_all

variable {x y : Float} {v w : ℚ}

theorem Canonical.ne_notANumber {u : UnpackedFloat} (h : Canonical u) : u ≠ .notANumber := by
  rintro rfl
  exact h

/-- Numbers are in the order of their values. -/
theorem Holds.lt_iff (hx : Holds x v) (hy : Holds y w) : x < y ↔ v < w := by
  rw [Number.lt_iff (isNaN_iff.2 hx.canonical.ne_notANumber) (isNaN_iff.2 hy.canonical.ne_notANumber),
    ← hx.value, ← hy.value]
  constructor
  · exact valueOf_lt hx.canonical hy.canonical
  · intro hlt
    obtain h | h | h := lt_trichotomy (place x) (place y)
    · exact h
    · exact absurd hlt (valueOf_eq hx.canonical hy.canonical h).not_lt
    · exact absurd hlt (valueOf_lt hy.canonical hx.canonical h).not_gt

/-- Numbers are equal if they have the same value. -/
theorem Holds.beq_iff (hx : Holds x v) (hy : Holds y w) : (x == y) = true ↔ v = w := by
  rw [Number.beq_iff (isNaN_iff.2 hx.canonical.ne_notANumber) (isNaN_iff.2 hy.canonical.ne_notANumber),
    ← hx.value, ← hy.value]
  constructor
  · exact valueOf_eq hx.canonical hy.canonical
  · intro heq
    obtain h | h | h := lt_trichotomy (place x) (place y)
    · exact absurd heq (valueOf_lt hx.canonical hy.canonical h).ne
    · exact h
    · exact absurd heq (valueOf_lt hy.canonical hx.canonical h).ne'

/-! ### Values from parts -/

/-- The value of a finite number, from its parts. -/
def partsValue? : Binary → Option ℚ
  | .finite negative m q => some (if negative then -(m * 2 ^ q : ℚ) else m * 2 ^ q)
  | _ => none

theorem partsValue?_partsOf {u : UnpackedFloat} (h : Canonical u) :
    partsValue? (partsOf u) = some (valueOf u) := by
  cases u with
  | notANumber => exact h.elim
  | infinity s => exact h.elim
  | zero s =>
    dsimp only [partsOf, valueOf]
    cases s <;> simp [partsValue?]
  | finite s m q hp =>
    cases s
    · have hneg : (Sign.negative == Sign.negative) = true := rfl
      dsimp only [partsOf, valueOf]
      rw [hneg]
      simp [partsValue?, Sign.apply]
    · have hneg : (Sign.positive == Sign.negative) = false := rfl
      dsimp only [partsOf, valueOf]
      rw [hneg]
      simp [partsValue?, Sign.apply]

theorem holds_iff : Holds x v ↔ partsValue? (ofFloat x) = some v := by
  constructor
  · intro h
    rw [ofFloat_eq_partsOf, partsValue?_partsOf h.canonical, h.value]
  · intro h
    have hcanonical : Canonical x.toModel.unpack := by
      cases hparts : ofFloat x with
      | nan =>
        rw [hparts] at h
        cases h
      | infinite s =>
        rw [hparts] at h
        cases h
      | finite negative m q =>
        obtain ⟨hcanonical, -⟩ := toFloat_of_ofFloat hparts
        rw [ofFloat_eq_partsOf] at hparts
        cases hu : x.toModel.unpack with
        | notANumber =>
          rw [hu] at hparts
          cases hparts
        | infinity s =>
          rw [hu] at hparts
          cases hparts
        | zero s => trivial
        | finite s m' q' hp =>
          rw [hu] at hparts
          cases hparts
          exact hcanonical
    rw [ofFloat_eq_partsOf, partsValue?_partsOf hcanonical] at h
    exact ⟨hcanonical, Option.some.inj h⟩

end ScriptLang.Number

namespace ScriptLang

namespace Number

open Binary

/-- Whether a number is the integer `i`. Both zeros are the integer zero. -/
structure IsInt (n : Float) (i : Int) : Prop where
  /-- It has no fraction and is finite. -/
  whole : isWhole n = true
  value : truncate? n = some i

variable {n x : Float} {i : Int}

/-! ### Integers as values -/

/-- Whether a mantissa and an exponent make up the natural number `k`. -/
theorem magnitude_eq_iff {m k : ℕ} {q : ℤ} : (m : ℚ) * 2 ^ q = k ↔
    (q ≥ 0 || m % Nat.pow 2 (-q).toNat == 0) = true ∧
    (if q ≥ 0 then m * Nat.pow 2 q.toNat else m / Nat.pow 2 (-q).toNat) = k := by
  by_cases hq : q ≥ 0
  · obtain ⟨e, rfl⟩ := Int.eq_ofNat_of_zero_le hq
    simp only [decide_true, hq, Bool.true_or, true_and, if_true, Int.toNat_natCast, Nat.pow_eq,
      zpow_natCast]
    exact_mod_cast Iff.rfl
  · obtain ⟨e, rfl⟩ : ∃ e : ℕ, q = -(e : ℤ) := ⟨(-q).toNat, by omega⟩
    have hpos : 0 < 2 ^ e := Nat.two_pow_pos e
    have hcast : (0 : ℚ) < 2 ^ e := by positivity
    simp only [hq, decide_false, Bool.false_or, if_false, neg_neg, Int.toNat_natCast, Nat.pow_eq,
      zpow_neg, zpow_natCast, beq_iff_eq, ← div_eq_mul_inv]
    rw [div_eq_iff hcast.ne']
    constructor
    · intro h
      have hm : m = k * 2 ^ e := by exact_mod_cast h
      rw [hm]
      exact ⟨Nat.mul_mod_left k _, Nat.mul_div_cancel k hpos⟩
    · rintro ⟨hmod, rfl⟩
      exact_mod_cast (Nat.div_mul_cancel (Nat.dvd_of_mod_eq_zero hmod)).symm

/-- Whether they make up an integer. -/
theorem magnitude_eq_int_iff {m : ℕ} {q : ℤ} : (m : ℚ) * 2 ^ q = i ↔
    (q ≥ 0 || m % Nat.pow 2 (-q).toNat == 0) = true ∧
    ((if q ≥ 0 then m * Nat.pow 2 q.toNat else m / Nat.pow 2 (-q).toNat : ℕ) : ℤ) = i := by
  constructor
  · intro h
    have hnonneg : (0 : ℚ) ≤ i := h ▸ by positivity
    obtain ⟨k, rfl⟩ := Int.eq_ofNat_of_zero_le (Int.cast_nonneg_iff.1 hnonneg)
    rw [Int.cast_natCast] at h
    obtain ⟨hwhole, hsize⟩ := magnitude_eq_iff.1 h
    exact ⟨hwhole, congrArg _ hsize⟩
  · rintro ⟨hwhole, rfl⟩
    rw [Int.cast_natCast]
    exact magnitude_eq_iff.2 ⟨hwhole, rfl⟩

/-- A number is an integer just when that is its value. -/
theorem isInt_iff : IsInt x i ↔ Holds x i := by
  rw [holds_iff]
  have hparted : IsInt x i ↔ isWhole x = true ∧ truncate? x = some i :=
    ⟨fun h => ⟨h.whole, h.value⟩, fun h => ⟨h.1, h.2⟩⟩
  rw [hparted, isWhole, truncate?]
  cases hparts : ofFloat x with
  | nan => simp [partsValue?]
  | infinite s => simp [partsValue?]
  | finite negative m q =>
    dsimp only [partsValue?]
    cases negative with
    | false =>
      simp only [Bool.false_eq_true, if_false, Option.some.injEq]
      exact magnitude_eq_int_iff.symm
    | true =>
      have hneg := magnitude_eq_int_iff (i := -i) (m := m) (q := q)
      simp only [if_true, Option.some.injEq, neg_eq_iff_eq_neg]
      rw [Int.cast_neg] at hneg
      exact hneg.symm

/-! ### Machine integers -/

theorem IsInt.isIntegral (h : IsInt n i) : isIntegral n = true := by
  have hwhole := h.whole
  unfold Number.isIntegral
  split
  · rfl
  · exact hwhole

theorem IsInt.toInteger (h : IsInt n i) (hi : isWord i = true) : toInteger n = i := by
  unfold Number.toInteger
  rw [h.value]
  exact if_pos hi

/-- A number without a fraction that is a machine integer of at least zero is an integer: infinities and
what does not fit have the least machine integer for their value. -/
theorem isInt_toInteger (h : isIntegral n = true) (hn : 0 ≤ toInteger n) :
    IsInt n (toInteger n) ∧ isWord (toInteger n) = true := by
  unfold toInteger at hn ⊢
  cases hvalue : truncate? n with
  | none =>
    rw [hvalue] at hn
    exact absurd hn (by decide)
  | some i =>
    rw [hvalue] at hn
    dsimp only at hn ⊢
    by_cases hi : isWord i = true
    · rw [if_pos hi]
      refine ⟨⟨?_, hvalue⟩, hi⟩
      unfold isIntegral at h
      unfold truncate? at hvalue
      split at h
      · next hinfinite =>
        rw [hinfinite] at hvalue
        cases hvalue
      · exact h
    · rw [if_neg hi] at hn
      exact absurd hn (by decide)

end Number

/-- Whether a value leads to the integer `i`. -/
def Store.IsInt (s : Store) (v : Value) (i : Int) : Prop :=
  ∃ n, s.raw? v = some (.number n) ∧ Number.IsInt n i

end ScriptLang
