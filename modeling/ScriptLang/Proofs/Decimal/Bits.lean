import Mathlib.Algebra.Group.Nat.Defs
import Mathlib.Algebra.Order.Ring.Int
import Mathlib.Data.List.Lex
import Mathlib.Order.Compare
import ScriptLang.Decimal.Binary

/-!
# The bits of a number and the order of numbers

A finite number is its bits, and the bits are its sign, its exponent and its mantissa. So
`Binary.toFloat` puts together what `Binary.ofFloat` takes apart, and the other way round.

Every number other than not-a-number has a *place*: its sign, and then its exponent and its mantissa, both
turned round for negative numbers. Two numbers are equal just when they have the same place
(`Number.beq_iff`), so that the two zeros are equal, and one is smaller than another just when its place
comes first in the order of lists (`Number.lt_iff`). So among these numbers equality is an equivalence and
the order is total, and the laws of both are those of lists of integers.
-/

namespace ScriptLang

open Float.Model Float.Model.UnpackedFloat

namespace Binary

/-- The bits of the infinity; those of the finite numbers that are not negative lie below. -/
def infinityBits : Nat := 9218868437227405312

/-! ### Packing what was unpacked -/

theorem toNat_append {v w : Nat} (x : BitVec v) (y : BitVec w) :
    (x ++ y).toNat = x.toNat * 2 ^ w + y.toNat := by
  rw [BitVec.toNat_append, ← Nat.shiftLeft_add_eq_or_of_lt y.isLt, Nat.shiftLeft_eq]

/-- What a sign adds to the bits. -/
def signPart (s : Sign) : Nat := s.toBitVec.toNat * signBit

theorem toNat_packComponents (s : Sign) (e : BitVec 11) (m : BitVec 52) :
    (packComponents Format.binary64 s e m).toNat = signPart s + (e.toNat * hiddenBit + m.toNat) := by
  rw [packComponents, toNat_append, toNat_append, signPart, signBit, hiddenBit]
  omega

theorem toNat_unpackMantissa (b : BitVec 64) :
    (@unpackMantissa Format.binary64 b).toNat = b.toNat % hiddenBit := by
  simp [unpackMantissa, hiddenBit]

theorem toNat_unpackExponent (b : BitVec 64) :
    (@unpackExponent Format.binary64 b).toNat = b.toNat / hiddenBit % 2048 := by
  simp [unpackExponent, hiddenBit, Nat.shiftRight_eq_div_pow]

theorem toBitVec_ofBitVec : ∀ b : BitVec 1, (Sign.ofBitVec b).toBitVec = b := by decide

theorem signPart_unpackSign (b : BitVec 64) :
    signPart (Sign.ofBitVec (@unpackSign Format.binary64 b)) = b.toNat / signBit * signBit := by
  have hsign : (@unpackSign Format.binary64 b).toNat = b.toNat / signBit := by
    have hlt : b.toNat < 2 ^ 64 := b.isLt
    delta unpackSign
    simp only [BitVec.toNat_cast, BitVec.extractLsb_toNat, Nat.shiftRight_eq_div_pow]
    change b.toNat / 2 ^ 63 % 2 ^ 1 = _
    rw [signBit]
    omega
  rw [signPart, toBitVec_ofBitVec, hsign]

theorem toNat_pack_subnormal {s : Sign} {m : Nat} (hp : 0 < m) (hm : m < hiddenBit) :
    (UnpackedFloat.pack Format.binary64 (.finite s m (-1074) hp)).toNat = signPart s + m := by
  have hlog : m.log2 < 52 := (Nat.log2_lt (Nat.ne_of_gt hp)).2 hm
  have hne : ¬m.log2 + 1 = Format.binary64.mantissaBits := by
    change ¬m.log2 + 1 = 53
    omega
  delta UnpackedFloat.pack
  dsimp only
  simp only [hne, if_false]
  rw [if_neg (by decide), toNat_packComponents]
  change signPart s + (0 * hiddenBit + m % hiddenBit) = _
  rw [Nat.mod_eq_of_lt hm, Nat.zero_mul, Nat.zero_add]

theorem toNat_pack_normal {s : Sign} {e f m : Nat} (he : 0 < e) (he' : e < 2047) (hf : f < hiddenBit)
    (hm : m = hiddenBit + f) (hp : 0 < m) :
    (UnpackedFloat.pack Format.binary64 (.finite s m ((e : Int) - 1075) hp)).toNat
      = signPart s + (e * hiddenBit + f) := by
  subst hm
  have hlog : (hiddenBit + f).log2 + 1 = Format.binary64.mantissaBits := by
    change (hiddenBit + f).log2 + 1 = 53
    rw [hiddenBit] at *
    have hlow : 52 ≤ (4503599627370496 + f).log2 := (Nat.le_log2 (by omega)).2 (by omega)
    have hhigh : (4503599627370496 + f).log2 < 53 := (Nat.log2_lt (by omega)).2 (by omega)
    omega
  have hbias : ((e : Int) - 1075 + (Format.binary64.exponentBias : Nat) +
      (Format.binary64.mantissaBitsWithoutImplicit : Nat)).toNat = e := by
    change ((e : Int) - 1075 + (1023 : Nat) + (52 : Nat)).toNat = e
    omega
  delta UnpackedFloat.pack
  dsimp only
  simp only [hlog, if_true, hbias]
  rw [if_neg (by change ¬2048 ≤ e + 1; omega), toNat_packComponents]
  change signPart s + (e % 2048 * hiddenBit + (hiddenBit + f) % hiddenBit) = _
  rw [Nat.mod_eq_of_lt (by omega), Nat.add_mod_left, Nat.mod_eq_of_lt hf]

/-- Packing gives back the bits of a finite number. -/
theorem toNat_pack_unpack {b : BitVec 64} (h : b.toNat % signBit < infinityBits) :
    (UnpackedFloat.pack Format.binary64 (UnpackedFloat.unpack Format.binary64 b)).toNat = b.toNat := by
  have hsign := signPart_unpackSign b
  have hm := toNat_unpackMantissa b
  have he := toNat_unpackExponent b
  have hf : b.toNat % hiddenBit < hiddenBit := Nat.mod_lt _ (by decide)
  have hsum : b.toNat / signBit * signBit +
      (b.toNat / hiddenBit % 2048 * hiddenBit + b.toNat % hiddenBit) = b.toNat := by
    rw [hiddenBit, signBit]
    omega
  have hscale : b.toNat / hiddenBit % 2048 < 2047 := by
    rw [infinityBits, signBit] at h
    rw [hiddenBit]
    omega
  delta UnpackedFloat.unpack
  dsimp only
  have hfinite : @unpackExponent Format.binary64 b ≠ -1#11 := by
    intro hk
    have := congrArg BitVec.toNat hk
    have hmax : (-1#11 : BitVec 11).toNat = 2047 := rfl
    omega
  generalize Sign.ofBitVec (@unpackSign Format.binary64 b) = s at hsign
  rw [if_neg hfinite]
  by_cases hk : @unpackExponent Format.binary64 b = 0#11
  · rw [if_pos hk, hk]
    rw [hk] at he
    change 0 = _ at he
    rw [← he, ← hsign, ← hm] at hsum
    by_cases hm0 : @unpackMantissa Format.binary64 b = 0#52
    · rw [dif_pos hm0]
      rw [hm0] at hsum
      delta UnpackedFloat.pack
      dsimp only
      rw [packedZero, toNat_packComponents]
      exact hsum
    · have hp : 0 < (@unpackMantissa Format.binary64 b).toNat :=
        Nat.pos_of_ne_zero fun hz => hm0 (BitVec.eq_of_toNat_eq hz)
      rw [dif_neg hm0]
      exact (toNat_pack_subnormal hp (by omega)).trans (by omega)
  · have hpos : 0 < (@unpackExponent Format.binary64 b).toNat :=
      Nat.pos_of_ne_zero fun hz => hk (BitVec.eq_of_toNat_eq hz)
    have hmant : (1#1 ++ @unpackMantissa Format.binary64 b).toNat =
        hiddenBit + (@unpackMantissa Format.binary64 b).toNat := by
      rw [toNat_append]
      rfl
    rw [if_neg hk]
    refine (toNat_pack_normal hpos (by omega) (by omega) hmant _).trans ?_
    rw [he, hm, hsign]
    exact hsum

/-! ### Mantissa and exponent -/

theorem toBits_ofBits {b : UInt64} (h : b.toNat % signBit < infinityBits) :
    (Float.ofBits b).toBits = b := by
  apply UInt64.toNat_inj.1
  exact toNat_pack_unpack (b := b.toBitVec) h

theorem toBits_injective {v w : Float} (h : v.toBits = w.toBits) : v = w := by
  obtain ⟨⟨bits, valid⟩⟩ := v
  obtain ⟨⟨bits', valid'⟩⟩ := w
  cases h
  rfl

/-- The mantissas and exponents of the finite numbers. -/
structure IsCanonical (m : Nat) (q : Int) : Prop where
  /-- The mantissa has at most 53 bits. -/
  mantissa : m < mantissaCount
  /-- The exponent is not too small. -/
  least : minExponent ≤ q
  /-- The exponent is not too great. -/
  greatest : q ≤ maxExponent
  /-- The mantissa has fewer bits only with the least exponent. -/
  subnormal : m < hiddenBit → q = minExponent

/-- The number that `ofFloat` takes apart. -/
theorem toFloat_of_ofFloat {v : Float} {negative : Bool} {m : Nat} {q : Int}
    (h : ofFloat v = .finite negative m q) : IsCanonical m q ∧ toFloat negative m q = v := by
  have hlt : v.toBits.toNat < 2 ^ 64 := v.toBits.toNat_lt
  have hbound : v.toBits.toNat % hiddenBit < hiddenBit := Nat.mod_lt _ (by decide)
  have hsum := Nat.div_add_mod v.toBits.toNat hiddenBit
  have hsign : (if v.toBits.toNat / signBit == 1 then signBit else 0) =
      v.toBits.toNat / signBit * signBit := by
    simp only [beq_iff_eq]
    rw [signBit]
    split <;> omega
  have hfloat {n : Nat} (hn : n = v.toBits.toNat % signBit) (hi : n < infinityBits) :
      Float.ofBits ((if v.toBits.toNat / signBit == 1 then signBit else 0) + n).toUInt64 = v := by
    rw [hsign, hn, Nat.mul_comm, Nat.div_add_mod, Nat.toUInt64_eq, UInt64.ofNat_toNat]
    exact toBits_injective (toBits_ofBits (hn ▸ hi))
  rw [ofFloat] at h
  split at h
  · split at h <;> cases h
  rename_i hfinite
  have hscale : v.toBits.toNat / hiddenBit % 2048 ≠ 2047 := by simpa using hfinite
  split at h <;> rename_i hzero <;> simp only [Binary.finite.injEq] at h <;>
    obtain ⟨rfl, rfl, rfl⟩ := h <;> simp only [beq_iff_eq] at hzero
  · have hbits : v.toBits.toNat % hiddenBit = v.toBits.toNat % signBit := by
      rw [hiddenBit] at hzero
      rw [hiddenBit, signBit]
      omega
    refine ⟨⟨?_, by decide, by decide, fun _ => rfl⟩, ?_⟩
    · rw [hiddenBit, mantissaCount] at *
      omega
    · rw [toFloat, if_pos hbound]
      exact hfloat hbits (by rw [hiddenBit, infinityBits] at *; omega)
  · rw [hiddenBit] at hzero hscale hbound hsum ⊢
    refine ⟨⟨?_, ?_, ?_, fun hm => ?_⟩, ?_⟩
    · rw [mantissaCount]
      omega
    · rw [minExponent]
      omega
    · rw [maxExponent]
      omega
    · rw [hiddenBit] at hm
      omega
    · have hnormal : ¬4503599627370496 + v.toBits.toNat % 4503599627370496 < 4503599627370496 := by
        omega
      rw [toFloat, hiddenBit, if_neg hnormal]
      refine hfloat ?_ ?_
      · rw [signBit]
        omega
      · rw [infinityBits]
        omega

theorem ofFloat_toFloat (negative : Bool) {m : Nat} {q : Int} (h : IsCanonical m q) :
    ofFloat (toFloat negative m q) = .finite negative m q := by
  obtain ⟨hm, hleast, hgreatest, hsub⟩ := h
  rw [mantissaCount] at hm
  rw [minExponent] at hleast hsub
  rw [maxExponent] at hgreatest
  obtain ⟨s, hs, hpart, hnegative⟩ : ∃ s ≤ 1, (if negative then signBit else 0) = s * signBit ∧
      (s == 1) = negative := by
    cases negative
    · exact ⟨0, Nat.zero_le 1, rfl, rfl⟩
    · exact ⟨1, Nat.le_refl 1, rfl, rfl⟩
  have hbits {n : Nat} (hn : n < infinityBits) :
      (Float.ofBits (s * signBit + n).toUInt64).toBits.toNat = s * signBit + n := by
    rw [infinityBits] at hn
    have hnat : (s * signBit + n).toUInt64.toNat = s * signBit + n := by
      rw [Nat.toUInt64_eq, UInt64.toNat_ofNat']
      refine Nat.mod_eq_of_lt ?_
      rw [signBit]
      omega
    rw [toBits_ofBits, hnat]
    rw [hnat, infinityBits, signBit]
    omega
  by_cases hlow : m < hiddenBit
  · have hmagnitude : (toFloat negative m q).toBits.toNat = s * signBit + m := by
      rw [toFloat, hpart, if_pos hlow]
      exact hbits (by rw [hiddenBit, infinityBits] at *; omega)
    rw [hiddenBit] at hlow
    have h₁ : (s * signBit + m) / signBit = s := by
      rw [signBit]
      omega
    have h₂ : (s * signBit + m) / hiddenBit % 2048 = 0 := by
      rw [signBit, hiddenBit]
      omega
    have h₃ : (s * signBit + m) % hiddenBit = m := by
      rw [signBit, hiddenBit]
      omega
    rw [ofFloat, hmagnitude, h₁, h₂, h₃, hnegative, hsub hlow]
    rfl
  · have hmagnitude : (toFloat negative m q).toBits.toNat =
        s * signBit + ((q + 1075).toNat * hiddenBit + (m - hiddenBit)) := by
      rw [toFloat, hpart, if_neg hlow]
      exact hbits (by rw [hiddenBit, infinityBits] at *; omega)
    rw [hiddenBit] at hlow
    obtain ⟨f, rfl⟩ : ∃ f, m = 4503599627370496 + f := ⟨m - 4503599627370496, by omega⟩
    obtain ⟨k, hk⟩ : ∃ k : Nat, (q + 1075).toNat = k := ⟨_, rfl⟩
    have hq : q = (k : Int) - 1075 := by omega
    have hf : 4503599627370496 + f - hiddenBit = f := by
      rw [hiddenBit]
      omega
    rw [hk, hf] at hmagnitude
    have h₁ : (s * signBit + (k * hiddenBit + f)) / signBit = s := by
      rw [signBit, hiddenBit]
      omega
    have h₂ : (s * signBit + (k * hiddenBit + f)) / hiddenBit % 2048 = k := by
      rw [signBit, hiddenBit]
      omega
    have h₃ : (s * signBit + (k * hiddenBit + f)) % hiddenBit = f := by
      rw [signBit, hiddenBit]
      omega
    rw [ofFloat, hmagnitude, h₁, h₂, h₃, hnegative, hq]
    rw [if_neg (by simp; omega), if_neg (by simp; omega)]
    rfl

end Binary

end ScriptLang

namespace ScriptLang.Number

open Float.Model (UnpackedFloat Format)

/-- The place of a number that is taken apart. -/
def placeOf : UnpackedFloat → List ℤ
  | .notANumber => []
  | .infinity .negative => [-2]
  | .finite .negative m e _ => [-1, -e, -m]
  | .zero _ => [0]
  | .finite .positive m e _ => [1, e, m]
  | .infinity .positive => [2]

/-- The place of a number among the numbers. -/
def place (x : Float) : List ℤ := placeOf x.toModel.unpack

/-! ### Numbers that are taken apart -/

section

variable {e e' : ℤ} {m m' : ℕ}

/-- Exponents count for more than mantissas. -/
theorem parts_lt : (compare e e').then (compare m m') = .lt ↔ e < e' ∨ e = e' ∧ m < m' := by
  rw [Ordering.then_eq_lt, compare_lt_iff_lt, compare_eq_iff_eq, compare_lt_iff_lt]

theorem parts_gt : (compare e e').then (compare m m') = .gt ↔ e' < e ∨ e = e' ∧ m' < m := by
  rw [Ordering.then_eq_gt, compare_gt_iff_gt, compare_eq_iff_eq, compare_gt_iff_gt]

end

/-- Numbers are compared by their places. -/
theorem compare_places {a b : UnpackedFloat} (ha : a ≠ .notANumber) (hb : b ≠ .notANumber) :
    (a.compare b = some .lt ↔ placeOf a < placeOf b) ∧
      (a.compare b = some .eq ↔ placeOf a = placeOf b) := by
  cases a with
  | notANumber => exact absurd rfl ha
  | infinity s =>
    cases b with
    | notANumber => exact absurd rfl hb
    | infinity s' => cases s <;> cases s' <;> decide
    | zero s' => cases s <;> cases s' <;> decide
    | finite s' =>
      cases s <;> cases s' <;> dsimp only [UnpackedFloat.compare, placeOf] <;>
        simp [List.cons_lt_cons_iff]
  | zero s =>
    cases b with
    | notANumber => exact absurd rfl hb
    | infinity s' => cases s <;> cases s' <;> decide
    | zero s' => cases s <;> cases s' <;> decide
    | finite s' =>
      cases s' <;> dsimp only [UnpackedFloat.compare, placeOf] <;> simp [List.cons_lt_cons_iff]
  | finite s =>
    cases b with
    | notANumber => exact absurd rfl hb
    | infinity s' =>
      cases s <;> cases s' <;> dsimp only [UnpackedFloat.compare, placeOf] <;>
        simp [List.cons_lt_cons_iff]
    | zero s' =>
      cases s <;> dsimp only [UnpackedFloat.compare, placeOf] <;> simp [List.cons_lt_cons_iff]
    | finite s' =>
      cases s <;> cases s' <;> dsimp only [UnpackedFloat.compare, placeOf] <;>
        simp [List.cons_lt_cons_iff, parts_lt, parts_gt]

theorem ne_of_compare {a b : UnpackedFloat} {o : Ordering} (h : a.compare b = some o) :
    a ≠ .notANumber ∧ b ≠ .notANumber := by
  refine ⟨?_, ?_⟩ <;> rintro rfl
  · cases h
  · cases a <;> cases h

/-! ### Numbers -/

variable {x y : Float}

theorem isNaN_iff : x.isNaN = false ↔ x.toModel.unpack ≠ .notANumber := by
  change x.toModel.unpack.isNaN = false ↔ _
  cases x.toModel.unpack with
  | notANumber => exact iff_of_false (by decide : ¬true = false) fun h => h rfl
  | infinity | zero | finite => exact iff_of_true rfl fun h => by cases h

theorem beq_compare : (x == y) = true ↔ x.toModel.unpack.compare y.toModel.unpack = some .eq := by
  change (x.toModel.unpack.compare y.toModel.unpack == some .eq) = true ↔ _
  exact beq_iff_eq

theorem lt_compare : x < y ↔ x.toModel.unpack.compare y.toModel.unpack = some .lt :=
  decide_eq_true_iff.trans beq_iff_eq

/-- Numbers are equal just when they have the same place. -/
theorem beq_iff (hx : x.isNaN = false) (hy : y.isNaN = false) :
    (x == y) = true ↔ place x = place y :=
  beq_compare.trans (compare_places (isNaN_iff.1 hx) (isNaN_iff.1 hy)).2

/-- A number is smaller than another just when its place comes first. -/
theorem lt_iff (hx : x.isNaN = false) (hy : y.isNaN = false) : x < y ↔ place x < place y :=
  lt_compare.trans (compare_places (isNaN_iff.1 hx) (isNaN_iff.1 hy)).1

/-- Not-a-number equals nothing. -/
theorem isNaN_of_beq (h : (x == y) = true) : x.isNaN = false ∧ y.isNaN = false := by
  obtain ⟨hx, hy⟩ := ne_of_compare (beq_compare.1 h)
  exact ⟨isNaN_iff.2 hx, isNaN_iff.2 hy⟩

/-- A finite number is not not-a-number. -/
theorem isNaN_of_isFinite (h : isFinite x = true) : x.isNaN = false := by
  have hexponent : @UnpackedFloat.unpackExponent Format.binary64 x.toBits.toBitVec ≠ -1#11 := by
    intro hmax
    have hbits := (Binary.toNat_unpackExponent x.toBits.toBitVec).symm
    rw [hmax] at hbits
    have hscale : x.toBits.toNat / Binary.hiddenBit % 2048 = 2047 := hbits
    rw [isFinite, Binary.ofFloat, hscale] at h
    rw [if_pos (by decide : (2047 == 2047) = true)] at h
    split at h
    · next heq => split at heq <;> cases heq
    · cases h
  rw [isNaN_iff]
  change UnpackedFloat.unpack Format.binary64 x.toBits.toBitVec ≠ _
  delta UnpackedFloat.unpack
  rw [if_neg hexponent]
  intro hnan
  by_cases hzero : @UnpackedFloat.unpackExponent Format.binary64 x.toBits.toBitVec = 0#11
  · rw [if_pos hzero] at hnan
    by_cases hmantissa : @UnpackedFloat.unpackMantissa Format.binary64 x.toBits.toBitVec = 0#52
    · rw [dif_pos hmantissa] at hnan
      cases hnan
    · rw [dif_neg hmantissa] at hnan
      cases hnan
  · rw [if_neg hzero] at hnan
    cases hnan

theorem beq_self_iff : (x == x) = true ↔ x.isNaN = false :=
  ⟨fun h => (isNaN_of_beq h).1, fun h => (beq_iff h h).2 rfl⟩

theorem beq_symm (h : (x == y) = true) : (y == x) = true := by
  obtain ⟨hx, hy⟩ := isNaN_of_beq h
  exact (beq_iff hy hx).2 ((beq_iff hx hy).1 h).symm

theorem beq_trans {z : Float} (hxy : (x == y) = true) (hyz : (y == z) = true) : (x == z) = true := by
  obtain ⟨hx, hy⟩ := isNaN_of_beq hxy
  obtain ⟨-, hz⟩ := isNaN_of_beq hyz
  exact (beq_iff hx hz).2 (((beq_iff hx hy).1 hxy).trans ((beq_iff hy hz).1 hyz))

end ScriptLang.Number
