import ScriptLang.Proofs.Decimal.Integers
import ScriptLang.Proofs.Library.Json

/-!
# Random integers

`random.int` adds what a source draws to the lower bound of a range. Two things keep the sum from being a
number of the range. The width of the range has to be an integer of 64 bits, or the process ends. And the sum
is rounded to a number: that never leaves the bounds, but it may reach the upper one, which does not belong to
the range.

So the numbers that can be drawn all lie in the range if and only if its width fits and the integer right
below the upper bound is not rounded up to it (`Library.randomInt_calls`). This holds for all ranges that are
narrower than `2 ^ 63` and end above `-2 ^ 53` and at most at `2 ^ 53`.

Nothing is assumed of a source. Its counter can have any value, and every number below a bound is drawn for
some value of the counter (`Library.exists_drawBelow`).
-/

namespace ScriptLang.Library

open Eval Number

variable {run : Runner} {host : Host} {st st' : State} {s : Store} {source k n : ℕ} {a b : Value} {i j : ℤ}

/-! ### What a source draws -/

/-- Three shifts leave nothing of a word, so two of them undo one. -/
theorem exists_xor_shift {d : UInt64} (hd : d = 30 ∨ d = 27 ∨ d = 31) (y : UInt64) :
    ∃ x, x ^^^ (x >>> d) = y := by
  have hgone : y >>> d >>> d >>> d = 0 := by
    apply UInt64.toBitVec_inj.1
    apply BitVec.eq_of_getLsbD_eq
    intro p hp
    have hbeyond (p : ℕ) (hp : 64 ≤ p) : y.toBitVec.getLsbD p = false := BitVec.getLsbD_of_ge _ _ hp
    obtain rfl | rfl | rfl := hd <;> simp <;> exact hbeyond _ (by omega)
  -- shifted once more these are the same words but the first, and they cancel
  refine ⟨y ^^^ (y >>> d) ^^^ (y >>> d >>> d), ?_⟩
  rw [UInt64.shiftRight_xor, UInt64.shiftRight_xor, hgone]
  simp [UInt64.xor_assoc]

/-- Every word is the mixed bits of some counter. -/
theorem mix_surjective : Function.Surjective mix := by
  -- the multipliers are odd, so each has an inverse
  have hmul (m m' y : UInt64) (h : m' * m = 1) : ∃ x, x * m = y := by
    refine ⟨y * m', ?_⟩
    rw [UInt64.mul_assoc, h, UInt64.mul_one]
  intro w
  obtain ⟨z₅, h₅⟩ := exists_xor_shift (.inr (.inr rfl)) w
  obtain ⟨z₄, h₄⟩ := hmul 0x94d049bb133111eb 0x319642b2d24d8ec3 z₅ (by decide)
  obtain ⟨z₃, h₃⟩ := exists_xor_shift (.inr (.inl rfl)) z₄
  obtain ⟨z₂, h₂⟩ := hmul 0xbf58476d1ce4e5b9 0x96de1b173f119089 z₃ (by decide)
  obtain ⟨z₁, h₁⟩ := exists_xor_shift (.inl rfl) z₂
  refine ⟨z₁, ?_⟩
  unfold mix
  dsimp only
  rw [h₁, h₂, h₃, h₄, h₅]

/-- What is drawn is below the bound, and the store is left alone. -/
theorem drawBelow_lt (source : ℕ) (host : Host) (st : State) (hn : 0 < n) :
    ∃ k st', drawBelow source n host st = .ok k st' ∧ k < n ∧ st'.store = st.store :=
  ⟨_, _, rfl, Nat.mod_lt _ hn, rfl⟩

/-- Every number below the bound is drawn, if the counter has the right value. -/
theorem exists_drawBelow (source : ℕ) (host : Host) (s : Store) (hk : k < n) (hn : n ≤ 2 ^ 64) :
    ∃ st st', st.store = s ∧ drawBelow source n host st = .ok k st' ∧ st'.store = s := by
  obtain ⟨z, hz⟩ := mix_surjective (UInt64.ofNat k)
  let st : State := { store := s, randomness := Array.replicate (source + 1) (z - stride) }
  have hcounter : st.randomness.getD source 0 + stride = z := by simp [st]
  have hvalue : (mix (st.randomness.getD source 0 + stride)).toNat % n = k := by
    rw [hcounter, hz, UInt64.toNat_ofNat_of_lt' (hk.trans_le hn), Nat.mod_eq_of_lt hk]
  obtain ⟨st', hdrawn, hstore⟩ : ∃ st', drawBelow source n host st =
      .ok ((mix (st.randomness.getD source 0 + stride)).toNat % n) st' ∧ st'.store = s := ⟨_, rfl, rfl⟩
  rw [hvalue] at hdrawn
  exact ⟨st, st', rfl, hdrawn, hstore⟩

/-! ### Integers of 64 bits -/

theorem isWord_iff : isWord i = true ↔ -2 ^ 63 ≤ i ∧ i < 2 ^ 63 := by
  unfold isWord leastWord
  rw [Bool.and_eq_true, decide_eq_true_eq, decide_eq_true_eq]
  norm_num

theorem bmod_of_isWord (hi : isWord i = true) : Int.bmod i wordCount = i := by
  obtain ⟨hlow, hhigh⟩ := isWord_iff.1 hi
  apply Int.bmod_eq_of_le <;> unfold wordCount <;> omega

/-- A width that does not fit becomes negative, or zero. -/
theorem bmod_nonpos (hlow : 2 ^ 63 ≤ i) (hhigh : i ≤ 2 ^ 64) : Int.bmod i wordCount ≤ 0 := by
  unfold Int.bmod wordCount
  dsimp only
  split <;> omega

/-! ### Calls -/

section Calls

variable (ha : st.store.IsInt a i) (hb : st.store.IsInt b j) (hi : isWord i = true) (hj : isWord j = true)
include ha hb hi hj

/-- The bounds are taken as integers. -/
theorem call_randomInt (hlt : i < j) :
    call run (.randomInt source) [a, b] host st = (do
      let width := Int.bmod (j - i) wordCount
      if width ≤ 0 then throw .crash
      else
        let k ← drawBelow source width.toNat
        return .number (ofInt (Int.bmod (i + k) wordCount)) : Eval Value) host st := by
  obtain ⟨x, hx, hxi⟩ := ha
  obtain ⟨y, hy, hyj⟩ := hb
  have hlow := integer_of_raw? ⟨Builtin.name (.randomInt source), [a, b]⟩ 0 hx hxi.isIntegral host
  have hhigh := integer_of_raw? ⟨Builtin.name (.randomInt source), [a, b]⟩ 1 hy hyj.isIntegral host
  rw [hxi.toInteger hi] at hlow
  rw [hyj.toInteger hj] at hhigh
  refine (call_of_arity rfl).trans ((bind_of_ok hlow).trans ((bind_of_ok hhigh).trans ?_))
  rw [if_neg (by omega)]

/-- A range of `2 ^ 63` integers or more ends the process. -/
theorem call_randomInt_crash (hwide : 2 ^ 63 ≤ j - i) :
    call run (.randomInt source) [a, b] host st = .error .crash st := by
  have hlow := isWord_iff.1 hi
  have hhigh := isWord_iff.1 hj
  have hwidth : Int.bmod (j - i) wordCount ≤ 0 := bmod_nonpos hwide (by omega)
  rw [call_randomInt ha hb hi hj (by omega)]
  dsimp only
  rw [if_pos hwidth]
  rfl

/-- In a narrower one what is drawn is added to the lower bound, and the sum is made a number. -/
theorem call_randomInt_of_draw (hnarrow : j - i < 2 ^ 63)
    (hdraw : drawBelow source (j - i).toNat host st = .ok k st') (hk : k < j - i) :
    call run (.randomInt source) [a, b] host st = .ok (.number (ofInt (i + k))) st' := by
  have hlow := isWord_iff.1 hi
  have hhigh := isWord_iff.1 hj
  have hwidth : Int.bmod (j - i) wordCount = j - i := bmod_of_isWord (isWord_iff.2 (by omega))
  have hsum : Int.bmod (i + k) wordCount = i + k := bmod_of_isWord (isWord_iff.2 (by omega))
  rw [call_randomInt ha hb hi hj (by omega)]
  dsimp only
  rw [hwidth, if_neg (by omega)]
  refine (bind_of_ok hdraw).trans ?_
  rw [hsum]
  rfl

/-- So some integer of the range is drawn. -/
theorem call_randomInt_draws (hlt : i < j) (hnarrow : j - i < 2 ^ 63) : ∃ k st', i ≤ k ∧ k < j ∧
    call run (.randomInt source) [a, b] host st = .ok (.number (ofInt k)) st' ∧ st'.store = st.store := by
  obtain ⟨d, st', hdraw, hd, hstore⟩ := drawBelow_lt (n := (j - i).toNat) source host st (by omega)
  exact ⟨i + d, st', by omega, by omega,
    call_randomInt_of_draw ha hb hi hj hnarrow hdraw (by omega), hstore⟩

end Calls

/-- Each integer of the range is drawn in some state. -/
theorem exists_call_randomInt (ha : s.IsInt a i) (hb : s.IsInt b j) (hi : isWord i = true)
    (hj : isWord j = true) (hnarrow : j - i < 2 ^ 63) {k : ℤ} (hik : i ≤ k) (hkj : k < j) :
    ∃ st st', st.store = s ∧
      call run (.randomInt source) [a, b] host st = .ok (.number (ofInt k)) st' ∧ st'.store = s := by
  obtain ⟨d, rfl⟩ : ∃ d : ℕ, k = i + d := ⟨(k - i).toNat, by omega⟩
  obtain ⟨st, st', rfl, hdraw, hstore⟩ :=
    exists_drawBelow (k := d) (n := (j - i).toNat) source host s (by omega) (by omega)
  exact ⟨st, st', rfl, call_randomInt_of_draw ha hb hi hj hnarrow hdraw (by omega), hstore⟩

/-- A computation gives a number that is an integer from `i` up to, not including, `j`. -/
def GivesBetween (x : Eval Value) (host : Host) (st : State) (i j : ℤ) : Prop :=
  ∃ n v st', x host st = .ok (.number n) st' ∧ IsInt n v ∧ i ≤ v ∧ v < j

/-- What `random.int` does with the integers `i` and `j` in the states with a certain store, whatever the
counters of their sources are. -/
structure RandomIntCalls (run : Runner) (host : Host) (source : ℕ) (s : Store) (a b : Value) (i j : ℤ) :
    Prop where
  /-- If the width does not fit into 64 bits, the process ends. -/
  wide : 2 ^ 63 ≤ j - i → ∀ st : State, st.store = s →
    call run (.randomInt source) [a, b] host st = .error .crash st
  /-- If it fits, the result is the number nearest to an integer of the range. -/
  draws : j - i < 2 ^ 63 → ∀ st : State, st.store = s → ∃ k st', i ≤ k ∧ k < j ∧
    call run (.randomInt source) [a, b] host st = .ok (.number (ofInt k)) st' ∧ st'.store = s
  /-- Each integer of the range is drawn in some of the states. -/
  drawn : j - i < 2 ^ 63 → ∀ k, i ≤ k → k < j → ∃ st st', st.store = s ∧
    call run (.randomInt source) [a, b] host st = .ok (.number (ofInt k)) st' ∧ st'.store = s
  /-- The nearest number is an integer within the bounds; up to `2 ^ 53` it is the integer that was drawn. -/
  nearest : ∀ k, i ≤ k → k < j → ∃ v, IsInt (ofInt k) v ∧ i ≤ v ∧ v ≤ j ∧
    (k.natAbs ≤ Binary.mantissaCount → v = k)
  /-- The result is in the range in all of the states just if the width fits and the integer before the upper
  bound is not rounded up to it. -/
  inRange_iff : (∀ st : State, st.store = s →
      GivesBetween (call run (.randomInt source) [a, b]) host st i j) ↔
    j - i < 2 ^ 63 ∧ (-(Binary.mantissaCount : ℤ) < j ∧ j ≤ Binary.mantissaCount ∨ j % 4 = 2)

theorem randomInt_calls (run : Runner) (host : Host) (source : ℕ) {s : Store} {a b : Value} {i j : ℤ}
    (ha : s.IsInt a i) (hb : s.IsInt b j) (hi : isWord i = true) (hj : isWord j = true) (hlt : i < j) :
    RandomIntCalls run host source s a b i j := by
  have hlow := isWord_iff.1 hi
  have hhigh := isWord_iff.1 hj
  have hunit : unit i.natAbs ∣ i.natAbs := ha.elim fun _ h => h.2.unit_dvd
  have hunit' : unit j.natAbs ∣ j.natAbs := hb.elim fun _ h => h.2.unit_dvd
  have hnumber {k : ℤ} (hik : i ≤ k) (hkj : k < j) : IsInt (ofInt k) (rounded k) := isInt_ofInt (by omega)
  have hwide (hwide : 2 ^ 63 ≤ j - i) (st : State) (hst : st.store = s) :
      call run (.randomInt source) [a, b] host st = .error .crash st := by
    subst hst
    exact call_randomInt_crash ha hb hi hj hwide
  have hdraws (hnarrow : j - i < 2 ^ 63) (st : State) (hst : st.store = s) : ∃ k st', i ≤ k ∧ k < j ∧
      call run (.randomInt source) [a, b] host st = .ok (.number (ofInt k)) st' ∧ st'.store = s := by
    subst hst
    exact call_randomInt_draws ha hb hi hj hlt hnarrow
  constructor
  case wide => exact hwide
  case draws => exact hdraws
  case drawn =>
    intro hnarrow k hik hkj
    exact exists_call_randomInt ha hb hi hj hnarrow hik hkj
  case nearest =>
    intro k hik hkj
    exact ⟨rounded k, hnumber hik hkj, le_rounded hunit hik, rounded_le hunit' hkj.le, rounded_of_le⟩
  case inRange_iff =>
    rw [← rounded_pred_lt_iff hunit']
    constructor
    · intro hall
      have hnarrow : j - i < 2 ^ 63 := by
        by_contra hge
        obtain ⟨n, v, st', hcall, -⟩ := hall { store := s } rfl
        rw [hwide (not_lt.1 hge) _ rfl] at hcall
        cases hcall
      -- the integer before the upper bound is drawn too
      have hpred : i ≤ j - 1 := by omega
      obtain ⟨st, st', hst, hcall, -⟩ := exists_call_randomInt ha hb hi hj hnarrow hpred (by omega)
      obtain ⟨n, v, st'', hcall', hv, -, hvj⟩ := hall st hst
      obtain ⟨⟨⟩, rfl⟩ := EStateM.Result.ok.inj (hcall.symm.trans hcall')
      rw [Option.some.inj ((hnumber hpred (by omega)).value.symm.trans hv.value)]
      exact ⟨hnarrow, hvj⟩
    · rintro ⟨hnarrow, hbelow⟩ st hst
      obtain ⟨k, st', hik, hkj, hcall, -⟩ := hdraws hnarrow st hst
      have hle : rounded k ≤ rounded (j - 1) := rounded_mono (by omega)
      exact ⟨_, _, st', hcall, hnumber hik hkj, le_rounded hunit hik, hle.trans_lt hbelow⟩

/-- A die. -/
theorem randomInt_die :
    let st : State := { randomness := #[6] }
    GivesBetween (call (evaluator 0) (.randomInt 0) [.number 1, .number 7]) {} st 1 7 := by
  intro st
  have hone : st.store.IsInt (.number 1) 1 := ⟨1, rfl, by decide +kernel, by decide +kernel⟩
  have hseven : st.store.IsInt (.number 7) 7 := ⟨7, rfl, by decide +kernel, by decide +kernel⟩
  have hcalls := randomInt_calls (evaluator 0) {} 0 hone hseven (by decide) (by decide) (by decide)
  exact hcalls.inRange_iff.2 (by decide) st rfl

/-- Between these bounds of 64 bits no number is given at all; and between two neighbours above `2 ^ 53` the
upper one may be given. -/
theorem randomInt_leaves_range :
    (∀ st : State, st.store = {} → ¬GivesBetween (call (evaluator 0) (.randomInt 0)
        [.number (-5000000000000000000), .number 5000000000000000000]) {} st
          (-5000000000000000000) 5000000000000000000) ∧
      ∃ st n st', call (evaluator 0) (.randomInt 0)
        [.number 9007199254740994, .number 9007199254740996] {} st = .ok (.number n) st' ∧
          IsInt n 9007199254740996 := by
  constructor
  · rintro st hst ⟨n, v, st', hcall, -⟩
    have hlow : st.store.IsInt (.number (-5000000000000000000)) (-5000000000000000000) :=
      ⟨_, rfl, by decide +kernel, by decide +kernel⟩
    have hhigh : st.store.IsInt (.number 5000000000000000000) 5000000000000000000 :=
      ⟨_, rfl, by decide +kernel, by decide +kernel⟩
    rw [call_randomInt_crash hlow hhigh (by decide) (by decide) (by decide)] at hcall
    cases hcall
  · obtain ⟨st, st', -, hdraw, -⟩ :=
      exists_drawBelow (k := 1) (n := 2) 0 {} {} (by decide) (by decide)
    have hlow : st.store.IsInt (.number 9007199254740994) 9007199254740994 :=
      ⟨_, rfl, by decide +kernel, by decide +kernel⟩
    have hhigh : st.store.IsInt (.number 9007199254740996) 9007199254740996 :=
      ⟨_, rfl, by decide +kernel, by decide +kernel⟩
    have hnumber := isInt_ofInt (i := 9007199254740995) (by decide)
    have hrounded : rounded 9007199254740995 = 9007199254740996 := by decide +kernel
    rw [hrounded] at hnumber
    refine ⟨st, _, st', ?_, hnumber⟩
    exact call_randomInt_of_draw hlow hhigh (by decide) (by decide) (by decide) hdraw (by decide)

end ScriptLang.Library
