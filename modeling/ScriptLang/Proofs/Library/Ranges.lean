import Mathlib.Data.Rat.Floor
import ScriptLang.Library.Call
import ScriptLang.Proofs.Decimal.Sums
import ScriptLang.Proofs.Eval.Still
import ScriptLang.Proofs.Store.Widening

/-!
# Ranges are exact progressions

`range` and `..` count by adding the step to a number again and again. For integers up to `2 ^ 53` they give
exactly the progression: as many integers as the quotient of the distance and the step says, rounded up, each
of them before the end, whatever the signs are (`range_calls`). A step of zero and a step that leads away from
the end are errors, and nothing else is.

All numbers that are counted are exact, as they lie between the start and the end. The last sum, which ends
the loop, may be rounded; then it is beyond the end all the same (`Cursor.next`).
-/

namespace ScriptLang

open Eval Number

namespace Library

variable {i j k : ℤ} {v : ℚ} {first last step x : Float}

/-! ### How far a progression goes -/

/-- Whether a progression by `k` that has come to `v` is still on its way to `j`. -/
def Ahead (j k : ℤ) (v : ℚ) : Prop := 0 < k ∧ v < j ∨ k < 0 ∧ j < v

/-- How many numbers a progression by `k` has from `i` on before it comes to `j`. -/
def progressionLength (i j k : ℤ) : ℕ := ⌈((j - i : ℤ) : ℚ) / k⌉.toNat

/-- A progression is on its way for as many numbers as it has. -/
theorem ahead_iff (hk : k ≠ 0) (m : ℕ) :
    Ahead j k (i + m * k : ℤ) ↔ m < progressionLength i j k := by
  unfold Ahead progressionLength
  rw [Int.lt_toNat, Int.lt_ceil]
  push_cast
  obtain hneg | hpos := lt_or_gt_of_ne hk
  · have hcast : (k : ℚ) < 0 := by exact_mod_cast hneg
    rw [lt_div_iff_of_neg hcast]
    constructor
    · rintro (⟨hpos, -⟩ | ⟨-, h⟩)
      · omega
      · linarith
    · intro h
      exact .inr ⟨hneg, by linarith⟩
  · have hcast : (0 : ℚ) < k := by exact_mod_cast hpos
    rw [lt_div_iff₀ hcast]
    constructor
    · rintro (⟨-, h⟩ | ⟨hneg, -⟩)
      · linarith
      · omega
    · intro h
      exact .inl ⟨hpos, by linarith⟩

/-- The progression from the second number on. -/
theorem ahead_succ (m : ℕ) : Ahead j k (i + k + m * k : ℤ) ↔ Ahead j k (i + (m + 1 : ℕ) * k : ℤ) := by
  have heq : i + k + m * k = i + (m + 1 : ℕ) * k := by
    push_cast
    ring
  rw [heq]

/-! ### Counting -/

theorem isInt_zero : IsInt 0 0 := ⟨by decide +kernel, by decide +kernel⟩

/-- The condition of the loop. -/
theorem onWay_iff (hx : Holds x v) (hstep : IsInt step k) (hlast : IsInt last j) :
    ((step > 0 && x < last) || (step < 0 && x > last)) = true ↔ Ahead j k v := by
  have hzero := isInt_iff.1 isInt_zero
  have hstep := isInt_iff.1 hstep
  have hlast := isInt_iff.1 hlast
  simp only [Bool.or_eq_true, Bool.and_eq_true, decide_eq_true_eq, gt_iff_lt]
  rw [hzero.lt_iff hstep, hx.lt_iff hlast, hstep.lt_iff hzero, hlast.lt_iff hx]
  unfold Ahead
  norm_cast

/-- A number that a loop counts with: the integer `i` if the loop is still on its way there, and a number that
is not ahead either if it is not. -/
structure Cursor (j k : ℤ) (x : Float) (i : ℤ) : Prop where
  holds : ∃ v, Holds x v ∧ (Ahead j k v ↔ Ahead j k i)
  exact : Ahead j k i → IsInt x i ∧ i.natAbs ≤ Binary.mantissaCount

theorem Cursor.of_isInt (hx : IsInt x i) (hi : i.natAbs ≤ Binary.mantissaCount) : Cursor j k x i :=
  ⟨⟨i, isInt_iff.1 hx, Iff.rfl⟩, fun _ => ⟨hx, hi⟩⟩

/-- One step. The sum may be too great to be exact, but then the loop is at its end. -/
theorem Cursor.next (hj : j.natAbs ≤ Binary.mantissaCount) (hk : k.natAbs ≤ Binary.mantissaCount)
    (hstep : IsInt step k) (h : Cursor j k x i) (hi : Ahead j k i) : Cursor j k (x + step) (i + k) := by
  obtain ⟨hx, hbound⟩ := h.exact hi
  by_cases hle : (i + k).natAbs ≤ Binary.mantissaCount
  · exact .of_isInt (hx.add hstep hle) hle
  · obtain ⟨v, hv, habove, hbelow⟩ := hx.add_beyond hstep (by omega)
    have hbeyond : ¬Ahead j k v ∧ ¬Ahead j k (i + k : ℤ) := by
      unfold Ahead at hi ⊢
      norm_cast at hi ⊢
      obtain ⟨hpos, -⟩ | ⟨hneg, -⟩ := hi
      · have hv : (j : ℚ) ≤ v := by
          have hj' : (j : ℚ) ≤ Binary.mantissaCount := by exact_mod_cast (by omega : j ≤ _)
          exact hj'.trans (habove (by omega))
        refine ⟨?_, by omega⟩
        rintro (⟨-, hlt⟩ | ⟨hneg, -⟩)
        · linarith
        · omega
      · have hv : v ≤ (j : ℚ) := by
          have hj' : -(Binary.mantissaCount : ℚ) ≤ j := by exact_mod_cast (by omega : -_ ≤ j)
          exact (hbelow (by omega)).trans hj'
        refine ⟨?_, by omega⟩
        rintro (⟨hpos, -⟩ | ⟨-, hlt⟩)
        · omega
        · linarith
    exact ⟨⟨v, hv, iff_of_false hbeyond.1 hbeyond.2⟩, fun h => absurd h hbeyond.2⟩

/-- Whether a list consists of the integers from `i` on by `k`, `n` of them. -/
structure Counts (ns : List Float) (i k : ℤ) (n : ℕ) : Prop where
  length : ns.length = n
  get : ∀ (m : ℕ) (h : m < ns.length), IsInt ns[m] (i + m * k)

theorem Counts.cons {ns : List Float} {n : ℕ} (hx : IsInt x i) (h : Counts ns (i + k) k n) :
    Counts (x :: ns) i k (n + 1) where
  length := congrArg (· + 1) h.length
  get m hm := by
    cases m with
    | zero => simpa using hx
    | succ m =>
      have heq : i + (m + 1 : ℕ) * k = i + k + m * k := by
        push_cast
        ring
      rw [heq]
      exact h.get m (Nat.lt_of_succ_lt_succ hm)

/-- The loop counts until the progression is at its end. -/
theorem countFrom_spec (hj : j.natAbs ≤ Binary.mantissaCount) (hk : k.natAbs ≤ Binary.mantissaCount)
    (hlast : IsInt last j) (hstep : IsInt step k) {n : ℕ} (fuel : ℕ) (hfuel : n < fuel)
    (done : Array Value) (hx : Cursor j k x i) (hn : ∀ m : ℕ, Ahead j k (i + m * k : ℤ) ↔ m < n) :
    ∃ ns, countFrom step last fuel x done = some (done ++ (ns.map Value.number).toArray) ∧
      Counts ns i k n := by
  induction n generalizing x i done fuel with
  | zero =>
    obtain ⟨fuel, rfl⟩ := Nat.exists_eq_add_of_lt hfuel
    obtain ⟨v, hv, hsame⟩ := hx.holds
    have hend : ¬Ahead j k i := by simpa using hn 0
    have hstop := mt ((onWay_iff hv hstep hlast).trans hsame).1 hend
    refine ⟨[], ?_, rfl, fun m hm => absurd hm (Nat.not_lt_zero m)⟩
    rw [Nat.zero_add, countFrom, if_neg hstop]
    simp
  | succ n ih =>
    obtain ⟨fuel, rfl⟩ := Nat.exists_eq_add_of_lt hfuel
    obtain ⟨v, hv, hsame⟩ := hx.holds
    have hahead : Ahead j k i := by simpa using hn 0
    have hgo := ((onWay_iff hv hstep hlast).trans hsame).2 hahead
    have hrest : ∀ m : ℕ, Ahead j k (i + k + m * k : ℤ) ↔ m < n := by
      intro m
      rw [ahead_succ, hn, Nat.succ_lt_succ_iff]
    obtain ⟨ns, hcount, hns⟩ := ih (n + 1 + fuel) (by omega) (done.push (.number x))
      (hx.next hj hk hstep hahead) hrest
    refine ⟨x :: ns, ?_, hns.cons (hx.exact hahead).1⟩
    rw [countFrom, if_pos hgo, hcount]
    simp

/-! ### What a call gives -/

variable {host : Host} {st : State} {a b c : Value}

/-- Whether an evaluation fails with an error of the program that has the given code. -/
def FailsWith (x : Eval Value) (host : Host) (st : State) (code : Code) : Prop :=
  ∃ message, x host st = .error (.fault { code := code, message := message }) st

/-- Whether an evaluation gives an array of the `n` integers from `i` on by `k`, and all of them come before
`j`. -/
def GivesRange (x : Eval Value) (host : Host) (st : State) (i j k : ℤ) (n : ℕ) : Prop :=
  ∃ (ns : List Float) (id : ArrayId) (st' : State), x host st = .ok (.array id) st' ∧
    st'.store.elements id = ns.map Value.number ∧ Counts ns i k n ∧
    ∀ m < n, Ahead j k (i + m * k : ℤ)

theorem progressionLength_lt (hi : i.natAbs ≤ Binary.mantissaCount)
    (hj : j.natAbs ≤ Binary.mantissaCount) (hk : k ≠ 0) :
    progressionLength i j k < progressionLimit := by
  by_contra hlong
  have hahead := (ahead_iff (i := i) (j := j) hk (2 * Binary.mantissaCount)).2
    (lt_of_lt_of_le (by decide) (not_lt.1 hlong))
  unfold Ahead Binary.mantissaCount at hahead
  unfold Binary.mantissaCount at hi hj
  norm_cast at hahead
  push_cast at hahead
  omega

theorem progression_gives (host : Host) (st : State) (hi : i.natAbs ≤ Binary.mantissaCount)
    (hj : j.natAbs ≤ Binary.mantissaCount) (hk : k.natAbs ≤ Binary.mantissaCount) (hne : k ≠ 0)
    (hfirst : IsInt first i) (hlast : IsInt last j) (hstep : IsInt step k) :
    GivesRange (progression first last step) host st i j k (progressionLength i j k) := by
  obtain ⟨ns, hcount, hns⟩ := countFrom_spec hj hk hlast hstep progressionLimit
    (progressionLength_lt hi hj hne) #[] (.of_isInt hfirst hi) (ahead_iff hne)
  rw [Array.empty_append] at hcount
  have hgrown : progression first last step host st = grownArray (ns.map Value.number) host st := by
    unfold progression
    rw [hcount]
    rfl
  refine ⟨ns, st.store.arrays.size, _, hgrown.trans rfl, Store.elements_newArray, hns, ?_⟩
  · intro m
    exact (ahead_iff hne m).2

theorem number_of_raw? {args : Arguments} {m : ℕ} {n : Float}
    (h : st.store.raw? (args.get m) = some (.number n)) : args.number m host st = .ok n st := by
  unfold Arguments.number Arguments.value
  rw [bind_of_ok (raw_of_raw? h host)]
  rfl

/-- What a call does with its three numbers. -/
def rangeOf (first last step : Float) : Eval Value :=
  if step == 0 then fail .invalidStep "range: step must not be zero"
  else if (step > 0 && first > last) || (step < 0 && first < last) then
    fail .invalidRange ("range: cannot go from " ++ Number.print first ++ " to " ++
      Number.print last ++ " with step " ++ Number.print step)
  else progression first last step

theorem range_three (name : Text) (a b c : Value) : range ⟨name, [a, b, c]⟩ = (do
    let first ← (Arguments.mk name [a, b, c]).number 0
    let last ← (Arguments.mk name [a, b, c]).number 1
    let step ← (Arguments.mk name [a, b, c]).number 2
    rangeOf first last step) := rfl

theorem range_two (name : Text) (a b : Value) : range ⟨name, [a, b]⟩ = (do
    let first ← (Arguments.mk name [a, b]).number 0
    let last ← (Arguments.mk name [a, b]).number 1
    rangeOf first last 1) := rfl

theorem range_one (name : Text) (b : Value) : range ⟨name, [b]⟩ = (do
    let last ← (Arguments.mk name [b]).number 0
    rangeOf 0 last 1) := rfl

section

variable {run : Runner} (ha : st.store.raw? a = some (.number first))
  (hb : st.store.raw? b = some (.number last)) (hc : st.store.raw? c = some (.number step))

include hb

theorem call_one : call run .range [b] host st = rangeOf 0 last 1 host st := by
  have harity : checkArity .range [b].length host st = .ok () st := rfl
  have hlast : (Arguments.mk Builtin.range.name [b]).number 0 host st = .ok last st := number_of_raw? hb
  unfold call
  rw [bind_of_ok harity]
  show range ⟨Builtin.range.name, [b]⟩ host st = _
  rw [range_one, bind_of_ok hlast]

include ha

theorem call_two : call run .range [a, b] host st = rangeOf first last 1 host st := by
  have harity : checkArity .range [a, b].length host st = .ok () st := rfl
  have hfirst : (Arguments.mk Builtin.range.name [a, b]).number 0 host st = .ok first st :=
    number_of_raw? ha
  have hlast : (Arguments.mk Builtin.range.name [a, b]).number 1 host st = .ok last st :=
    number_of_raw? hb
  unfold call
  rw [bind_of_ok harity]
  show range ⟨Builtin.range.name, [a, b]⟩ host st = _
  rw [range_two, bind_of_ok hfirst, bind_of_ok hlast]

include hc

theorem call_three : call run .range [a, b, c] host st = rangeOf first last step host st := by
  have harity : checkArity .range [a, b, c].length host st = .ok () st := rfl
  have hfirst : (Arguments.mk Builtin.range.name [a, b, c]).number 0 host st = .ok first st :=
    number_of_raw? ha
  have hlast : (Arguments.mk Builtin.range.name [a, b, c]).number 1 host st = .ok last st :=
    number_of_raw? hb
  have hstep : (Arguments.mk Builtin.range.name [a, b, c]).number 2 host st = .ok step st :=
    number_of_raw? hc
  unfold call
  rw [bind_of_ok harity]
  show range ⟨Builtin.range.name, [a, b, c]⟩ host st = _
  rw [range_three, bind_of_ok hfirst, bind_of_ok hlast, bind_of_ok hstep]

end

/-! ### Ranges -/

section

variable (hfirst : IsInt first i) (hlast : IsInt last j) (hstep : IsInt step k)

include hstep in
theorem step_eq_zero_iff : (step == 0) = true ↔ k = 0 := by
  rw [(isInt_iff.1 hstep).beq_iff (isInt_iff.1 isInt_zero)]
  norm_cast

include hfirst hlast hstep in
/-- The condition of the error. -/
theorem away_iff : ((step > 0 && first > last) || (step < 0 && first < last)) = true ↔
    i > j ∧ k > 0 ∨ i < j ∧ k < 0 := by
  have hzero := isInt_iff.1 isInt_zero
  have hfirst := isInt_iff.1 hfirst
  have hlast := isInt_iff.1 hlast
  have hstep := isInt_iff.1 hstep
  simp only [Bool.or_eq_true, Bool.and_eq_true, decide_eq_true_eq, gt_iff_lt]
  rw [hzero.lt_iff hstep, hlast.lt_iff hfirst, hstep.lt_iff hzero, hfirst.lt_iff hlast]
  norm_cast
  rw [and_comm, and_comm (a := k < 0)]

/-- A progression that does not lead away from its end has the length of the quotient. -/
theorem progressionLength_eq (hk : k ≠ 0) (h : ¬(i > j ∧ k > 0 ∨ i < j ∧ k < 0)) :
    (progressionLength i j k : ℤ) = ⌈((j - i : ℤ) : ℚ) / k⌉ := by
  have hquotient : (0 : ℚ) ≤ ((j - i : ℤ) : ℚ) / k := by
    obtain hneg | hpos := lt_or_gt_of_ne hk
    · exact div_nonneg_of_nonpos (by exact_mod_cast (by omega : j - i ≤ 0)) (by exact_mod_cast hneg.le)
    · exact div_nonneg (by exact_mod_cast (by omega : 0 ≤ j - i)) (by exact_mod_cast hpos.le)
  exact Int.toNat_of_nonneg (Int.ceil_nonneg hquotient)

include hfirst hlast hstep in
/-- What becomes of three integers. -/
theorem rangeOf_cases (host : Host) (st : State) (hi : i.natAbs ≤ Binary.mantissaCount)
    (hj : j.natAbs ≤ Binary.mantissaCount) (hk : k.natAbs ≤ Binary.mantissaCount) :
    k = 0 ∧ FailsWith (rangeOf first last step) host st .invalidStep ∨
      k ≠ 0 ∧ (i > j ∧ k > 0 ∨ i < j ∧ k < 0) ∧
        FailsWith (rangeOf first last step) host st .invalidRange ∨
      k ≠ 0 ∧ ¬(i > j ∧ k > 0 ∨ i < j ∧ k < 0) ∧
        rangeOf first last step = progression first last step ∧
        GivesRange (progression first last step) host st i j k (progressionLength i j k) := by
  unfold rangeOf
  by_cases hzero : k = 0
  · rw [if_pos ((step_eq_zero_iff hstep).2 hzero)]
    exact .inl ⟨hzero, _, rfl⟩
  rw [if_neg (mt (step_eq_zero_iff hstep).1 hzero)]
  by_cases haway : i > j ∧ k > 0 ∨ i < j ∧ k < 0
  · rw [if_pos ((away_iff hfirst hlast hstep).2 haway)]
    exact .inr (.inl ⟨hzero, haway, _, rfl⟩)
  · rw [if_neg (mt (away_iff hfirst hlast hstep).1 haway)]
    exact .inr (.inr ⟨hzero, haway, rfl, progression_gives host st hi hj hk hzero hfirst hlast hstep⟩)

end

/-- A progression by one that does not go up is empty. -/
theorem progressionLength_eq_zero (h : i > j) : progressionLength i j 1 = 0 := by
  have hnone : ¬Ahead j 1 (i + (0 : ℕ) * 1 : ℤ) := by
    unfold Ahead
    norm_cast
    omega
  have hlength := mt (ahead_iff one_ne_zero 0).2 hnone
  omega

/-- What the operator makes of two integers. -/
theorem evalRange_spec {run : Runner} {e₁ e₂ : Expr} {scope : ScopeId} {before middle : State}
    (hfirst : IsInt first i) (hlast : IsInt last j) (hi : i.natAbs ≤ Binary.mantissaCount)
    (hj : j.natAbs ≤ Binary.mantissaCount) (ha : st.store.raw? a = some (.number first))
    (hb : st.store.raw? b = some (.number last)) (he₁ : run.expr e₁ scope host before = .ok a middle)
    (he₂ : run.expr e₂ scope host middle = .ok b st) :
    (i ≤ j → run.evalRange e₁ e₂ scope host before = rangeOf first last 1 host st) ∧
    (i > j → ∃ id st', run.evalRange e₁ e₂ scope host before = .ok (.array id) st' ∧
      st'.store.elements id = []) := by
  have hone : IsInt 1 1 := ⟨by decide +kernel, by decide +kernel⟩
  have hrange : run.evalRange e₁ e₂ scope host before = progression first last 1 host st := by
    rw [Runner.evalRange_eq, bind_of_ok he₁, bind_of_ok he₂, bind_of_ok (raw_of_raw? ha host),
      bind_of_ok (raw_of_raw? hb host)]
  rw [hrange]
  constructor
  · intro hle
    obtain ⟨hbad, -⟩ | ⟨-, hbad, -⟩ | ⟨-, -, heq, -⟩ :=
      rangeOf_cases hfirst hlast hone host st hi hj (by decide)
    · exact absurd hbad (by decide)
    · omega
    · rw [heq]
  · intro hgt
    obtain ⟨ns, id, st', hgives, helements, hcounts, -⟩ :=
      progression_gives host st hi hj (by decide) (by decide) hfirst hlast hone
    have hempty := hcounts.length.trans (progressionLength_eq_zero hgt)
    rw [List.eq_nil_of_length_eq_zero hempty] at helements
    exact ⟨id, st', hgives, helements⟩

/-- A call by name is the call as soon as the arguments are evaluated. -/
theorem callByName_range {run : Runner} {args : List Expr} {vs : List Value} {scope : ScopeId}
    {before : State}
    (harity : ∀ state, checkArity .range vs.length host state = .ok () state)
    (hlength : args.length = vs.length) (hargs : run.exprs args scope host before = .ok vs st) :
    callByName run .range args scope host before = call run .range vs host st := by
  have hnamed : callByName run .range args scope = (do
      checkArity .range args.length
      perform run .range ⟨Builtin.range.name, ← run.exprs args scope⟩) := rfl
  unfold call
  rw [hnamed, hlength, bind_of_ok (harity before), bind_of_ok hargs, bind_of_ok (harity st)]

theorem FailsWith.code_eq {x : Eval Value} {code code' : Code} (h : FailsWith x host st code)
    (h' : FailsWith x host st code') : code = code' := by
  obtain ⟨message, h⟩ := h
  obtain ⟨message', h'⟩ := h'
  cases h.symm.trans h'
  rfl

theorem GivesRange.not_failsWith {x : Eval Value} {code : Code} {n : ℕ}
    (h : GivesRange x host st i j k n) : ¬FailsWith x host st code := by
  rintro ⟨message, hfails⟩
  obtain ⟨ns, id, st', hgives, -⟩ := h
  cases hgives.symm.trans hfails

/-- What `range` and `..` do with values that lead to the integers `i`, `j` and `k`. -/
structure RangeCalls (run : Runner) (host : Host) (st : State) (a b c : Value) (i j k : ℤ) : Prop where
  /-- The step must not be zero. -/
  invalidStep : FailsWith (call run .range [a, b, c]) host st .invalidStep ↔ k = 0
  /-- It must not lead away from the end. -/
  invalidRange : FailsWith (call run .range [a, b, c]) host st .invalidRange ↔
    k ≠ 0 ∧ (i > j ∧ k > 0 ∨ i < j ∧ k < 0)
  /-- Otherwise the progression is given. -/
  gives : k ≠ 0 → ¬(i > j ∧ k > 0 ∨ i < j ∧ k < 0) → ∃ n : ℕ, (n : ℤ) = ⌈((j - i : ℤ) : ℚ) / k⌉ ∧
    GivesRange (call run .range [a, b, c]) host st i j k n
  /-- One argument is the end. -/
  one : call run .range [b] host st = call run .range [.number 0, b, .number 1] host st
  /-- Two arguments are start and end. -/
  two : call run .range [a, b] host st = call run .range [a, b, .number 1] host st
  /-- The operator gives the same array if it goes up, and the empty array if it does not. -/
  operator : ∀ e₁ e₂ scope before middle, run.expr e₁ scope host before = .ok a middle →
    run.expr e₂ scope host middle = .ok b st →
    (i ≤ j → run.evalRange e₁ e₂ scope host before = call run .range [a, b, .number 1] host st) ∧
    (i > j → ∃ id st', run.evalRange e₁ e₂ scope host before = .ok (.array id) st' ∧
      st'.store.elements id = [])
  /-- A call by name is the same call as soon as its arguments are evaluated. -/
  named : ∀ args vs scope before, vs ∈ [[b], [a, b], [a, b, c]] → args.length = vs.length →
    run.exprs args scope host before = .ok vs st →
    callByName run .range args scope host before = call run .range vs host st

theorem range_calls (run : Runner) (host : Host) (st : State) {a b c : Value} {i j k : ℤ}
    (ha : st.store.IsInt a i) (hb : st.store.IsInt b j) (hc : st.store.IsInt c k)
    (hi : i.natAbs ≤ Binary.mantissaCount) (hj : j.natAbs ≤ Binary.mantissaCount)
    (hk : k.natAbs ≤ Binary.mantissaCount) : RangeCalls run host st a b c i j k := by
  obtain ⟨first, ha, hfirst⟩ := ha
  obtain ⟨last, hb, hlast⟩ := hb
  obtain ⟨step, hc, hstep⟩ := hc
  have hzero : st.store.raw? (.number 0) = some (.number 0) := rfl
  have hunit : st.store.raw? (.number 1) = some (.number 1) := rfl
  have hcall : call run .range [a, b, c] host st = rangeOf first last step host st := call_three ha hb hc
  have hcases := rangeOf_cases hfirst hlast hstep host st hi hj hk
  constructor
  case invalidStep =>
    unfold FailsWith
    rw [hcall]
    obtain ⟨hzero, hfails⟩ | ⟨hne, -, hfails⟩ | ⟨hne, -, heq, hgives⟩ := hcases
    · exact iff_of_true hfails hzero
    · exact iff_of_false (fun h => absurd (hfails.code_eq h) nofun) hne
    · rw [heq]
      exact iff_of_false hgives.not_failsWith hne
  case invalidRange =>
    unfold FailsWith
    rw [hcall]
    obtain ⟨hzero, hfails⟩ | ⟨hne, haway, hfails⟩ | ⟨-, htoward, heq, hgives⟩ := hcases
    · exact iff_of_false (fun h => absurd (hfails.code_eq h) nofun) fun h => h.1 hzero
    · exact iff_of_true hfails ⟨hne, haway⟩
    · rw [heq]
      exact iff_of_false hgives.not_failsWith fun h => htoward h.2
  case gives =>
    intro hne htoward
    refine ⟨_, progressionLength_eq hne htoward, ?_⟩
    unfold GivesRange
    rw [hcall]
    obtain ⟨hzero, -⟩ | ⟨-, haway, -⟩ | ⟨-, -, heq, hgives⟩ := hcases
    · exact absurd hzero hne
    · exact absurd haway htoward
    · rw [heq]
      exact hgives
  case one => rw [call_one hb, call_three hzero hb hunit]
  case two => rw [call_two ha hb, call_three ha hb hunit]
  case operator =>
    intro e₁ e₂ scope before middle he₁ he₂
    rw [call_three ha hb hunit]
    exact evalRange_spec hfirst hlast hi hj ha hb he₁ he₂
  case named =>
    intro args vs scope before hvs hlength hargs
    refine callByName_range (fun state => ?_) hlength hargs
    simp only [List.mem_cons, List.not_mem_nil, or_false] at hvs
    rcases hvs with rfl | rfl | rfl <;> rfl

/-- From 1 on by 4 there are three integers before 10. -/
theorem range_one_five_nine :
    let st : State := { store := {} }
    st.store.IsInt (.number 1) 1 ∧ st.store.IsInt (.number 10) 10 ∧ st.store.IsInt (.number 4) 4 ∧
      GivesRange (call (evaluator 1) .range [.number 1, .number 10, .number 4]) {} st 1 10 4 3 := by
  intro st
  have hone : st.store.IsInt (.number 1) 1 := ⟨1, rfl, by decide +kernel, by decide +kernel⟩
  have hten : st.store.IsInt (.number 10) 10 := ⟨10, rfl, by decide +kernel, by decide +kernel⟩
  have hfour : st.store.IsInt (.number 4) 4 := ⟨4, rfl, by decide +kernel, by decide +kernel⟩
  refine ⟨hone, hten, hfour, ?_⟩
  obtain ⟨n, hn, hgives⟩ := (range_calls (evaluator 1) {} st hone hten hfour (by decide) (by decide)
    (by decide)).gives (by decide) (by decide)
  have hceil : ⌈((10 - 1 : ℤ) : ℚ) / (4 : ℤ)⌉ = 3 := by
    rw [Int.ceil_eq_iff]
    norm_num
  rw [hceil] at hn
  obtain rfl : n = 3 := by exact_mod_cast hn
  exact hgives

end Library

end ScriptLang
