import ScriptLang.Decimal.Binary

/-!
# The shortest decimal of a number

Every real number in a certain interval around a finite number is read back as that number. Of the
decimals in the interval, the one with the fewest digits is taken, and of those the nearest; of two
that are equally near, the one with an even last digit.
-/

namespace ScriptLang

/-- The number of decimal digits of a natural number; zero has none. -/
def digitCount (n : Nat) : Nat := if n == 0 then 0 else (Nat.toDigits 10 n).length

/-- A positive decimal `digits · 10 ^ exponent`. -/
structure Decimal where
  /-- The digits, read as a natural number. -/
  digits : Nat
  /-- The power of ten of the last digit. -/
  exponent : Int
deriving DecidableEq, Repr

namespace Decimal

/-- The order of `c · 10 ^ e` and `x · 2 ^ p`. -/
def compareBinary (c : Nat) (e : Int) (x : Nat) (p : Int) : Ordering :=
  compare (c * Nat.pow 10 e.toNat * Nat.pow 2 (-p).toNat)
    (x * Nat.pow 2 p.toNat * Nat.pow 10 (-e).toNat)

/-- The power of ten of the first digit of `m · 2 ^ q`, for a positive `m`. -/
def leadingPower (m : Nat) (q : Int) : Int :=
  let num := m * Nat.pow 2 q.toNat
  let den := Nat.pow 2 (-q).toNat
  if num ≥ den then (digitCount (num / den) : Int) - 1
  else -(digitCount ((den + num - 1) / num - 1) : Int)

/-- The interval of the reals that are read as `m · 2 ^ q`, in units of `2 ^ (q - 2)`. Below a power
of two the neighbours are closer together. -/
def bounds (m : Nat) (q : Int) : Nat × Nat :=
  (if m == Binary.hiddenBit && q > Binary.minExponent then 4 * m - 1 else 4 * m - 2, 4 * m + 2)

/-- Whether `c · 10 ^ e` is read as `m · 2 ^ q`. The ends of the interval belong to an even
mantissa. -/
def readsAs (m : Nat) (q : Int) (c : Nat) (e : Int) : Bool :=
  let (low, high) := bounds m q
  let lower := compareBinary c e low (q - 2)
  let upper := compareBinary c e high (q - 2)
  (lower == .gt || (lower == .eq && m % 2 == 0)) && (upper == .lt || (upper == .eq && m % 2 == 0))

/-- Whether the quotient of `num` by `den`, rounded to the nearest natural number, is rounded down. A
half goes to the even neighbour. -/
def roundsDown (num den : Nat) : Bool :=
  2 * (num % den) < den || (2 * (num % den) == den && num / den % 2 == 0)

/-- The neighbour of `m · 2 ^ q` on the grid `10 ^ e` that is read as it, the nearer if both are. -/
def onGrid? (m : Nat) (q e : Int) : Option Decimal :=
  let num := m * Nat.pow 2 q.toNat * Nat.pow 10 (-e).toNat
  let den := Nat.pow 2 (-q).toNat * Nat.pow 10 e.toNat
  let below := num / den
  let above := below + 1
  let fromBelow := below > 0 && readsAs m q below e
  let fromAbove := readsAs m q above e
  if fromBelow && (!fromAbove || roundsDown num den) then some ⟨below, e⟩
  else if fromAbove then some ⟨above, e⟩
  else none

/-- The decimal without zeros at its end. The first argument bounds the number of zeros. -/
def strip : Nat → Decimal → Decimal
  | 0, d => d
  | n + 1, d => if d.digits % 10 == 0 && d.digits > 0 then strip n ⟨d.digits / 10, d.exponent + 1⟩ else d

/-- The first hit on the grids from the coarsest to the finest. -/
def search (m : Nat) (q : Int) (top : Int) : Nat → Nat → Decimal
  | 0, _ => ⟨m * Nat.pow 2 q.toNat, 0⟩
  | n + 1, k =>
    match onGrid? m q (top - k) with
    | some d => d
    | none => search m q top n (k + 1)

/-- The shortest decimal that is read as `m · 2 ^ q`, for a positive `m`. Seventeen digits always
suffice. -/
def shortest (m : Nat) (q : Int) : Decimal :=
  strip 20 (search m q (leadingPower m q) 18 0)

/-- The power of ten of the first digit. -/
def power (d : Decimal) : Int := d.exponent + digitCount d.digits - 1

end Decimal

end ScriptLang
