import ScriptLang.Decimal.Binary

/-!
# Powers

The power of two numbers. A whole exponent is worked off bit by bit, with the significand and the
power of two of the base kept apart, so that only the last step can overflow; a fraction of the
exponent goes through the logarithm. The special numbers have their own rules: every number to the
zeroth power and every power of one is one, and a negative number has no broken powers.
-/

namespace ScriptLang.Number

/-- The number `n · 2 ^ e`, rounded once. -/
def scale (n : Float) (e : Int) : Float :=
  match Binary.ofFloat n with
  | .finite negative m q =>
    if m == 0 then n
    else
      let p := q + e
      (Binary.nearest? negative (m * Nat.pow 2 p.toNat) (Nat.pow 2 (-p).toNat)).getD (infinity negative)
  | _ => n

/-- The number as a significand from one half up to one and a power of two. -/
def split (n : Float) : Float × Int :=
  match Binary.ofFloat n with
  | .finite _ m q =>
    if m == 0 then (n, 0)
    else
      let e := q + m.log2 + 1
      (scale n (-e), e)
  | _ => (n, 0)

/-- Whether a number is negative or the negative zero. -/
def isNegative (n : Float) : Bool :=
  match Binary.ofFloat n with
  | .finite negative _ _ => negative
  | .infinite negative => negative
  | .nan => false

/-- Whether a number is an odd integer below `2 ^ 53`. -/
def isOdd (n : Float) : Bool :=
  match truncate? n with
  | some i => isWhole n && i.natAbs < Binary.mantissaCount && i.natAbs % 2 == 1
  | none => false

/-- Multiply `a · 2 ^ ae` by the `i`-th power of `x · 2 ^ xe`, the lowest bit of `i` first; `n` bounds
the number of bits. -/
def powerSteps : Nat → Nat → Float → Int → Float → Int → Float × Int
  | 0, _, _, _, a, ae => (a, ae)
  | n + 1, i, x, xe, a, ae =>
    if i == 0 then (a, ae)
    else if xe < -4096 || 4096 < xe then (a, ae + xe)
    else
      let (a, ae) := if i % 2 == 1 then (a * x, ae + xe) else (a, ae)
      let y := x * x
      if y < 0.5 then powerSteps n (i / 2) (y + y) (2 * xe - 1) a ae
      else powerSteps n (i / 2) y (2 * xe) a ae

/-- The power of a finite base other than zero with a finite exponent. -/
def finitePower (x y : Float) : Float :=
  let size := y.abs
  let whole := size.floor
  let fraction := size - whole
  if fraction != 0 && x < 0 then notANumber
  else if whole ≥ 9223372036854775808 then
    if x == -1 then 1
    else if (x.abs < 1) == (y > 0) then 0
    else infinity false
  else
    let up := fraction > 0.5
    let fraction := if up then fraction - 1 else fraction
    let whole := if up then whole + 1 else whole
    let a : Float := if fraction == 0 then 1 else Float.exp (fraction * Float.log x)
    let (x, xe) := split x
    let (a, ae) := powerSteps 64 (toInteger whole).toNat x xe a 0
    if y < 0 then scale (1 / a) (-ae) else scale a ae

/-- The power of a zero. -/
def zeroPower (x y : Float) : Float :=
  let signed := isNegative x && isOdd y
  if y < 0 then infinity signed else if signed then x else 0

/-- The power with an infinite exponent. -/
def endlessPower (x y : Float) : Float :=
  if x == -1 then 1
  else if (x.abs < 1) == (y > 0) then 0
  else infinity false

/-- The power of an infinite base with a finite exponent. -/
def infinitePower (x y : Float) : Float :=
  if isNegative x then zeroPower (-0.0) (-y) else if y < 0 then 0 else infinity false

/-- The power `x ^ y`. -/
def power (x y : Float) : Float :=
  if y == 0 || x == 1 then 1
  else if y == 1 then x
  else if x.isNaN || y.isNaN then notANumber
  else if x == 0 then zeroPower x y
  else if y.isInf then endlessPower x y
  else if x.isInf then infinitePower x y
  else if y == 0.5 then x.sqrt
  else if y == -0.5 then 1 / x.sqrt
  else finitePower x y

end ScriptLang.Number
