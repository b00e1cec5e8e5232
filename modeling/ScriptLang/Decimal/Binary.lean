/-!
# Numbers as binary fractions

A number of the language is a 64-bit binary floating-point number. This module takes it apart into
an integer times a power of two, which is exact, and puts a fraction of natural numbers together
into the nearest number.
-/

namespace ScriptLang

/-- What a number is: not a number, an infinity, or `± mantissa · 2 ^ exponent`. -/
inductive Binary where
  /-- Not a number. -/
  | nan
  /-- An infinity. -/
  | infinite (negative : Bool)
  /-- A finite number; zero has the mantissa zero and a sign. -/
  | finite (negative : Bool) (mantissa : Nat) (exponent : Int)
deriving DecidableEq, Repr

namespace Binary

/-- The least exponent of a finite number. -/
def minExponent : Int := -1074

/-- The greatest exponent of a finite number. -/
def maxExponent : Int := 971

/-- The least mantissa that has all 53 bits: `2 ^ 52`. -/
def hiddenBit : Nat := 4503599627370496

/-- The mantissas lie below this bound: `2 ^ 53`. -/
def mantissaCount : Nat := 9007199254740992

/-- The bit of the sign: `2 ^ 63`. -/
def signBit : Nat := 9223372036854775808

/-- The parts of a number. -/
def ofFloat (n : Float) : Binary :=
  let bits : Nat := n.toBits.toNat
  let negative := bits / signBit == 1
  let scale : Nat := bits / hiddenBit % 2048
  let fraction : Nat := bits % hiddenBit
  if scale == 2047 then
    if fraction == 0 then .infinite negative else .nan
  else if scale == 0 then .finite negative fraction minExponent
  else .finite negative (hiddenBit + fraction) ((scale : Int) - 1075)

/-- The number with the given sign, mantissa below `2 ^ 53` and exponent in range. -/
def toFloat (negative : Bool) (mantissa : Nat) (exponent : Int) : Float :=
  let sign := if negative then signBit else 0
  let magnitude :=
    if mantissa < hiddenBit then mantissa
    else (exponent + 1075).toNat * hiddenBit + (mantissa - hiddenBit)
  Float.ofBits (sign + magnitude).toUInt64

/-- The integer nearest to `num / den`; a half goes to the even neighbour. -/
def roundDiv (num den : Nat) : Nat :=
  let q := num / den
  let r := num % den
  if 2 * r < den then q
  else if 2 * r > den then q + 1
  else if q % 2 == 0 then q else q + 1

/-- The exponent at which `num / den` has a mantissa of 53 bits, or the least exponent. -/
def fittingExponent (num den : Nat) : Int :=
  let guess : Int := (num.log2 : Int) - (den.log2 : Int) - 53
  let scaled (e : Int) : Nat := (num * Nat.pow 2 (-e).toNat) / (den * Nat.pow 2 e.toNat)
  let e := if scaled guess < mantissaCount then guess else guess + 1
  max minExponent e

/-- The number nearest to `num / den`; a half goes to the even mantissa. There is none when the
fraction lies beyond the finite numbers. -/
def nearest? (negative : Bool) (num den : Nat) : Option Float :=
  if num == 0 then some (toFloat negative 0 minExponent)
  else
    let e := fittingExponent num den
    let m := roundDiv (num * Nat.pow 2 (-e).toNat) (den * Nat.pow 2 e.toNat)
    let (m, e) := if m == mantissaCount then (hiddenBit, e + 1) else (m, e)
    if e > maxExponent then none else some (toFloat negative m e)

end Binary

namespace Number

/-- The infinity of the given sign. -/
def infinity (negative : Bool) : Float :=
  Float.ofBits (if negative then 0xfff0000000000000 else 0x7ff0000000000000)

/-- Not a number. -/
def notANumber : Float := Float.ofBits 0x7ff8000000000001

/-- Whether a number is finite. -/
def isFinite (n : Float) : Bool :=
  match Binary.ofFloat n with
  | .finite .. => true
  | _ => false

/-- A finite number with its fraction cut off. -/
def truncate? (n : Float) : Option Int :=
  match Binary.ofFloat n with
  | .finite negative m e =>
    let size : Nat := if e ≥ 0 then m * Nat.pow 2 e.toNat else m / Nat.pow 2 (-e).toNat
    some (if negative then -size else size)
  | _ => none

/-- Whether a number is an integer. -/
def isWhole (n : Float) : Bool :=
  match Binary.ofFloat n with
  | .finite _ m e => e ≥ 0 || m % Nat.pow 2 (-e).toNat == 0
  | _ => false

/-- Whether a number has no fraction; the infinities have none. -/
def isIntegral (n : Float) : Bool :=
  match Binary.ofFloat n with
  | .infinite _ => true
  | _ => isWhole n

/-- How many integers of 64 bits there are: `2 ^ 64`. -/
def wordCount : Nat := 18446744073709551616

/-- The least integer of 64 bits: `-2 ^ 63`. -/
def leastWord : Int := -9223372036854775808

/-- Whether an integer fits into 64 bits. -/
def isWord (i : Int) : Bool := leastWord ≤ i && i < -leastWord

/-- The value of a number as a machine integer of 64 bits: its fraction is cut off, and what does
not fit is the least integer. -/
def toInteger (n : Float) : Int :=
  match truncate? n with
  | some i => if isWord i then i else leastWord
  | none => leastWord

/-- The number nearest to an integer. -/
def ofInt (i : Int) : Float :=
  (Binary.nearest? (i < 0) i.natAbs 1).getD (infinity (i < 0))

/-- The number nearest to a natural number. -/
def ofNat (n : Nat) : Float := (Binary.nearest? false n 1).getD (infinity false)

/-- The remainder of the division of `x` by `y` toward zero, with the sign of `x`. It is computed
without rounding. -/
def remainder (x y : Float) : Float :=
  match Binary.ofFloat x, Binary.ofFloat y with
  | .finite nx mx ex, .finite _ my ey =>
    if my == 0 then notANumber
    else
      let e := min ex ey
      let r := (mx * Nat.pow 2 (ex - e).toNat) % (my * Nat.pow 2 (ey - e).toNat)
      (Binary.nearest? nx (r * Nat.pow 2 e.toNat) (Nat.pow 2 (-e).toNat)).getD notANumber
  | .finite .., .infinite _ => x
  | _, _ => notANumber

end Number

end ScriptLang
