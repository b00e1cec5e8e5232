import ScriptLang.Decimal.Binary
import ScriptLang.Text.Basic

/-!
# Reading numbers

A number text is a decimal or hexadecimal fraction with an optional exponent, or one of the names
of the infinities and of not-a-number. Underscores may stand between digits. The result is the
nearest number; a text beyond the finite numbers is refused.
-/

namespace ScriptLang.Number

/-- A fraction read so far: the digits as a natural number, how many there are, and how many of
them follow the point. -/
structure Fraction where
  /-- The digits without the point. -/
  value : Nat := 0
  /-- The number of digits. -/
  count : Nat := 0
  /-- The number of digits after the point. -/
  places : Nat := 0
  /-- Whether the point has been read. -/
  pointed : Bool := false

/-- A base of number texts. -/
structure Radix where
  /-- The number of different digits. -/
  base : Nat
  /-- The value of a digit. -/
  digit? : UInt8 → Option Nat
  /-- The letter before the exponent. -/
  mark : UInt8

/-- Decimal digits, with an exponent after `e`. -/
def Radix.decimal : Radix :=
  ⟨10, fun b => if Text.isDigit b then some (b.toNat - 0x30) else none, 0x65⟩

/-- Hexadecimal digits, with an exponent after `p`. -/
def Radix.hexadecimal : Radix := ⟨16, Text.hexDigit?, 0x70⟩

/-- Read digits, underscores and at most one point; what follows is left over. -/
def readFraction (radix : Radix) : Fraction → Text → Fraction × Text
  | f, [] => (f, [])
  | f, b :: r =>
    if b == 0x5f then readFraction radix f r
    else if b == 0x2e then
      if f.pointed then (f, b :: r) else readFraction radix { f with pointed := true } r
    else match radix.digit? b with
      | some d =>
        readFraction radix
          { f with
            value := f.value * radix.base + d
            count := f.count + 1
            places := if f.pointed then f.places + 1 else f.places } r
      | none => (f, b :: r)

/-- The digits of an exponent; beyond four digits the size no longer matters. -/
def readExponentDigits : Nat → Text → Option Nat
  | e, [] => some e
  | e, b :: r =>
    if b == 0x5f then readExponentDigits e r
    else if Text.isDigit b then
      readExponentDigits (if e < 10000 then 10 * e + (b.toNat - 0x30) else e) r
    else none

/-- An exponent: a sign or none, then digits up to the end of the text, the first of which is no
underscore. -/
def readExponent (t : Text) : Option Int :=
  let (negative, ds) := match t with
    | 0x2b :: r => (false, r)
    | 0x2d :: r => (true, r)
    | _ => (false, t)
  match ds with
  | b :: _ =>
    if Text.isDigit b then
      (readExponentDigits 0 ds).map fun e => if negative then -(e : Int) else e
    else none
  | [] => none

/-- What stood before a byte when underscores are checked. -/
inductive Before where
  /-- The beginning of the text. -/
  | start
  /-- A digit. -/
  | digit
  /-- An underscore. -/
  | underscore
  /-- Any other byte. -/
  | other
deriving DecidableEq

/-- Whether every underscore stands between digits. -/
def underscoresFit (isDigit : UInt8 → Bool) : Before → Text → Bool
  | s, [] => s != .underscore
  | s, b :: r =>
    if isDigit b then underscoresFit isDigit .digit r
    else if b == 0x5f then s == .digit && underscoresFit isDigit .underscore r
    else s != .underscore && underscoresFit isDigit .other r

/-- Read an unsigned number text in a base, from what follows the mark of the base. -/
def readUnsigned (radix : Radix) (negative : Bool) (t : Text) : Option Float := do
  let (f, rest) := readFraction radix {} t
  if f.count == 0 then none
  else
    let e ← match rest with
      | [] => if radix.base == 16 then none else some 0
      | b :: r => if Text.lowerByte b == radix.mark then readExponent r else none
    if radix.base == 16 then
      let e := e - 4 * f.places
      Binary.nearest? negative (f.value * Nat.pow 2 e.toNat) (Nat.pow 2 (-e).toNat)
    else
      let e := e - f.places
      if f.value == 0 then Binary.nearest? negative 0 1
      else Binary.nearest? negative (f.value * Nat.pow 10 e.toNat) (Nat.pow 10 (-e).toNat)

/-- The sign of a text and what follows it. -/
def splitSign (t : Text) : Bool × Bool × Text :=
  match t with
  | 0x2b :: r => (true, false, r)
  | 0x2d :: r => (true, true, r)
  | _ => (false, false, t)

/-- Read an unsigned decimal text. -/
def readDecimal (negative : Bool) (t : Text) : Option Float :=
  if underscoresFit Text.isDigit .start t then readUnsigned .decimal negative t else none

/-- Read a number text. -/
def read? (t : Text) : Option Float :=
  let (signed, negative, body) := splitSign t
  let name := Text.lowerAscii body
  if name = "inf" || name = "infinity" then some (infinity negative)
  else if name = "nan" then if signed then none else some notANumber
  else match body with
    | 0x30 :: x :: d :: r =>
      if Text.lowerByte x == 0x78 then
        if underscoresFit (fun b => (Text.hexDigit? b).isSome) .digit (d :: r) then
          readUnsigned .hexadecimal negative (d :: r)
        else none
      else readDecimal negative body
    | _ => readDecimal negative body

end ScriptLang.Number
