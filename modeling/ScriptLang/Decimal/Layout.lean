import ScriptLang.Decimal.Shortest
import ScriptLang.Text.Basic

/-!
# Number texts

A number is written from its shortest decimal. A `Layout` says when the exponent form is used and
how the exponent looks; the language has one for printing, one for JSON and one for program texts.
-/

namespace ScriptLang

/-- How numbers are written. -/
structure Layout where
  /-- Whether a decimal whose first digit has this power of ten is written with an exponent. -/
  usesExponent : Int → Bool
  /-- The least number of digits of the exponent. -/
  exponentDigits : Int → Nat

namespace Layout

/-- The digits of a decimal. -/
def digits (d : Decimal) : Text := Text.ofNat d.digits

/-- `n` zeros. -/
def zeros (n : Nat) : Text := List.replicate n 0x30

/-- A decimal without exponent. -/
def positional (d : Decimal) : Text :=
  let ds := digits d
  let point := d.power + 1
  if point ≤ 0 then "0." ++ zeros (-point).toNat ++ ds
  else if point ≥ ds.length then ds ++ zeros (point.toNat - ds.length)
  else ds.take point.toNat ++ "." ++ ds.drop point.toNat

/-- A decimal with one digit before the point and an exponent. -/
def scientific (width : Int → Nat) (d : Decimal) : Text :=
  let ds := digits d
  let size := Text.ofNat d.power.natAbs
  let fraction : Text := if ds.length > 1 then "." ++ ds.drop 1 else []
  let mark : Text := if d.power < 0 then "e-" else "e+"
  ds.take 1 ++ fraction ++ mark ++ zeros (width d.power - size.length) ++ size

/-- A number under a layout. Zero keeps its sign. -/
def write (l : Layout) (n : Float) : Text :=
  match Binary.ofFloat n with
  | .nan => "NaN"
  | .infinite negative => if negative then "-Inf" else "+Inf"
  | .finite negative m q =>
    let sign : Text := if negative then "-" else []
    if m == 0 then sign ++ "0"
    else
      let d := Decimal.shortest m q
      sign ++ (if l.usesExponent d.power then scientific l.exponentDigits d else positional d)

/-- Exponents outside -4 to 5 are written, with a sign and at least two digits. -/
def general : Layout := ⟨fun x => x < -4 || x ≥ 6, fun _ => 2⟩

/-- JSON writes exponents below -6 and from 21 on; only the positive ones have two digits. -/
def json : Layout := ⟨fun x => x < -6 || x ≥ 21, fun x => if x < 0 then 1 else 2⟩

/-- No exponents. -/
def plain : Layout := ⟨fun _ => false, fun _ => 1⟩

end Layout

namespace Number

/-- An integer-valued number in full, if its size is below `limit`. -/
def integerText? (limit : Nat) (n : Float) : Option Text :=
  match truncate? n with
  | some i => if isWhole n && i.natAbs < limit then some (Text.ofInt i) else none
  | none => none

/-- The text of a number as programs print it: integers below `10 ^ 21` in full, all other numbers
in the general layout. -/
def print (n : Float) : Text := (integerText? 1000000000000000000000 n).getD (Layout.general.write n)

/-- The text of a number in a program: integers below `10 ^ 15` in full, all other numbers without
exponent. -/
def source (n : Float) : Text := (integerText? 1000000000000000 n).getD (Layout.plain.write n)

/-- The text of a finite number in JSON: integers below `2 ^ 53` in full, all other numbers in the
layout of JSON. -/
def json (n : Float) : Text := (integerText? Binary.mantissaCount n).getD (Layout.json.write n)

/-- The text of a number in a tree dump. -/
def general (n : Float) : Text := Layout.general.write n

end Number

end ScriptLang
