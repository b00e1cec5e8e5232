import ScriptLang.Decimal.Reader
import ScriptLang.Json.Basic

/-!
# Reading JSON

A JSON text is one value with blanks around its parts. Malformed characters in strings are read as
U+FFFD, and so is half of a surrogate pair without its other half. Sequences and objects may be
nested up to a fixed depth. A number beyond the finite numbers is refused.
-/

namespace ScriptLang.Json

/-- The greatest depth of nesting that is read. -/
def maxDepth : Nat := 10000

/-- A blank. -/
def isBlank (b : UInt8) : Bool := b == 0x20 || b == 0x09 || b == 0x0a || b == 0x0d

/-- The text without blanks at its start. -/
def skipBlanks (t : Text) : Text := t.dropWhile isBlank

/-- Four hexadecimal digits. -/
def readCode (t : Text) : Option (Nat × Text) :=
  match t with
  | a :: b :: c :: d :: r => (Text.ofHex? [a, b, c, d]).map (·, r)
  | _ => none

/-- Whether a number is the first half of a surrogate pair. -/
def isHigh (code : Nat) : Bool := 0xd800 ≤ code && code ≤ 0xdbff

/-- Whether a number is the second half of a surrogate pair. -/
def isLow (code : Nat) : Bool := 0xdc00 ≤ code && code ≤ 0xdfff

/-- The byte that a one-letter escape stands for. -/
def escaped? (b : UInt8) : Option UInt8 :=
  match b with
  | 0x22 => some 0x22
  | 0x5c => some 0x5c
  | 0x2f => some 0x2f
  | 0x62 => some 0x08
  | 0x66 => some 0x0c
  | 0x6e => some 0x0a
  | 0x72 => some 0x0d
  | 0x74 => some 0x09
  | _ => none

/-- The characters of a string up to the closing quote. -/
def readString : Nat → Text → Option (Text × Text)
  | 0, _ => none
  | n + 1, t =>
    match t with
    | [] => none
    | 0x22 :: r => some ([], r)
    | 0x5c :: 0x75 :: r => do
      let (high, r) ← readCode r
      let low : Option (Nat × Text) := match r with
        | 0x5c :: 0x75 :: r' => readCode r'
        | _ => none
      match low with
      | some (low, r') =>
        if isHigh high && isLow low then
          let (rest, r) ← readString n r'
          return (Text.encode (0x10000 + (high - 0xd800) * 1024 + (low - 0xdc00)) ++ rest, r)
        else
          let (rest, r) ← readString n r
          return (Text.encode high ++ rest, r)
      | none =>
        let (rest, r) ← readString n r
        return (Text.encode high ++ rest, r)
    | 0x5c :: e :: r => do
      let b ← escaped? e
      let (rest, r) ← readString n r
      return (b :: rest, r)
    | b :: r => if b < 0x20 then none else (readString n r).map fun (rest, r) => (b :: rest, r)

/-- Digits at the start of a text. -/
def digits (t : Text) : Text × Text := (t.takeWhile Text.isDigit, t.dropWhile Text.isDigit)

/-- The point and the digits after it at the start of a text, if there is a point. -/
def placesText (t : Text) : Option (Text × Text) :=
  match t with
  | 0x2e :: r =>
    let (ds, r) := digits r
    if ds.isEmpty then none else some ("." ++ ds, r)
  | _ => some ([], t)

/-- The exponent at the start of a text, if there is one. -/
def exponentText (t : Text) : Option (Text × Text) :=
  match t with
  | e :: r =>
    if Text.lowerByte e == 0x65 then
      let (sign, r) : Text × Text := match r with
        | 0x2b :: r => ("+", r)
        | 0x2d :: r => ("-", r)
        | _ => ([], r)
      let (ds, r) := digits r
      if ds.isEmpty then none else some ("e" ++ sign ++ ds, r)
    else some ([], t)
  | [] => some ([], t)

/-- A number text at the start of a text. -/
def numberText (t : Text) : Option (Text × Text) := do
  let (sign, t) : Text × Text := match t with
    | 0x2d :: r => ("-", r)
    | _ => ([], t)
  let (whole, t) := digits t
  if whole.isEmpty || (whole.length > 1 && whole.head? == some 0x30) then none
  else
    let (places, t) ← placesText t
    let (exponent, t) ← exponentText t
    return (sign ++ whole ++ places ++ exponent, t)

/-- What follows a fixed word. -/
def word (w : Text) (j : Json) (t : Text) : Option (Json × Text) :=
  if w.isPrefixOf t then some (j, t.drop w.length) else none

/-- The elements of a sequence or the fields of an object up to the closing bracket, each read by
`part`. -/
def readParts {α : Type} (part : Text → Option (α × Text)) (close : UInt8) :
    Nat → Text → Option (List α × Text)
  | 0, _ => none
  | n + 1, t => do
    let (p, t) ← part (skipBlanks t)
    match skipBlanks t with
    | b :: r =>
      if b == 0x2c then
        let (ps, r) ← readParts part close n r
        return (p :: ps, r)
      else if b == close then return ([p], r)
      else none
    | [] => none

/-- A field, whose name is shorter than `size` and whose value is read by `item`. -/
def readField (item : Text → Option (Json × Text)) (size : Nat) (t : Text) :
    Option ((Text × Json) × Text) :=
  match t with
  | 0x22 :: r => do
    let (k, r) ← readString size r
    match skipBlanks r with
    | 0x3a :: r =>
      let (j, r) ← item (skipBlanks r)
      return ((Text.mend k, j), r)
    | _ => none
  | _ => none

/-- A value without parts at the start of a text, whose length is bounded by `size`. -/
def readScalar (size : Nat) (t : Text) : Option (Json × Text) :=
  match t with
  | 0x22 :: r => (readString size r).map fun (s, r) => (.text (Text.mend s), r)
  | 0x74 :: _ => word "true" (.bool true) t
  | 0x66 :: _ => word "false" (.bool false) t
  | 0x6e :: _ => word "null" .null t
  | _ => do
    let (n, r) ← numberText t
    let x ← Number.read? n
    return (.number x, r)

/-- A value at the start of a text; `size` bounds the length of the text, the second argument the
depth of the value. -/
def readValue (size : Nat) : Nat → Text → Option (Json × Text)
  | 0, t =>
    match t with
    | 0x5b :: _ | 0x7b :: _ => none
    | _ => readScalar size t
  | n + 1, t =>
    match t with
    | 0x5b :: r =>
      match skipBlanks r with
      | 0x5d :: r => some (.array [], r)
      | r => (readParts (readValue size n) 0x5d size r).map fun (js, r) => (.array js, r)
    | 0x7b :: r =>
      match skipBlanks r with
      | 0x7d :: r => some (.object [], r)
      | r =>
        (readParts (readField (readValue size n) size) 0x7d size r).map fun (fs, r) => (.object fs, r)
    | _ => readScalar size t

/-- The value of a JSON text. -/
def parse? (t : Text) : Option Json := do
  let (j, rest) ← readValue (t.length + 1) maxDepth (skipBlanks t)
  if (skipBlanks rest).isEmpty then some j else none

end ScriptLang.Json
