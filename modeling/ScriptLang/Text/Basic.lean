/-!
# Texts

A program text, a string value, a file name and a message are all sequences of bytes. Nothing is
assumed of the bytes: a text need not be well-formed UTF-8, and offsets, columns and lengths count
bytes unless a definition says that it counts characters.

The order on texts is the order of lists of bytes, so names sort by their bytes.
-/

namespace ScriptLang

/-- A text is a sequence of bytes. -/
abbrev Text := List UInt8

namespace Text

/-- The bytes of a string literal, in UTF-8. -/
@[coe]
def ofString (s : String) : Text := s.toUTF8.data.toList

instance : Coe String Text := ⟨ofString⟩

/-! ### Bytes that the formats name -/

/-- Line feed. -/
def newline : UInt8 := 0x0a

/-- The space. -/
def space : UInt8 := 0x20

/-- The double quote. -/
def quoteMark : UInt8 := 0x22

/-- The slash. -/
def slash : UInt8 := 0x2f

/-- A decimal digit. -/
def isDigit (b : UInt8) : Bool := 0x30 ≤ b && b ≤ 0x39

/-- A letter of ASCII or the underscore. -/
def isWordStart (b : UInt8) : Bool :=
  (0x41 ≤ b && b ≤ 0x5a) || (0x61 ≤ b && b ≤ 0x7a) || b == 0x5f

/-- A letter of ASCII, the underscore or a digit. -/
def isWordByte (b : UInt8) : Bool := isWordStart b || isDigit b

/-- The lower-case form of an ASCII letter; every other byte is kept. -/
def lowerByte (b : UInt8) : UInt8 := if 0x41 ≤ b && b ≤ 0x5a then b + 0x20 else b

/-- The upper-case form of an ASCII letter; every other byte is kept. -/
def upperByte (b : UInt8) : UInt8 := if 0x61 ≤ b && b ≤ 0x7a then b - 0x20 else b

/-- The text with its ASCII letters in lower case. -/
def lowerAscii (t : Text) : Text := t.map lowerByte

/-- The text with its ASCII letters in upper case. -/
def upperAscii (t : Text) : Text := t.map upperByte

/-! ### Numbers -/

/-- A natural number in decimal. -/
def ofNat (n : Nat) : Text := (Nat.toDigits 10 n).map fun c => c.toNat.toUInt8

/-- An integer in decimal, with a minus sign when it is negative. -/
def ofInt : Int → Text
  | .ofNat n => ofNat n
  | .negSucc n => "-" ++ ofNat (n + 1)

/-- A natural number in lower-case hexadecimal, filled up with zeros to `width` digits. -/
def hex (width n : Nat) : Text :=
  let digits : Text := (Nat.toDigits 16 n).map fun c => c.toNat.toUInt8
  List.replicate (width - digits.length) 0x30 ++ digits

/-- The value of a hexadecimal digit. -/
def hexDigit? (b : UInt8) : Option Nat :=
  if isDigit b then some (b.toNat - 0x30)
  else if 0x61 ≤ lowerByte b && lowerByte b ≤ 0x66 then some ((lowerByte b).toNat - 0x57)
  else none

/-- The value of a non-empty sequence of hexadecimal digits. -/
def ofHex? (t : Text) : Option Nat :=
  if t.isEmpty then none
  else t.foldlM (fun n b => (hexDigit? b).map (16 * n + ·)) 0

/-! ### Sequences of texts -/

/-- The parts one after another, with `sep` between neighbours. -/
def join (sep : Text) : List Text → Text
  | [] => []
  | [t] => t
  | t :: ts => t ++ sep ++ join sep ts

/-- The text if the condition holds, and nothing otherwise. -/
def when (c : Bool) (t : Text) : Text := if c then t else []

/-- `n` spaces. -/
def spaces (n : Nat) : Text := List.replicate n space

/-- The number of bytes that a text never reaches. -/
def sizeLimit : Nat := 0x1000000000000

/-- The text `n` times. -/
def times (n : Nat) (t : Text) : Text := if t = [] then [] else (List.replicate n t).flatten

/-- Texts in ascending order. -/
def sort (ts : List Text) : List Text := ts.mergeSort fun a b => decide (a ≤ b)

/-- The pieces of a text between newlines; there is one more piece than there are newlines. -/
def lines : Text → List Text
  | [] => [[]]
  | b :: r =>
    if b = newline then [] :: lines r
    else match lines r with
      | [] => [[b]]
      | l :: ls => (b :: l) :: ls

end Text

end ScriptLang
