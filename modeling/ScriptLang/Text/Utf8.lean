import ScriptLang.Text.Basic

/-!
# Characters of a text

A text is read as characters from the left: at every point either a well-formed UTF-8 sequence
follows, which is one character, or the next byte alone is one malformed character. So every text
has characters, and their bytes put together are the text.
-/

namespace ScriptLang.Text

/-- A character as it stands in a text: the code point and the bytes it was read from. A byte that
starts no well-formed sequence is a character of its own, with the code point of the replacement
character. -/
structure Rune where
  /-- The code point. -/
  code : Nat
  /-- The bytes in the text. -/
  bytes : Text
  /-- Whether the bytes are a well-formed sequence. -/
  wellFormed : Bool := true
deriving DecidableEq, Repr

/-- The code point U+FFFD, which stands for what cannot be decoded. -/
def replacement : Nat := 0xfffd

/-- The character made of a byte that starts no well-formed sequence. -/
def Rune.malformed (b : UInt8) : Rune := ⟨replacement, [b], false⟩

/-- A byte that continues a sequence. -/
def isTail (b : UInt8) : Bool := 0x80 ≤ b && b ≤ 0xbf

/-- A well-formed sequence of two bytes. -/
def isPair (a b : UInt8) : Bool := 0xc2 ≤ a && a ≤ 0xdf && isTail b

/-- A well-formed sequence of three bytes: no overlong form and no surrogate. -/
def isTriple (a b c : UInt8) : Bool :=
  0xe0 ≤ a && a ≤ 0xef && isTail b && isTail c &&
    !(a == 0xe0 && b < 0xa0) && !(a == 0xed && b > 0x9f)

/-- A well-formed sequence of four bytes: no overlong form and nothing above U+10FFFF. -/
def isQuad (a b c d : UInt8) : Bool :=
  0xf0 ≤ a && a ≤ 0xf4 && isTail b && isTail c && isTail d &&
    !(a == 0xf0 && b < 0x90) && !(a == 0xf4 && b > 0x8f)

/-- The low six bits of a continuing byte. -/
def tailBits (b : UInt8) : Nat := b.toNat % 64

/-- The character of a sequence of two bytes. -/
def Rune.ofPair (a b : UInt8) : Rune := ⟨(a.toNat % 32) * 64 + tailBits b, [a, b], true⟩

/-- The character of a sequence of three bytes. -/
def Rune.ofTriple (a b c : UInt8) : Rune :=
  ⟨((a.toNat % 16) * 64 + tailBits b) * 64 + tailBits c, [a, b, c], true⟩

/-- The character of a sequence of four bytes. -/
def Rune.ofQuad (a b c d : UInt8) : Rune :=
  ⟨(((a.toNat % 8) * 64 + tailBits b) * 64 + tailBits c) * 64 + tailBits d, [a, b, c, d], true⟩

/-- The character that starts with byte `a` and may go on into `r`. -/
def firstRune (a : UInt8) (r : Text) : Rune :=
  if a < 0x80 then ⟨a.toNat, [a], true⟩
  else match r with
    | b :: c :: d :: _ =>
      if isPair a b then .ofPair a b
      else if isTriple a b c then .ofTriple a b c
      else if isQuad a b c d then .ofQuad a b c d
      else .malformed a
    | [b, c] =>
      if isPair a b then .ofPair a b
      else if isTriple a b c then .ofTriple a b c
      else .malformed a
    | [b] => if isPair a b then .ofPair a b else .malformed a
    | [] => .malformed a

/-- The characters of a text after its first `skip` bytes. -/
def runesAfter : Nat → Text → List Rune
  | _, [] => []
  | skip + 1, _ :: r => runesAfter skip r
  | 0, a :: r => firstRune a r :: runesAfter ((firstRune a r).bytes.length - 1) r

/-- The characters of a text, from the left. -/
def runes (t : Text) : List Rune := runesAfter 0 t

/-- The UTF-8 form of a code point; a number that is no code point is written as U+FFFD. -/
def encode (code : Nat) : Text :=
  let tail (n : Nat) : UInt8 := (0x80 + n % 64).toUInt8
  if code < 0x80 then [code.toUInt8]
  else if code < 0x800 then [(0xc0 + code / 64).toUInt8, tail code]
  else if (0xd800 ≤ code && code ≤ 0xdfff) || code > 0x10ffff then [0xef, 0xbf, 0xbd]
  else if code < 0x10000 then
    [(0xe0 + code / 4096).toUInt8, tail (code / 64), tail code]
  else
    [(0xf0 + code / 262144).toUInt8, tail (code / 4096), tail (code / 64), tail code]

/-- The text with every malformed character replaced by U+FFFD. -/
def mend (t : Text) : Text := (runes t).flatMap fun r => encode r.code

/-- The number of characters. -/
def runeCount (t : Text) : Nat := (runes t).length

end ScriptLang.Text
