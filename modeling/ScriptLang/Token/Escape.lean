import ScriptLang.Text.Utf8

/-!
# Escapes in strings

Inside a string literal a backslash starts an escape: a letter for a control character, a quote or
a backslash for itself, or `u` with four hexadecimal digits for a code point. A number that is no
code point of a character stands for U+FFFD.
-/

namespace ScriptLang

/-- What is wrong with an escape. -/
inductive EscapeFault where
  /-- The string ends after the backslash. -/
  | dangling
  /-- Fewer than four bytes follow `u`. -/
  | shortCode
  /-- The four bytes after `u` are no hexadecimal number. -/
  | badCode (digits : Text)
  /-- No escape has this byte. -/
  | unknown (byte : UInt8)
deriving DecidableEq, Repr

namespace EscapeFault

/-- The message of a fault. -/
def message : EscapeFault → Text
  | .dangling => "dangling escape at end of string"
  | .shortCode => "incomplete unicode escape"
  | .badCode digits => "invalid unicode escape: \\u" ++ digits
  | .unknown byte => "invalid escape character: \\" ++ Text.encode byte.toNat

end EscapeFault

/-- The byte that a one-letter escape stands for. -/
def escapedByte? (b : UInt8) : Option UInt8 :=
  match b with
  | 0x6e => some 0x0a
  | 0x74 => some 0x09
  | 0x72 => some 0x0d
  | 0x30 => some 0x00
  | 0x22 => some 0x22
  | 0x27 => some 0x27
  | 0x5c => some 0x5c
  | _ => none

/-- The content of a string literal with its escapes resolved. -/
def unescape : Text → Except EscapeFault Text
  | [] => .ok []
  | 0x5c :: 0x75 :: a :: b :: c :: d :: r =>
    match Text.ofHex? [a, b, c, d] with
    | some code => (unescape r).map (Text.encode code ++ ·)
    | none => .error (.badCode [a, b, c, d])
  | 0x5c :: 0x75 :: _ => .error .shortCode
  | 0x5c :: e :: r =>
    match escapedByte? e with
    | some b => (unescape r).map (b :: ·)
    | none => .error (.unknown e)
  | 0x5c :: [] => .error .dangling
  | b :: r => (unescape r).map (b :: ·)

end ScriptLang
