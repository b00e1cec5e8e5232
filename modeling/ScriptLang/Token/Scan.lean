import ScriptLang.Diagnostic
import ScriptLang.Token.Basic
import ScriptLang.Token.Escape

/-!
# From text to tokens

At every point of a program text stands a gap, which is a run of blanks or a comment up to the end
of its line, or a token. Gaps are passed over. A word, a number and an operator are as long as they
can be. A string in three quotes reaches to the next three quotes and may run over lines; a string
in one quote ends on its line.

The main definition is `Token.scan`, whose result always ends with the token for the end of the text.
-/

namespace ScriptLang

/-- A point in a source text: the offset, the line from one, and the offset of the line's start. -/
structure Cursor where
  /-- The number of bytes passed. -/
  offset : Nat := 0
  /-- The line, from one. -/
  line : Nat := 1
  /-- The offset at which the line starts. -/
  lineStart : Nat := 0
deriving DecidableEq, Repr

namespace Cursor

/-- The point after one more byte. -/
def after (c : Cursor) (b : UInt8) : Cursor :=
  if b = Text.newline then ⟨c.offset + 1, c.line + 1, c.offset + 1⟩
  else { c with offset := c.offset + 1 }

/-- The point after more text. -/
def past (c : Cursor) (t : Text) : Cursor := t.foldl after c

/-- The span of `size` bytes that starts at the point. -/
def span (c : Cursor) (file : Text) (size : Nat) : Span :=
  ⟨file, c.line, c.offset - c.lineStart + 1, c.offset, c.offset + size⟩

end Cursor

/-- What stands at a point of the text. -/
inductive Piece where
  /-- Blanks or a comment, of the given number of bytes. -/
  | gap (size : Nat)
  /-- A token of the given number of bytes. -/
  | token (size : Nat) (kind : Kind) (value : Text)
deriving DecidableEq, Repr

/-- Why a text has no tokens. -/
inductive ScanFault where
  /-- No token starts with this byte. -/
  | unrecognized (byte : UInt8)
  /-- A string without its closing quote. -/
  | unterminated
  /-- A string with a bad escape. -/
  | escape (fault : EscapeFault)
deriving DecidableEq, Repr

/-- A fault and the point at which scanning stopped. -/
structure ScanError where
  /-- The fault. -/
  fault : ScanFault
  /-- Where scanning stopped. -/
  point : Cursor
  /-- The name of the file. -/
  file : Text
deriving DecidableEq, Repr

namespace ScanError

/-- The code of an error. -/
def code (e : ScanError) : Code :=
  match e.fault with
  | .unrecognized _ => .unrecognizedToken
  | .unterminated => .unterminatedString
  | .escape _ => .invalidEscape

/-- The message of an error. -/
def message (e : ScanError) : Text :=
  match e.fault with
  | .unrecognized b =>
    "unrecognized token " ++ Text.quotedRune b.toNat ++ " (byte 0x" ++ Text.hex 2 b.toNat ++
      ") at offset " ++ Text.ofNat e.point.offset ++ ", line " ++ Text.ofNat e.point.line
  | .unterminated => "unterminated string literal"
  | .escape f => f.message

/-- The diagnostic of an error; it is about the byte at which scanning stopped. -/
def diagnostic (e : ScanError) : Diagnostic :=
  { code := e.code, message := e.message, location := some (e.point.span e.file 1).location }

end ScanError

namespace Token

/-- A blank between tokens. -/
def isBlank (b : UInt8) : Bool := b == 0x20 || b == 0x09 || b == 0x0d || b == 0x0a

/-- The bytes up to the next three quotes, if there are any. -/
def untilTriple? : Text → Option Text
  | 0x22 :: 0x22 :: 0x22 :: _ => some []
  | b :: r => (untilTriple? r).map (b :: ·)
  | [] => none

/-- The bytes up to the closing quote on the same line. A backslash takes the byte after it along,
unless the line ends there. -/
def untilQuote? : Text → Option Text
  | [] => none
  | 0x22 :: _ => some []
  | 0x5c :: b :: r =>
    if b = Text.newline then none else (untilQuote? r).map fun t => 0x5c :: b :: t
  | 0x5c :: [] => none
  | b :: r => if b = Text.newline then none else (untilQuote? r).map (b :: ·)

/-- A number: digits, and more digits after a point. -/
def numberText (t : Text) : Text :=
  let whole := t.takeWhile Text.isDigit
  match t.drop whole.length with
  | 0x2e :: r =>
    let places := r.takeWhile Text.isDigit
    if places.isEmpty then whole else whole ++ "." ++ places
  | _ => whole

/-- The longest operator at the start of a text. -/
def operator? (t : Text) : Option Kind :=
  [3, 2, 1].findSome? fun n => Kind.operators.find? fun k => k.name == t.take n

/-- The string token whose content is `body`, written with `quotes` bytes on each side. -/
def stringPiece (quotes : Nat) (body : Text) : Except ScanFault Piece :=
  match unescape body with
  | .ok value => .ok (.token (body.length + 2 * quotes) .string value)
  | .error f => .error (.escape f)

/-- The piece at the start of the text `b :: r`. -/
def piece (b : UInt8) (r : Text) : Except ScanFault Piece :=
  let t := b :: r
  if isBlank b then .ok (.gap (t.takeWhile isBlank).length)
  else if Text.ofString "//" |>.isPrefixOf t then
    .ok (.gap (t.takeWhile (· != Text.newline)).length)
  else if b = Text.quoteMark then
    match (if Text.ofString "\"\"\"" |>.isPrefixOf t then untilTriple? (t.drop 3) else none) with
    | some body => stringPiece 3 body
    | none =>
      match untilQuote? r with
      | some body => stringPiece 1 body
      | none => .error .unterminated
  else if Text.isDigit b then
    let n := numberText t
    .ok (.token n.length .number n)
  else if Text.isWordStart b then
    let w := t.takeWhile Text.isWordByte
    .ok (.token w.length (Kind.ofWord w) w)
  else match operator? t with
    | some k => .ok (.token k.name.length k k.name)
    | none => .error (.unrecognized b)

/-- The tokens of a text from the point `c` on, after `skip` bytes that belong to the piece before. -/
def scanFrom (file : Text) : Nat → Cursor → Text → Except ScanError (List Token)
  | _, c, [] => .ok [⟨.eof, [], c.span file 0⟩]
  | skip + 1, c, b :: r => scanFrom file skip (c.after b) r
  | 0, c, b :: r =>
    match piece b r with
    | .error f => .error ⟨f, c, file⟩
    | .ok (.gap size) => scanFrom file (size - 1) (c.after b) r
    | .ok (.token size kind value) =>
      (scanFrom file (size - 1) (c.after b) r).map (⟨kind, value, c.span file size⟩ :: ·)

/-- The tokens of a program text, ended by the token for the end of the text. -/
def scan (source file : Text) : Except ScanError (List Token) := scanFrom file 0 {} source

/-- Whether a text holds two slashes outside of strings. Strings end with their line here, and a
backslash inside of a string passes over the byte after it. -/
def hasComments : Bool → Text → Bool
  | _, [] => false
  | true, 0x5c :: _ :: r => hasComments true r
  | true, [0x5c] => false
  | false, 0x2f :: 0x2f :: _ => true
  | inString, b :: r =>
    if b = Text.quoteMark then hasComments (!inString) r
    else if b = Text.newline then hasComments false r
    else hasComments inString r

end Token

end ScriptLang
