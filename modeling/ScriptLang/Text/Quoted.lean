import ScriptLang.Text.Printable
import ScriptLang.Text.Utf8

/-!
# Quoted texts

The form in which a text is shown inside a message: between double quotes, with an escape for the
quote, the backslash and every character that is not printable. A byte that is no character is
shown by its value.
-/

namespace ScriptLang.Text

/-- The escape of a control character that has a letter of its own. -/
def letterEscape? (code : Nat) : Option Text :=
  match code with
  | 0x07 => some "\\a"
  | 0x08 => some "\\b"
  | 0x0c => some "\\f"
  | 0x0a => some "\\n"
  | 0x0d => some "\\r"
  | 0x09 => some "\\t"
  | 0x0b => some "\\v"
  | _ => none

/-- The escape of a code point by its number: two digits below U+0080, four below U+10000 and
eight otherwise. -/
def numberEscape (code : Nat) : Text :=
  if code < 0x20 || code == 0x7f then "\\x" ++ hex 2 code
  else if code < 0x10000 then "\\u" ++ hex 4 code
  else "\\U" ++ hex 8 code

/-- A code point as it stands between marks `mark`. -/
def quotedCode (mark : Nat) (code : Nat) : Text :=
  if code == mark || code == 0x5c then "\\" ++ encode code
  else if isPrintable code then encode code
  else (letterEscape? code).getD (numberEscape code)

/-- A text between double quotes. -/
def quoted (t : Text) : Text :=
  "\"" ++ (runes t).flatMap (fun r =>
    if r.wellFormed then quotedCode 0x22 r.code
    else r.bytes.flatMap fun b => "\\x" ++ hex 2 b.toNat) ++ "\""

/-- A code point between single quotes. -/
def quotedRune (code : Nat) : Text := "'" ++ quotedCode 0x27 code ++ "'"

end ScriptLang.Text
