import ScriptLang.Decimal.Layout
import ScriptLang.Text.Utf8

/-!
# JSON values and their texts

Two texts of a JSON value are used: the compact one, without any blanks, and the indented one, with
every element and field on a line of its own. Fields are written in the order in which they stand.
-/

namespace ScriptLang

/-- A JSON value. The fields of an object have an order. -/
inductive Json where
  /-- The value `null`. -/
  | null
  /-- A truth value. -/
  | bool (b : Bool)
  /-- An integer. -/
  | integer (i : Int)
  /-- A finite number. -/
  | number (n : Float)
  /-- A string. -/
  | text (t : Text)
  /-- A sequence. -/
  | array (items : List Json)
  /-- Named values. -/
  | object (fields : List (Text × Json))

namespace Json

/-- Which characters of a string have an escape of their own. -/
inductive Escaping where
  /-- Quotes, backslashes, tabs and line breaks; other control characters are written by number. -/
  | minimal
  /-- In addition the backspace and the form feed; the angle brackets and the ampersand, which have a
  meaning in markup, are written by number. -/
  | markup
deriving DecidableEq

/-- A character inside a string. The two line separators of Unicode are always escaped, and a malformed
character becomes U+FFFD. -/
def escapeRune (escaping : Escaping) (r : Text.Rune) : Text :=
  if !r.wellFormed then Text.encode Text.replacement
  else match r.code with
    | 0x22 => "\\\""
    | 0x5c => "\\\\"
    | 0x0a => "\\n"
    | 0x0d => "\\r"
    | 0x09 => "\\t"
    | c =>
      if escaping == .markup && c == 0x08 then "\\b"
      else if escaping == .markup && c == 0x0c then "\\f"
      else if c < 0x20 || c == 0x2028 || c == 0x2029 then "\\u" ++ Text.hex 4 c
      else if escaping == .markup && (c == 0x3c || c == 0x3e || c == 0x26) then
        "\\u" ++ Text.hex 4 c
      else r.bytes

/-- A string between quotes. -/
def quote (escaping : Escaping) (t : Text) : Text :=
  "\"" ++ (Text.runes t).flatMap (escapeRune escaping) ++ "\""

mutual

/-- The compact text. -/
def compact (escaping : Escaping) : Json → Text
  | .null => "null"
  | .bool true => "true"
  | .bool false => "false"
  | .integer i => Text.ofInt i
  | .number n => Number.json n
  | .text t => quote escaping t
  | .array items => "[" ++ compactItems escaping items ++ "]"
  | .object fields => "\x7b" ++ compactFields escaping fields ++ "\x7d"

/-- The elements of a sequence, with commas between them. -/
def compactItems (escaping : Escaping) : List Json → Text
  | [] => []
  | [j] => compact escaping j
  | j :: js => compact escaping j ++ "," ++ compactItems escaping js

/-- The fields of an object, with commas between them. -/
def compactFields (escaping : Escaping) : List (Text × Json) → Text
  | [] => []
  | [(k, j)] => quote escaping k ++ ":" ++ compact escaping j
  | (k, j) :: fs =>
    quote escaping k ++ ":" ++ compact escaping j ++ "," ++ compactFields escaping fs

end

/-- The start of a line at a level. -/
def lineAt (unit : Text) (level : Nat) : Text := "\n" ++ Text.times level unit

mutual

/-- The indented text: `unit` is put once per level in front of every line after the first. Empty
sequences and objects stay on one line. -/
def indented (unit : Text) (level : Nat) : Json → Text
  | .array [] => "[]"
  | .array (j :: js) =>
    "[" ++ indentedItems unit (level + 1) (j :: js) ++ lineAt unit level ++ "]"
  | .object [] => "\x7b\x7d"
  | .object (f :: fs) =>
    "\x7b" ++ indentedFields unit (level + 1) (f :: fs) ++ lineAt unit level ++ "\x7d"
  | .null => "null"
  | .bool true => "true"
  | .bool false => "false"
  | .integer i => Text.ofInt i
  | .number n => Number.json n
  | .text t => quote .markup t

/-- The elements of a sequence, each on its line. -/
def indentedItems (unit : Text) (level : Nat) : List Json → Text
  | [] => []
  | [j] => lineAt unit level ++ indented unit level j
  | j :: js => lineAt unit level ++ indented unit level j ++ "," ++ indentedItems unit level js

/-- The fields of an object, each on its line. -/
def indentedFields (unit : Text) (level : Nat) : List (Text × Json) → Text
  | [] => []
  | [(k, j)] => lineAt unit level ++ quote .markup k ++ ": " ++ indented unit level j
  | (k, j) :: fs =>
    lineAt unit level ++ quote .markup k ++ ": " ++ indented unit level j ++ "," ++
      indentedFields unit level fs

end

end Json

end ScriptLang
