import ScriptLang.Text.Utf8
import ScriptLang.Toml.Basic

/-!
# Reading TOML

The grammar of documents, read from left to right with ordered choice. The entries after the name of
a table need no line breaks between them. Every line feed and every carriage return counts as a line.
-/

namespace ScriptLang.Toml

/-- What is left of a document, and the current line. -/
structure Cursor where
  /-- The characters that are left. -/
  rest : List Nat
  /-- The current line, from one. -/
  line : Nat := 1

/-- A piece of the grammar: it takes characters from the front or fails. -/
abbrev Scan := StateT Cursor Option

/-! ### Pieces -/

/-- A character of a class. -/
def char (p : Nat → Bool) : Scan Nat := fun c =>
  match c.rest with
  | x :: r => if p x then some (x, { c with rest := r }) else none
  | [] => none

/-- The given characters. -/
def lit (codes : List Nat) : Scan Unit := fun c =>
  if codes.isPrefixOf c.rest then some ((), { c with rest := c.rest.drop codes.length }) else none

/-- One given character. -/
def mark (code : Nat) : Scan Unit := lit [code]

/-- Something, as often as possible, up to `n` times. -/
def manyUpTo {α : Type} (x : Scan α) : Nat → Scan (List α)
  | 0 => return []
  | n + 1 => (do let a ← x; return a :: (← manyUpTo x n)) <|> return []

/-- Something, as often as possible; it takes at least one character each time. -/
def many {α : Type} (x : Scan α) : Scan (List α) := do manyUpTo x (← get).rest.length

/-- Something at least once, as often as possible. -/
def many1 {α : Type} (x : Scan α) : Scan (List α) := do return (← x) :: (← many x)

/-- Something, or nothing. -/
def maybe {α : Type} (x : Scan α) : Scan (Option α) := (some <$> x) <|> return none

/-- A blank. -/
def isBlank (c : Nat) : Bool := c == 0x20 || c == 0x09

/-- A character that ends a line. -/
def isBreak (c : Nat) : Bool := c == 0x0a || c == 0x0d

/-- A digit. -/
def isDigit (c : Nat) : Bool := 0x30 ≤ c && c ≤ 0x39

/-- A digit. -/
def digit : Scan Nat := char isDigit

/-- A character that ends a line, counted. -/
def lineBreak : Scan Nat := fun c =>
  match char isBreak c with
  | some (x, c) => some (x, { c with line := c.line + 1 })
  | none => none

/-- Blanks. -/
def blanks : Scan Unit := discard (many (char isBlank))

/-- Blanks and line breaks. -/
def gap : Scan Unit := discard (many (char isBlank <|> lineBreak))

/-- At least one line break. -/
def breaks : Scan (List Nat) := many1 lineBreak

/-- A comment. -/
def comment : Scan Unit := do
  mark 0x23
  discard (many (char fun c => c == 0x09 || 0x20 ≤ c))

/-! ### Strings -/

/-- A hexadecimal digit. -/
def hexDigit : Scan Nat := fun c =>
  match c.rest with
  | x :: r =>
    if x < 0x80 then (Text.hexDigit? x.toUInt8).map fun d => (d, { c with rest := r }) else none
  | [] => none

/-- The code that `n` hexadecimal digits give. -/
def hexCode (n : Nat) : Scan Nat := do
  let digits ← (List.range n).mapM fun _ => hexDigit
  let code := digits.foldl (fun acc d => 16 * acc + d) 0
  if code ≤ 0x10ffff && !(0xd800 ≤ code && code ≤ 0xdfff) then return code else failure

/-- What a letter after a backslash stands for. -/
def escapedLetter? (c : Nat) : Option Nat :=
  match c with
  | 0x62 => some 0x08
  | 0x74 => some 0x09
  | 0x6e => some 0x0a
  | 0x66 => some 0x0c
  | 0x72 => some 0x0d
  | 0x22 => some 0x22
  | 0x5c => some 0x5c
  | _ => none

/-- A character after a backslash. -/
def escaped : Scan Nat := do
  mark 0x5c
  let c ← char fun _ => true
  match c with
  | 0x75 => hexCode 4
  | 0x55 => hexCode 8
  | _ =>
    match escapedLetter? c with
    | some x => return x
    | none => failure

/-- A character between double quotes. -/
def basicChar : Scan Nat := char (fun c => 0x20 ≤ c && c != 0x22 && c != 0x5c) <|> escaped

/-- The text of characters. -/
def textOf (codes : List Nat) : Text := codes.flatMap Text.encode

/-- A string between double quotes. -/
def basicString : Scan Text := do
  mark 0x22
  let codes ← many basicChar
  mark 0x22
  return textOf codes

/-- A part of a string between three double quotes: characters, a line break that is kept, or a line
break that is not. -/
def longPart : Scan (Bool × List Nat) :=
  (do return (false, [← basicChar])) <|> (do return (true, ← breaks)) <|>
    (do mark 0x5c; let _ ← breaks; gap; return (true, []))

/-- A string between three double quotes. Line breaks at its start are left out. -/
def longBasicString : Scan Text := do
  lit [0x22, 0x22, 0x22]
  let parts ← many longPart
  lit [0x22, 0x22, 0x22]
  return textOf ((parts.dropWhile Prod.fst).flatMap Prod.snd)

/-- A string between single quotes. -/
def literalString : Scan Text := do
  mark 0x27
  let codes ← many (char fun c => (c == 0x09 || 0x20 ≤ c) && c != 0x27)
  mark 0x27
  return textOf codes

/-- The end of a string between three single quotes does not come next. -/
def notAtQuotes : Scan Unit := fun c =>
  if [0x27, 0x27, 0x27].isPrefixOf c.rest then none else some ((), c)

/-- A string between three single quotes. Line breaks at its start are left out. -/
def longLiteralString : Scan Text := do
  lit [0x27, 0x27, 0x27]
  let codes ← many (do notAtQuotes; char (fun c => c == 0x09 || 0x20 ≤ c) <|> lineBreak)
  lit [0x27, 0x27, 0x27]
  return textOf (codes.dropWhile isBreak)

/-- A string. -/
def string : Scan Text := longLiteralString <|> literalString <|> longBasicString <|> basicString

/-! ### Numbers and dates -/

/-- More digits, each of which can follow an underscore. -/
def moreDigit : Scan Nat := digit <|> (do mark 0x5f; digit)

/-- An integer. -/
def integer : Scan (List Nat) := do
  let sign ← maybe (char fun c => c == 0x2b || c == 0x2d)
  let digits ← (do
    let d ← char fun c => 0x31 ≤ c && c ≤ 0x39
    return d :: (← many1 moreDigit)) <|> (do return [← digit])
  return sign.toList ++ digits

/-- A fraction. -/
def fraction : Scan Unit := do mark 0x2e; let _ ← digit; discard (many moreDigit)

/-- An exponent. -/
def exponent : Scan Unit := do
  discard (char fun c => c == 0x65 || c == 0x45)
  discard (maybe (char fun c => c == 0x2b || c == 0x2d))
  let _ ← digit
  discard (many moreDigit)

/-- A number with a fraction or an exponent. -/
def float : Scan Unit := do
  discard integer
  (do fraction; discard (maybe exponent)) <|> (do discard (maybe fraction); exponent)

/-- Exactly `n` digits. -/
def digits (n : Nat) : Scan Unit := discard ((List.range n).mapM fun _ => digit)

/-- A time of day. -/
def timeOfDay : Scan Unit := do
  digits 2; mark 0x3a; digits 2; mark 0x3a; digits 2
  discard (maybe (do mark 0x2e; many1 digit))

/-- A distance from the standard time. -/
def timeOffset : Scan Unit :=
  mark 0x5a <|> (do
    discard (char fun c => c == 0x2b || c == 0x2d)
    digits 2; mark 0x3a; digits 2)

/-- A date, with or without a time. -/
def date : Scan Unit := do
  digits 4; mark 0x2d; digits 2; mark 0x2d; digits 2
  discard (maybe (do mark 0x54; timeOfDay; discard (maybe timeOffset)))

/-- A date or a time. -/
def moment : Scan Unit := date <|> timeOfDay

/-- A truth value. -/
def boolean : Scan Unit := lit [0x74, 0x72, 0x75, 0x65] <|> lit [0x66, 0x61, 0x6c, 0x73, 0x65]

/-! ### Values and entries -/

/-- A character of a key without quotes. -/
def isKeyChar (c : Nat) : Bool :=
  isDigit c || (0x41 ≤ c && c ≤ 0x5a) || (0x61 ≤ c && c ≤ 0x7a) || c == 0x2d || c == 0x5f

/-- A key without quotes. -/
def bareKey : Scan Text := return textOf (← many1 (char isKeyChar))

/-- A key. -/
def key : Scan Text := bareKey <|> basicString

/-- The comma between two elements, with blanks and a comment on either side. -/
def arraySeparator : Scan Unit := do
  gap; discard (maybe comment); gap
  mark 0x2c
  gap; discard (maybe comment); gap

/-- The elements of a sequence. -/
def arrayItems (value : Scan TomlValue) : Scan (List TomlValue) := do
  let first ← value
  let rest ← many (do arraySeparator; value)
  gap
  discard (maybe (mark 0x2c))
  gap
  discard (maybe comment)
  return first :: rest

/-- A sequence. -/
def array (value : Scan TomlValue) : Scan (List TomlValue) := do
  mark 0x5b
  gap
  let items ← maybe (arrayItems value)
  gap
  mark 0x5d
  return items.getD []

/-- An entry, with the line where it ends. -/
def entry (value : Scan TomlValue) : Scan (Text × TomlValue × Nat) := do
  let k ← key
  blanks
  mark 0x3d
  blanks
  let v ← value
  return (k, v, (← get).line)

/-- A table in braces. -/
def inlineTable (value : Scan TomlValue) : Scan TomlValue := do
  mark 0x7b
  let start := (← get).line
  blanks
  let entries ← many do
    let e ← entry value
    discard (maybe (do blanks; mark 0x2c; blanks))
    return e
  blanks
  mark 0x7d
  return .inlineTable start entries

/-- A value with sequences and tables up to the depth `n` in it. -/
def value : Nat → Scan TomlValue
  | 0 => failure
  | n + 1 =>
    (do moment; return .moment) <|>
    (do float; return .float) <|>
    (do return .integer (textOf (← integer))) <|>
    (do return .text (← string)) <|>
    (do boolean; return .boolean) <|>
    (do return .array (← array (value n))) <|>
    inlineTable (value n)

/-- An entry of a document. -/
def entryItem : Scan TomlItem := do
  let (k, v, line) ← entry (value ((← get).rest.length + 1))
  return .entry k v line

/-! ### Documents -/

/-- The name of a table. -/
def tableName : Scan (List Text) := do
  let first ← key
  return first :: (← many (do blanks; mark 0x2e; blanks; key))

/-- The line that names a table. -/
def tableItem : Scan TomlItem :=
  (do
    mark 0x5b; blanks
    let names ← tableName
    blanks; mark 0x5d
    return .table names (← get).line) <|>
  (do
    lit [0x5b, 0x5b]; blanks
    let names ← tableName
    blanks; lit [0x5d, 0x5d]
    return .tableOfMany names (← get).line)

/-- The end of a line. -/
def lineEnd : Scan Unit := do blanks; discard (maybe comment)

/-- A table with the entries that follow it at once. -/
def tableLines : Scan (List TomlItem) := do
  blanks
  let t ← tableItem
  lineEnd
  let entries ← many (do gap; let e ← entryItem; lineEnd; return e)
  return t :: entries

/-- What can stand between line breaks. -/
def expression : Scan (List TomlItem) :=
  tableLines <|> (do blanks; let e ← entryItem; lineEnd; return [e]) <|> (do lineEnd; return [])

/-- A document. -/
def document : Scan (List TomlItem) := do
  let first ← expression
  let rest ← many (do let _ ← breaks; expression)
  discard (maybe breaks)
  return first ++ rest.flatten

/-- The items of a document. -/
def items? (t : Text) : Option (List TomlItem) :=
  match document { rest := (Text.runes t).map Text.Rune.code } with
  | some (items, c) => if c.rest.isEmpty then some items else none
  | none => none

/-- The table of a document. -/
def parse? (t : Text) : Option TomlTable := do TomlTable.ofItems (← items? t)

end ScriptLang.Toml
