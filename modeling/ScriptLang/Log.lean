import ScriptLang.Json.Basic
import ScriptLang.Text.Case
import ScriptLang.Text.Quoted
import ScriptLang.Text.Space

/-!
# Log records

What a run notes about itself: a message and named values. A record is written as a line of
`name=value` pairs or as a line of JSON. A level is a number with a name; the names stand four apart,
and a level between them is written as a name and a distance.
-/

namespace ScriptLang

/-- How important a record is. -/
inductive LogLevel where
  /-- For those who look into a run. -/
  | debug
  /-- For everyone. -/
  | info
  /-- Something may be wrong. -/
  | warn
  /-- Something is wrong. -/
  | error
deriving DecidableEq, Repr

namespace LogLevel

/-- The name of a level. -/
def name : LogLevel → Text
  | debug => "DEBUG"
  | info => "INFO"
  | warn => "WARN"
  | error => "ERROR"

/-- The number of a level. -/
def number : LogLevel → Int
  | debug => -4
  | info => 0
  | warn => 4
  | error => 8

/-- The levels in ascending order. -/
def all : List LogLevel := [debug, info, warn, error]

/-- The level with a name, in upper or lower case. -/
def ofName? (t : Text) : Option LogLevel := all.find? fun l => l.name == Text.toUpper t

/-- A signed number. -/
def readOffset? (t : Text) : Option Int := do
  let digits := t.drop 1
  if digits.isEmpty || !digits.all Text.isDigit then none
  else
    let n : Nat := digits.foldl (fun n b => 10 * n + (b.toNat - 0x30)) 0
    let i : Int := if t.head? == some 0x2d then -n else n
    if Number.isWord i then some i else none

/-- The number that a text gives: the name of a level, or a name and a signed distance. -/
def read? (t : Text) : Option Int := do
  let isSign (b : UInt8) : Bool := b == 0x2b || b == 0x2d
  let offset := t.dropWhile fun b => !isSign b
  let distance ← if offset.isEmpty then some 0 else readOffset? offset
  let level ← ofName? (t.takeWhile fun b => !isSign b)
  return Int.bmod (level.number + distance) Number.wordCount

end LogLevel

/-- A value in a log record. -/
inductive LogValue where
  /-- A text. -/
  | text (t : Text)
  /-- A number. -/
  | int (i : Int)
  /-- A truth value. -/
  | bool (b : Bool)
deriving DecidableEq, Repr

namespace LogValue

/-- The text of a value. -/
def plain : LogValue → Text
  | text t => t
  | int i => Text.ofInt i
  | bool b => if b then "true" else "false"

/-- The JSON value. -/
def json : LogValue → Json
  | text t => .text t
  | int i => .integer i
  | bool b => .bool b

end LogValue

/-- A log record. -/
structure LogRecord where
  /-- What happened. -/
  message : Text
  /-- The details in order. -/
  details : List (Text × LogValue) := []
  /-- How important it is. -/
  level : LogLevel := .debug
deriving DecidableEq, Repr

namespace LogRecord

/-- Whether a character makes a value need quotes. -/
def needsQuotes (r : Text.Rune) : Bool :=
  if r.code < 0x80 then r.code == 0x20 || r.code == 0x3d || r.code == 0x22 || r.code < 0x20
  else r.code == Text.replacement || Text.isBlank r.code || !Text.isPrintable r.code

/-- A value in a text line, in quotes when it is empty or could be misread. -/
def field (t : Text) : Text :=
  if t.isEmpty || (Text.runes t).any needsQuotes then Text.quoted t else t

/-- A detail in a text line, with a space before it. -/
def detail (k : Text) (v : LogValue) : Text := Text.space :: field k ++ "=" ++ field v.plain

/-- A record as a text line. -/
def textLine (r : LogRecord) : Text :=
  "level=" ++ r.level.name ++ " msg=" ++ field r.message ++ r.details.flatMap (fun (k, v) => detail k v) ++ "\n"

/-- A record as a JSON value. -/
def json (r : LogRecord) : Json :=
  .object (("level", .text r.level.name) :: ("msg", .text r.message) ::
    r.details.map fun (k, v) => (k, v.json))

/-- A record as a line of JSON. -/
def jsonLine (r : LogRecord) : Text := r.json.compact .minimal ++ "\n"

end LogRecord

end ScriptLang
