import ScriptLang.Json.Basic
import ScriptLang.Span
import ScriptLang.Text.Space

/-!
# Diagnostics

A diagnostic is a finding about a program: a code, a message, the place it is about and a hint. It
has three texts: one line of JSON, a short form for people, and the short form followed by the line
of the source with a caret under the column.
-/

namespace ScriptLang

/-- The kind of a finding. -/
inductive Code where
  /-- A byte that starts no token. -/
  | unrecognizedToken
  /-- A backslash followed by something that is no escape. -/
  | invalidEscape
  /-- A string without its closing quote. -/
  | unterminatedString
  /-- A token that starts no expression or type where one is needed. -/
  | expectedOperand
  /-- A token other than the one that has to follow. -/
  | expectedKind
  /-- A reserved word used as a name. -/
  | reservedIdentifier
  /-- A construction of something that is no struct. -/
  | invalidConstructor
  /-- Loop control outside of a loop. -/
  | loopControl
  /-- A member declared twice. -/
  | duplicateMember
  /-- A value of the wrong type. -/
  | typeMismatch
  /-- A wrong number of arguments. -/
  | arityMismatch
  /-- A name without a value. -/
  | undefinedValue
  /-- A module or an imported name that does not exist. -/
  | undefinedIdentifier
  /-- A name declared twice in one scope. -/
  | duplicateIdentifier
  /-- A write to a constant. -/
  | constReassign
  /-- A property that an object does not have. -/
  | propertyNotFound
  /-- An index outside of a sequence. -/
  | indexOutOfBounds
  /-- An assignment to something that is no place. -/
  | invalidAssignTarget
  /-- A call of something that is no function. -/
  | invalidCallTarget
  /-- A wrong number of arguments of a constructor. -/
  | invalidConstructorArity
  /-- An argument outside of its range. -/
  | outOfRange
  /-- A text that cannot be read. -/
  | parseFailure
  /-- A step of zero. -/
  | invalidStep
  /-- A range that goes the wrong way. -/
  | invalidRange
  /-- A division by zero. -/
  | divisionByZero
  /-- A file that imports itself through others. -/
  | importCycle
  /-- A module that the policy does not admit. -/
  | moduleDenied
  /-- A failed read or write. -/
  | transfer
  /-- Any other code. -/
  | other (name : Text)
deriving DecidableEq, Repr

/-- The name of a code. -/
def Code.name : Code → Text
  | .unrecognizedToken => "E_UNRECOGNIZED_TOKEN"
  | .invalidEscape => "E_INVALID_ESCAPE"
  | .unterminatedString => "E_UNTERMINATED_STRING"
  | .expectedOperand => "E_EXPECTED_NUD"
  | .expectedKind => "E_EXPECTED_KIND"
  | .reservedIdentifier => "E_RESERVED_IDENTIFIER"
  | .invalidConstructor => "E_INVALID_CONSTRUCTOR"
  | .loopControl => "E_LOOP_CONTROL"
  | .duplicateMember => "E_DUPLICATE_MEMBER"
  | .typeMismatch => "E_TYPE_MISMATCH"
  | .arityMismatch => "E_ARITY_MISMATCH"
  | .undefinedValue => "E_UNDEFINED_VALUE"
  | .undefinedIdentifier => "E_UNDEFINED_IDENTIFIER"
  | .duplicateIdentifier => "E_DUPLICATE_IDENTIFIER"
  | .constReassign => "E_CONST_REASSIGN"
  | .propertyNotFound => "E_PROPERTY_NOT_FOUND"
  | .indexOutOfBounds => "E_INDEX_OUT_OF_BOUNDS"
  | .invalidAssignTarget => "E_INVALID_ASSIGNMENT_TARGET"
  | .invalidCallTarget => "E_INVALID_CALL_TARGET"
  | .invalidConstructorArity => "E_INVALID_CONSTRUCTOR_ARITY"
  | .outOfRange => "E_OUT_OF_RANGE"
  | .parseFailure => "E_PARSE_FAILURE"
  | .invalidStep => "E_INVALID_STEP"
  | .invalidRange => "E_INVALID_RANGE"
  | .divisionByZero => "E_DIVISION_BY_ZERO"
  | .importCycle => "E_IMPORT_CYCLE"
  | .moduleDenied => "E_MODULE_DENIED"
  | .transfer => "E_IO"
  | .other name => name

/-- The place that a diagnostic names. It need not lie in any source text. -/
structure Location where
  /-- The name of the file. -/
  file : Text
  /-- The line, from one. -/
  line : Int
  /-- The column, from one, in bytes. -/
  col : Int
  /-- The offset of the first byte. -/
  start : Int
  /-- The offset after the last byte. -/
  stop : Int
deriving DecidableEq, Repr

/-- The location of a span. -/
def Span.location (s : Span) : Location := ⟨s.file, s.line, s.col, s.start, s.stop⟩

/-- A finding about a program. -/
structure Diagnostic where
  /-- The kind of the finding. -/
  code : Code
  /-- What was found. -/
  message : Text
  /-- Where it was found, if known. -/
  location : Option Location := none
  /-- What could be done about it; empty when there is nothing to say. -/
  hint : Text := []
deriving DecidableEq, Repr

namespace Diagnostic

/-- The JSON value of a location. -/
def locationJson (l : Location) : Json :=
  .object [("file", .text l.file), ("line", .integer l.line), ("col", .integer l.col),
    ("start", .integer l.start), ("end", .integer l.stop)]

/-- The JSON value of a diagnostic; an absent location or hint has no field. -/
def json (d : Diagnostic) : Json :=
  let head : List (Text × Json) := [("code", .text d.code.name), ("message", .text d.message)]
  let span : List (Text × Json) :=
    match d.location with
    | some l => [("span", locationJson l)]
    | none => []
  let hint : List (Text × Json) := if d.hint.isEmpty then [] else [("hint", .text d.hint)]
  .object (head ++ span ++ hint)

/-- One diagnostic as a line of JSON. -/
def jsonText (d : Diagnostic) : Text := d.json.compact .markup

/-- Several diagnostics as a line of JSON; none at all is `null`. -/
def jsonTexts : List Diagnostic → Text
  | [] => "null"
  | ds => (Json.array (ds.map json)).compact .markup

/-- The line that gives the kind and the message. -/
def headline (d : Diagnostic) : Text := "error[" ++ d.code.name ++ "]: " ++ d.message

/-- The place in the form `file:line:column`. -/
def place (d : Diagnostic) : Text :=
  match d.location with
  | some l => l.file ++ ":" ++ Text.ofInt l.line ++ ":" ++ Text.ofInt l.col
  | none => "<unknown>"

/-- The short form: headline, place and, if there is one, the hint. -/
def pretty (d : Diagnostic) : Text :=
  let hint : Text := if d.hint.isEmpty then [] else "\n  hint: " ++ d.hint
  d.headline ++ "\n  --> " ++ d.place ++ hint

/-- The short forms of several diagnostics, with an empty line between them. -/
def pretties (ds : List Diagnostic) : Text := Text.join "\n\n" (ds.map pretty)

/-- The line of the source that a location names, without a carriage return at its end. -/
def sourceLine? (source : Text) (l : Location) : Option Text :=
  if l.line ≤ 0 then none
  else ((Text.lines source)[l.line.toNat - 1]?).map (Text.trimRight [0x0d])

/-- The source line with a caret under the column; the caret stays on the line or right after it. -/
def excerpt (line : Text) (l : Location) : Text :=
  let gutter := Text.ofInt l.line
  let pad := Text.spaces gutter.length
  let col := min (max l.col 1).toNat (line.length + 1)
  "\n " ++ pad ++ " |\n " ++ gutter ++ " | " ++ line ++ "\n " ++ pad ++ " | " ++
    Text.spaces (col - 1) ++ "^"

/-- The short form followed by the line of `source` that the diagnostic is about, if it has one. -/
def withSource (source : Text) (d : Diagnostic) : Text :=
  d.pretty ++
    match d.location with
    | none => []
    | some l =>
      match sourceLine? source l with
      | some line => excerpt line l
      | none => []

/-- Several diagnostics as one message. -/
def summary (ds : List Diagnostic) : Text :=
  Text.join "; " (ds.map fun d => d.code.name ++ ": " ++ d.message)

end Diagnostic

end ScriptLang
