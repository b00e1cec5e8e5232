import ScriptLang.Digest
import ScriptLang.Json.Reader
import ScriptLang.Library.Arguments
import ScriptLang.Value.Json

/-!
# The modules `fs` and `json`

Files are named by paths from the working directory. A value that is not a string is written as JSON,
and the answer to a write tells what was written by its length and its digest.
-/

namespace ScriptLang

open Eval

namespace Json

/-- Fields in ascending order after one was added, unless there is one of that name already. -/
def insertField (name : Text) (j : Json) : List (Text × Json) → List (Text × Json)
  | [] => [(name, j)]
  | (k, i) :: rest =>
    if name = k then (k, i) :: rest
    else if name < k then (name, j) :: (k, i) :: rest
    else (k, i) :: insertField name j rest

mutual

/-- The value with the fields of every object in ascending order; of fields with the same name the
last one counts. -/
def sorted : Json → Json
  | .array items => .array (sortedItems items)
  | .object fields => .object (sortedFields fields)
  | j => j

/-- The elements of a sequence with their fields in order. -/
def sortedItems : List Json → List Json
  | [] => []
  | j :: js => j.sorted :: sortedItems js

/-- Fields in order. -/
def sortedFields : List (Text × Json) → List (Text × Json)
  | [] => []
  | (k, j) :: rest => insertField k j.sorted (sortedFields rest)

end

mutual

/-- The bracket that opens the first part of a value that lies deeper than `depth` levels. -/
def beyond? (depth : Nat) : Json → Option Text
  | .array items =>
    match depth with
    | 0 => some "["
    | n + 1 => beyondItems? n items
  | .object fields =>
    match depth with
    | 0 => some "\x7b"
    | n + 1 => beyondFields? n fields
  | _ => none

/-- The first such bracket in the elements of a sequence. -/
def beyondItems? (depth : Nat) : List Json → Option Text
  | [] => none
  | j :: js =>
    match j.beyond? depth with
    | some bracket => some bracket
    | none => beyondItems? depth js

/-- The first such bracket in the fields of an object. -/
def beyondFields? (depth : Nat) : List (Text × Json) → Option Text
  | [] => none
  | (_, j) :: rest =>
    match j.beyond? depth with
    | some bracket => some bracket
    | none => beyondFields? depth rest

end

end Json

namespace Library

/-! ### JSON -/

/-- The JSON value of a value. -/
def encode (v : Value) : Eval Json := do
  match (← store).json? v with
  | .ok j => return j
  | .error (.unwritable what) => fail .typeMismatch ("cannot encode " ++ what ++ " as JSON")
  | .error .endless => throw .stuck

/-- The value that a JSON text stands for. -/
def parseJson (a : Arguments) : Eval Value := do
  match Json.parse? (← a.text 0) with
  | some j => change fun s => s.ofJson j
  | none => fail .parseFailure "invalid JSON: not the text of a value"

/-- A text, unless it is longer than a text can be: the run ends then. -/
def allocated (t : Text) : Eval Text := if t.length > Text.sizeLimit then throw .crash else return t

/-- The JSON text of a value, on one line or with the given indentation. A text on several lines is
made from the one on one line, which must not be nested too deeply to be read. -/
def stringify (a : Arguments) : Eval Value := do
  let j ← encode (a.get 0)
  let line ← allocated (j.compact .markup)
  if a.has 1 then
    let width ← a.integer 1
    if width < 0 || width > Text.sizeLimit then throw .crash
    else if let some bracket := j.beyond? Json.maxDepth then
      fail .parseFailure
        ("json.stringify: invalid character '" ++ bracket ++ "' exceeded max depth")
    else return .text (← allocated (j.indented (Text.spaces width.toNat) 0))
  else return .text line

/-! ### Files -/

/-- The path that the first argument names, from the root. -/
def filePath (a : Arguments) : Eval (Except FileFault Text) := do
  let p ← a.text 0
  return (← get).files.absolute p

/-- The path that the first argument names, which the operation needs. -/
def neededPath (a : Arguments) : Eval Text := do
  match ← filePath a with
  | .ok path => return path
  | .error e => fail .transfer (a.name ++ ": invalid path: " ++ e.lostDirectory)

/-- A result of work on files. -/
def fileResult {α : Type} (what : Text) : Except FileError α → Eval α
  | .ok x => pure x
  | .error e => fail .transfer (what ++ e.message)

/-- The content of a file. -/
def readFile (a : Arguments) : Eval Value := do
  let path ← neededPath a
  return .text (← fileResult "fs.read: " ((← get).files.read path))

/-- The JSON text of a value in a file: the indented form is made from the text that reads back. -/
def fileText (pretty : Bool) (j : Json) : Text :=
  let line := j.compact .markup
  if pretty then
    match Json.parse? line with
    | some k => k.sorted.indented (Text.spaces 2) 0
    | none => line
  else line

/-- What is written for a value: a string as it is, and everything else as JSON. -/
def fileContent (pretty : Bool) (v : Value) : Eval Text := do
  match v with
  | .text t => if pretty then return fileText true (.text t) else return t
  | v => return fileText pretty (← encode v)

/-- Write a file, with the directories around it. -/
def writeFile (a : Arguments) : Eval Value := do
  let path ← neededPath a
  let format ← if a.has 2 then a.text 2 else pure ("raw" : Text)
  let pretty := format == "json"
  let content ← fileContent pretty (← a.value 1)
  let (files, fault) := (← get).files.makeDirs (Path.dir path)
  modify fun st => { st with files := files }
  if let some e := fault then fail .transfer ("fs.write: cannot create directory: " ++ e.message)
  let files ← fileResult "fs.write: " ((← get).files.write path content)
  modify fun st => { st with files := files }
  newObject (Fields.ofList [
    ("kind", .text "file"),
    ("path", .text path),
    ("bytes", .number (Number.ofNat content.length)),
    ("sha256", .text (Digest.sha256 content))])

/-- Whether a path names something. -/
def existsFile (a : Arguments) : Eval Value := do
  match ← filePath a with
  | .ok path => return .boolean ((← get).files.exist path)
  | .error _ => return .boolean false

/-- The names and types of what is in a directory. -/
def listFiles (a : Arguments) : Eval Value := do
  let path ← neededPath a
  let entries ← fileResult "fs.list: " ((← get).files.list path)
  let items ← entries.mapM fun (name, node) =>
    newObject (Fields.ofList [
      ("name", .text name),
      ("type", .text (if node.isDir then "directory" else "file"))])
  newArray items

/-- Remove a file or an empty directory; false if there was none. -/
def removeFile (a : Arguments) : Eval Value := do
  let path ← neededPath a
  match (← get).files.remove path with
  | .ok files =>
    modify fun st => { st with files := files }
    return .boolean true
  | .error e =>
    if e.fault = .missing then return .boolean false
    else fail .transfer ("fs.remove: " ++ e.message)

end Library

end ScriptLang
