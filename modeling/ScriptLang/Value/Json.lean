import ScriptLang.Json.Basic
import ScriptLang.Store.Basic

/-!
# Values and JSON

Nil, truth values, finite numbers, strings, arrays, objects and pairs have a JSON value; fields come
in ascending order of their names, instances lose their struct and a pair becomes an array of two.
Annotations and references count for nothing. Every JSON value is the JSON value of some value.
-/

namespace ScriptLang

/-- Why a value has no JSON value. -/
inductive JsonFault where
  /-- A part of the value cannot be written; it is named as messages name it. -/
  | unwritable (what : Text)
  /-- The value goes round in a circle. -/
  | endless
deriving DecidableEq, Repr

namespace Store

/-- The JSON value of a value of bounded depth. -/
def jsonWithin (s : Store) : Nat → Value → Except JsonFault Json
  | 0, _ => .error .endless
  | n + 1, v =>
    match s.raw? v with
    | none => .error .endless
    | some v =>
      match v with
      | .nil => .ok .null
      | .boolean b => .ok (.bool b)
      | .number x => if Number.isFinite x then .ok (.number x) else .error (.unwritable (Number.print x))
      | .text t => .ok (.text t)
      | .array a => return .array (← (s.elements a).mapM (s.jsonWithin n))
      | .object o _ =>
        return .object (← (s.fields o).entries.mapM fun (k, v) => return (k, ← s.jsonWithin n v))
      | .pair a b => return .array [← s.jsonWithin n a, ← s.jsonWithin n b]
      | v => .error (.unwritable v.typeName)

/-- The JSON value of a value. -/
def json? (s : Store) (v : Value) : Except JsonFault Json := s.jsonWithin 1000000000000 v

mutual

/-- A value with the given JSON value, made of new arrays and objects. -/
def ofJson (s : Store) : Json → Value × Store
  | .null => (.nil, s)
  | .bool b => (.boolean b, s)
  | .integer i => (.number (Number.ofInt i), s)
  | .number x => (.number x, s)
  | .text t => (.text t, s)
  | .array items =>
    let (vs, s) := s.ofJsonItems items
    let (a, s) := s.newArray vs 0
    (.array a, s)
  | .object entries =>
    let (fs, s) := s.ofJsonFields entries
    let (o, s) := s.newObject (Fields.ofList fs)
    (.object o none, s)

/-- Values with the given JSON values. -/
def ofJsonItems (s : Store) : List Json → List Value × Store
  | [] => ([], s)
  | j :: js =>
    let (v, s) := s.ofJson j
    let (vs, s) := s.ofJsonItems js
    (v :: vs, s)

/-- Named values with the given JSON values. -/
def ofJsonFields (s : Store) : List (Text × Json) → List (Text × Value) × Store
  | [] => ([], s)
  | (k, j) :: fs =>
    let (v, s) := s.ofJson j
    let (vs, s) := s.ofJsonFields fs
    ((k, v) :: vs, s)

end

end Store

end ScriptLang
