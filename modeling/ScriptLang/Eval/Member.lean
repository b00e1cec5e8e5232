import ScriptLang.Eval.Conform

/-!
# Members and elements

Reading, writing and removing the properties of values and the elements of arrays and strings. A
field of an instance hides a method of the same name, and a field with an annotation takes only
values that conform to it.
-/

namespace ScriptLang.Eval

/-- Read a property. -/
def getMember (object : Value) (name : Text) : Eval Value := do
  match ← raw object with
  | .object o type =>
    match ((← store).fields o).get? name with
    | some v => return v
    | none =>
      match type with
      | none => fail .propertyNotFound ("property '" ++ name ++ "' not found on Object")
      | some t =>
        match t.method? name with
        | some m => return .method (← newNumber) o t m
        | none => fail .propertyNotFound ("property '" ++ name ++ "' not found on " ++ t.name)
  | .pair a b =>
    if name = "first" then return a
    else if name = "second" then return b
    else fail .propertyNotFound ("a Pair has only 'first' and 'second', not '" ++ name ++ "'")
  | .collection k c =>
    match k.method? name with
    | some m => return .collectionMethod (← newNumber) k c m
    | none => fail .propertyNotFound (k.name ++ " has no method '" ++ name ++ "'")
  | v => fail .propertyNotFound ("cannot read property '" ++ name ++ "' of " ++ v.typeName)

/-- Check a value against the annotations that a struct has for a field. -/
def checkField (t : StructType) (name : Text) (v : Value) : Eval Unit := do
  for f in t.fields do
    if f.name = name then
      if let some annotation := f.type then checkType t.scope annotation v

/-- Write a property. -/
def setMember (object : Value) (name : Text) (v : Value) : Eval Unit := do
  match ← raw object with
  | .object o _ =>
    if let some t := (← store).structOf? o then checkField t name v
    update fun s => s.updateObject o fun fields => fields.set name v.plain
  | w => fail .typeMismatch ("cannot set property '" ++ name ++ "' on " ++ w.typeName)

/-- Remove a field of an object. -/
def deleteField (object : Value) (name : Text) : Eval Value := do
  match ← raw object with
  | .object o _ =>
    match ((← store).fields o).get? name with
    | some v =>
      update fun s => s.updateObject o fun fields => fields.erase name
      return v
    | none => fail .propertyNotFound ("property '" ++ name ++ "' not found")
  | w => fail .typeMismatch ("cannot delete property '" ++ name ++ "' of " ++ w.typeName)

/-- The integer that a value gives as an index. -/
def wholeIndex (what : Text) (index : Value) : Eval Float := do
  let v ← raw index
  match v with
  | .number n =>
    if Number.isIntegral n then return n
    else fail .typeMismatch (what ++ " index must be an integer, got " ++ (← display v))
  | _ => fail .typeMismatch (what ++ " index must be an integer, got " ++ (← display v))

/-- The position in an array that a value gives as an index. -/
def arrayIndex (a : ArrayId) (index : Value) : Eval Nat := do
  let n ← wholeIndex "array" index
  let length := (← store).length a
  let i := (Number.truncate? n).getD (-1)
  if 0 ≤ i && i < length then return i.toNat
  else
    fail .indexOutOfBounds
      ("index " ++ Number.print n ++ " out of bounds for array of length " ++ Text.ofNat length)

/-- Read an element. -/
def getIndex (object index : Value) : Eval Value := do
  let v ← raw object
  match v with
  | .array a =>
    let i ← arrayIndex a index
    let s ← store
    return s.slot (s.window a).block i
  | .text t =>
    let i := Number.toInteger (← wholeIndex "string" index)
    match if i < 0 then none else (Text.runes t)[i.toNat]? with
    | some r => return .text r.bytes
    | none => fail .indexOutOfBounds ("index " ++ Text.ofInt i ++ " out of bounds")
  | .object .. | .pair .. | .collection .. =>
    match ← raw index with
    | .text name => getMember v name
    | k => fail .typeMismatch ("cannot index " ++ v.typeName ++ " with " ++ k.typeName)
  | _ => fail .typeMismatch ("cannot index " ++ v.typeName)

/-- Write an element. -/
def setIndex (object index v : Value) : Eval Unit := do
  match ← raw object with
  | .array a =>
    let i ← arrayIndex a index
    update fun s => s.setElement a i v.plain
  | .object o type =>
    match ← raw index with
    | .text name => setMember (.object o type) name v
    | k => fail .typeMismatch ("object keys must be String, got " ++ k.typeName)
  | w => fail .typeMismatch ("cannot assign into " ++ w.typeName)

/-- Remove an element of an array or a field of an object. -/
def deleteIndex (object index : Value) : Eval Value := do
  let v ← raw object
  match v with
  | .array a =>
    let i ← arrayIndex a index
    let s ← store
    let removed := s.slot (s.window a).block i
    update fun s => s.removeElement a i
    return removed
  | _ =>
    match ← raw index with
    | .text name => deleteField v name
    | k => fail .typeMismatch ("cannot delete " ++ k.typeName ++ " key from " ++ v.typeName)

end ScriptLang.Eval
