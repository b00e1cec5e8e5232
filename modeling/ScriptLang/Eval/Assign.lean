import ScriptLang.Eval.Member
import ScriptLang.Eval.Operator

/-!
# Assignments

A place is a variable, a property or an element. The expressions that a place consists of are
evaluated once, before anything is read from it or written to it. An assignment to a variable that
holds a reference goes to what is referred to, and a typed variable keeps its annotation.
-/

namespace ScriptLang

open Eval

/-- A place that can be assigned to. -/
inductive Place where
  /-- A variable. -/
  | name (name : Text) (scope : ScopeId)
  /-- A property of a value. -/
  | member (object : Value) (property : Text)
  /-- An element of a value. -/
  | element (object index : Value)

/-- The value for a place whose old content was `old`. -/
def Eval.retype (scope : ScopeId) (old v : Value) : Eval Value :=
  match old with
  | .typed _ t => annotated scope (some t) v
  | _ => annotated scope none v

/-- Assign to a variable. -/
def Eval.assignName (scope : ScopeId) (name : Text) (v : Value) : Eval Unit := do
  if !(← store).has scope name || (← store).isConstant scope name then
    naming (Naming.assign scope name v)
  else
    match ← lookup scope name with
    | .reference _ (some cell) =>
      let w ← retype scope ((← store).read cell) v
      update fun s => s.write cell w
    | old =>
      let w ← retype scope old v
      naming (Naming.assign scope name w)

namespace Place

/-- The value in a place. -/
def read : Place → Eval Value
  | name n scope => lookup scope n
  | member o p => getMember o p
  | element o i => getIndex o i

/-- Write a value to a place. -/
def write (v : Value) : Place → Eval Unit
  | name n scope => assignName scope n v
  | member o p => setMember o p v
  | element o i => setIndex o i v

end Place

namespace Runner

/-- The place that an expression names. -/
def place (run : Runner) (target : Expr) (scope : ScopeId) : Eval Place := do
  match target with
  | .ident _ n => return .name n scope
  | .member _ o p => return .member (← run.expr o scope) p
  | .index _ o i =>
    let object ← run.expr o scope
    return .element object (← run.expr i scope)
  | e => fail .invalidAssignTarget ("cannot assign to " ++ e.kindName)

/-- Whether a value holds nil. -/
def isNil (v : Value) : Eval Bool := do
  match ← raw v with
  | .nil => return true
  | _ => return false

/-- An assignment; its value is what was stored, or the old value if nothing was. -/
def assign (run : Runner) (op : AssignOp) (target value : Expr) (scope : ScopeId) : Eval Value := do
  let place ← run.place target scope
  match op with
  | .set =>
    let v ← run.expr value scope
    place.write v
    return v
  | .setIfNil =>
    let old ← place.read
    if ← isNil old then
      let v ← run.expr value scope
      place.write v
      return v
    else return old
  | _ =>
    match op.operator? with
    | none =>
      fail .invalidAssignTarget ("unknown assignment operator '" ++ op.spelling ++ "'")
    | some operator =>
      let old ← place.read
      let operand ← run.expr value scope
      let v ← run.operate operator old operand
      place.write v
      return v

/-- A step of the number in a place; its value is the old number. -/
def stepPlace (run : Runner) (op : StepOp) (target : Expr) (scope : ScopeId) : Eval Value := do
  let place ← run.place target scope
  match ← raw (← place.read) with
  | .number n =>
    place.write (.number (if op = .down then n - 1 else n + 1))
    return .number n
  | v => fail .typeMismatch ("'" ++ op.spelling ++ "' requires a Number, got " ++ v.typeName)

/-- Remove a variable, a property or an element; the value is what was removed. -/
def delete (run : Runner) (target : Expr) (scope : ScopeId) : Eval Value := do
  match target with
  | .ident _ n =>
    if (← store).isConstant scope n then
      fail .constReassign ("cannot delete constant '" ++ n ++ "'")
    else naming (Naming.remove scope n)
  | .member _ o p => deleteField (← run.expr o scope) p
  | .index _ o i =>
    let object ← run.expr o scope
    deleteIndex object (← run.expr i scope)
  | e => fail .invalidAssignTarget ("cannot delete " ++ e.kindName)

end Runner

end ScriptLang
