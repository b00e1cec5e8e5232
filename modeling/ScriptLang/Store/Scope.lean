import ScriptLang.Diagnostic
import ScriptLang.Store.Basic

/-!
# Names in scopes

A name is looked up from a scope outwards and means the innermost binding. A declaration binds in
the scope itself and must not repeat a name of that scope; every other change goes to the scope that
binds the name. The name `_` is never bound: it reads as nil, and writes to it are lost.

A scope keeps its constants apart from its bindings: an operation that changes the one has to see to
the other.
-/

namespace ScriptLang

/-- Why a name cannot be used as asked. -/
inductive NameFault where
  /-- The scope already binds the name. -/
  | declaredTwice (name : Text)
  /-- An assignment to a name that is not bound. -/
  | undeclared (name : Text)
  /-- An assignment to a constant. -/
  | constant (name : Text)
  /-- A name that is not bound. -/
  | undefined (name : Text)
deriving DecidableEq, Repr

namespace NameFault

/-- The code of a fault. -/
def code : NameFault → Code
  | .declaredTwice _ => .duplicateIdentifier
  | .undeclared _ | .undefined _ => .undefinedValue
  | .constant _ => .constReassign

/-- The message of a fault. -/
def message : NameFault → Text
  | .declaredTwice name => "'" ++ name ++ "' is already declared in this scope"
  | .undeclared name => "cannot assign to undeclared variable '" ++ name ++ "'"
  | .constant name => "cannot reassign constant '" ++ name ++ "'"
  | .undefined name => "undefined value '" ++ name ++ "'"

end NameFault

/-- The name that is never bound. -/
def discard : Text := "_"

namespace Scope

variable (s : Scope) (name : Text)

/-- The cell of a name in a scope itself. -/
def cell? : Option CellId := s.values.lookup name

/-- Whether a scope itself binds a name. -/
def binds : Bool := (s.cell? name).isSome

/-- Whether a name is marked as a constant. -/
def marks : Bool := s.constants.contains name

/-- The scope with a cell for a name. -/
def bind (c : CellId) : Scope := { s with values := (name, c) :: s.values }

/-- The scope without the cell of a name. -/
def unbind : Scope := { s with values := s.values.filter fun e => e.1 != name }

/-- The scope with a name marked as a constant. -/
def mark : Scope := { s with constants := s.constants.insert name }

/-- The scope without the mark of a name. -/
def unmark : Scope := { s with constants := s.constants.filter fun n => n != name }

end Scope

namespace Store

/-- A scope. -/
def scope (s : Store) (id : ScopeId) : Scope := s.scopes.getD id {}

/-- A new scope. -/
def newScope (s : Store) (parent : Option ScopeId) : ScopeId × Store :=
  (s.scopes.size, { s with scopes := s.scopes.push { parent := parent } })

/-- The store after a change to a scope. -/
def updateScope (s : Store) (id : ScopeId) (f : Scope → Scope) : Store :=
  { s with scopes := s.scopes.modify id f }

/-- The innermost scope that binds a name, and the name's cell there, looking at no more than `n`
scopes. -/
def locateWithin (s : Store) (name : Text) : Nat → ScopeId → Option (ScopeId × CellId)
  | 0, _ => none
  | n + 1, id =>
    let scope := s.scope id
    match scope.cell? name with
    | some c => some (id, c)
    | none =>
      match scope.parent with
      | some p => locateWithin s name n p
      | none => none

/-- The innermost scope that binds a name, and the name's cell there. A scope is younger than the
scope around it, so the number of scopes bounds the search. -/
def locate (s : Store) (id : ScopeId) (name : Text) : Option (ScopeId × CellId) :=
  s.locateWithin name s.scopes.size id

/-- The value of a name. -/
def lookup (s : Store) (id : ScopeId) (name : Text) : Except NameFault Value :=
  if name = discard then .ok .nil
  else match s.locate id name with
    | none => .error (.undefined name)
    | some (_, c) => .ok (s.read c)

/-- Whether a name is bound in a scope or around it. -/
def has (s : Store) (id : ScopeId) (name : Text) : Bool := (s.locate id name).isSome

/-- Whether a scope itself binds a name. -/
def hasLocal (s : Store) (id : ScopeId) (name : Text) : Bool := (s.scope id).binds name

/-- The cell of a name. -/
def cellOf (s : Store) (id : ScopeId) (name : Text) : Except NameFault CellId :=
  match s.locate id name with
  | none => .error (.undefined name)
  | some (_, c) => .ok c

/-- Whether a name means a constant. -/
def isConstant (s : Store) (id : ScopeId) (name : Text) : Bool :=
  match s.locate id name with
  | none => false
  | some (owner, _) => (s.scope owner).marks name

/-- The names bound in a scope itself, in ascending order. -/
def names (s : Store) (id : ScopeId) : List Text := Text.sort ((s.scope id).values.map Prod.fst)

end Store

/-- A change to names. One that fails leaves the store as it is at that point. -/
abbrev Naming := EStateM NameFault Store

namespace Naming

/-- Bind a variable in a scope. -/
@[inline]
def define (id : ScopeId) (name : Text) (v : Value) : Naming Unit := do
  if name = discard then return
  else if (← get).hasLocal id name then throw (.declaredTwice name)
  else
    let cell ← modifyGet fun s => s.newCell v
    modify fun s => s.updateScope id fun scope => scope.bind name cell

/-- Bind a constant in a scope. -/
@[inline]
def declareConstant (id : ScopeId) (name : Text) (v : Value) : Naming Unit := do
  define id name v
  if name ≠ discard then modify fun s => s.updateScope id fun scope => scope.mark name

/-- Write to the innermost binding of a name. -/
@[inline]
def assign (id : ScopeId) (name : Text) (v : Value) : Naming Unit := do
  if name = discard then return
  else match (← get).locate id name with
    | none => throw (.undeclared name)
    | some (owner, cell) =>
      if ((← get).scope owner).marks name then throw (.constant name)
      else modify fun s => s.write cell v

/-- Make a binding constant. -/
@[inline]
def makeConstant (id : ScopeId) (name : Text) : Naming Unit := do
  if name = discard then return
  else match (← get).locate id name with
    | none => throw (.undefined name)
    | some (owner, _) => modify fun s => s.updateScope owner fun scope => scope.mark name

/-- Make a binding writable again. -/
@[inline]
def stripConstant (id : ScopeId) (name : Text) : Naming Unit := do
  match (← get).locate id name with
  | none => return
  | some (owner, _) => modify fun s => s.updateScope owner fun scope => scope.unmark name

/-- Remove the innermost binding of a name; the result is the value it had. -/
@[inline]
def remove (id : ScopeId) (name : Text) : Naming Value := do
  if name = discard then return .nil
  else match (← get).locate id name with
    | none => throw (.undefined name)
    | some (owner, cell) =>
      let v := (← get).read cell
      modify fun s => s.updateScope owner fun scope => scope.unbind name
      modify fun s => s.updateScope owner fun scope => scope.unmark name
      return v

end Naming

end ScriptLang
