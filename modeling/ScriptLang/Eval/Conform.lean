import ScriptLang.Eval.State

/-!
# Annotations

Whether a value conforms to an annotation. Nil conforms to every annotation. An instance conforms to
the name of its struct; a name that means neither a type of the language nor a collection nor a
struct in scope is not checked.
-/

namespace ScriptLang

/-- The types that the language names. -/
inductive BasicType where
  /-- Every value. -/
  | any
  /-- The scalars. -/
  | number | text | boolean | nil
  /-- The things. -/
  | array | object | function | pair
  /-- The collections of a kind. -/
  | collection (kind : CollectionKind)
deriving DecidableEq, Repr

namespace BasicType

/-- The name of a type. -/
def name : BasicType → Text
  | any => "any"
  | number => "Number"
  | text => "String"
  | boolean => "Boolean"
  | nil => "Nil"
  | array => "Array"
  | object => "Object"
  | function => "Function"
  | pair => "Pair"
  | collection k => k.name

/-- The types that the language names. -/
def all : List BasicType :=
  [any, number, text, boolean, nil, array, object, function, pair] ++
    CollectionKind.all.map collection

/-- The type with a name. -/
def ofName? (name : Text) : Option BasicType := all.find? fun t => t.name == name

/-- Whether a value other than nil belongs to a type. Nothing but nil belongs to the type of nil. -/
def holds : BasicType → Value → Bool
  | any, _ => true
  | number, .number _ => true
  | text, .text _ => true
  | boolean, .boolean _ => true
  | array, .array _ => true
  | object, .object .. => true
  | function, .function .. | function, .method .. | function, .native ..
  | function, .collectionMethod .. => true
  | pair, .pair .. => true
  | collection k, .collection k' _ => k == k'
  | _, _ => false

end BasicType

namespace Store

/-- Whether a name means a struct in a scope. -/
def namesStruct? (s : Store) (scope : ScopeId) (name : Text) : Option Bool :=
  match s.lookup scope name with
  | .error _ => some false
  | .ok v => do
    match ← s.raw? v with
    | .struct _ => return true
    | _ => return false

/-- Whether a value other than nil conforms to a name. -/
def conformsNamed? (s : Store) (scope : ScopeId) (name : Text) (v : Value) : Option Bool :=
  match BasicType.ofName? name with
  | some t => some (t.holds v)
  | none =>
    let isInstance := match v with
      | .object _ (some t) => t.name == name
      | _ => false
    if isInstance then some true else return !(← s.namesStruct? scope name)

/-- Whether a value conforms to an annotation that is read in a scope. -/
def conforms? (s : Store) (scope : ScopeId) : TypeExpr → Value → Option Bool
  | .named _ name, v => do
    match ← s.raw? v with
    | .nil => return true
    | w => s.conformsNamed? scope name w
  | .list _ elem, v => do
    match ← s.raw? v with
    | .nil => return true
    | .array a => (s.elements a).allM fun e => s.conforms? scope elem e
    | _ => return false

end Store

namespace Eval

/-- Fail if a value does not conform to an annotation. -/
def checkType (scope : ScopeId) (type : TypeExpr) (v : Value) : Eval Unit := do
  unless ← orStuck ((← store).conforms? scope type v) do
    fail .typeMismatch ("expected " ++ type.text ++ ", got " ++ (← typeName v))

/-- The value to store under an optional annotation: checked and marked with it, or plain. -/
def annotated (scope : ScopeId) (type : Option TypeExpr) (v : Value) : Eval Value := do
  match type with
  | some t =>
    checkType scope t v
    return .typed (← raw v) t
  | none => return v.plain

end Eval

end ScriptLang
