import ScriptLang.Library.Builtin
import ScriptLang.Syntax.Basic

/-!
# Values

The values that programs compute with. Numbers, strings, truth values, nil and pairs are what they
are. Arrays, objects and collections are names of things in the store, which programs can change;
two of them are the same value only if they are the same thing. A function, a bound method, a
function of the library and a reference carry a number that tells one from another.

A reference names a storage cell, and a typed value carries the annotation of the variable that
holds it. The signals of loop control and of a function's end travel as values from a statement to
the loop or call that they concern.
-/

namespace ScriptLang

/-- The number of a storage cell. -/
abbrev CellId := Nat

/-- The number of a scope. -/
abbrev ScopeId := Nat

/-- The number of an array. -/
abbrev ArrayId := Nat

/-- The number of an object. -/
abbrev ObjectId := Nat

/-- The number of a collection. -/
abbrev CollectionId := Nat

/-- A struct that a program declared. -/
structure StructType where
  /-- Tells one declaration from another. -/
  id : Nat
  /-- The name. -/
  name : Text
  /-- The declared fields. -/
  fields : List Param := []
  /-- The methods other than the constructor, of which no two have the same name. -/
  methods : List FunctionDecl := []
  /-- The constructor. -/
  ctor : Option FunctionDecl := none
  /-- The scope of the declaration. -/
  scope : ScopeId := 0

/-- The method of a struct with a name. -/
def StructType.method? (t : StructType) (name : Text) : Option FunctionDecl :=
  t.methods.find? fun m => m.name == name

/-- A value. -/
inductive Value where
  /-- A number. -/
  | number (n : Float)
  /-- A string. -/
  | text (t : Text)
  /-- A truth value. -/
  | boolean (b : Bool)
  /-- The absent value. -/
  | nil
  /-- An array. -/
  | array (id : ArrayId)
  /-- An object; an instance of a struct carries the struct. -/
  | object (id : ObjectId) (type : Option StructType)
  /-- A function with the scope it was declared in. -/
  | function (id : Nat) (decl : FunctionDecl) (scope : ScopeId)
  /-- A struct. -/
  | struct (type : StructType)
  /-- A reference to a cell; one without a cell refers to nothing. -/
  | reference (id : Nat) (cell : Option CellId)
  /-- A value with an annotation. -/
  | typed (value : Value) (type : TypeExpr)
  /-- Two values. -/
  | pair (first second : Value)
  /-- A method together with the instance it was read from. -/
  | method (id : Nat) (object : ObjectId) (type : StructType) (decl : FunctionDecl)
  /-- A function of the library. -/
  | native (id : Nat) (fn : Builtin)
  /-- A collection. -/
  | collection (kind : CollectionKind) (id : CollectionId)
  /-- A method of a collection together with the collection. -/
  | collectionMethod (id : Nat) (kind : CollectionKind) (collection : CollectionId)
      (method : CollectionMethod)
  /-- Leave the loop. -/
  | breakSignal
  /-- Go on with the next iteration. -/
  | continueSignal
  /-- Leave the function with a value. -/
  | returnSignal (value : Value)

instance : Inhabited Value := ⟨.nil⟩

namespace Value

/-- Whether a value is a signal. -/
def isSignal : Value → Bool
  | breakSignal | continueSignal | returnSignal _ => true
  | _ => false

/-- The value without the annotation at its top. -/
def plain : Value → Value
  | typed v _ => v
  | v => v

/-- The value without any annotation at its top. -/
def untyped : Value → Value
  | typed v _ => v.untyped
  | v => v

/-- The value that a signal leaves at the end of a call or of a program. -/
def unwrap : Value → Value
  | returnSignal v => v
  | breakSignal | continueSignal => nil
  | v => v

/-- The name of a value's type. An instance has the name of its struct. -/
def typeName : Value → Text
  | number _ => "Number"
  | text _ => "String"
  | boolean _ => "Boolean"
  | nil => "Nil"
  | array _ => "Array"
  | object _ (some t) => t.name
  | object _ none => "Object"
  | function .. | method .. | native .. | collectionMethod .. => "Function"
  | struct _ => "Struct"
  | reference .. => "Reference"
  | typed _ t => t.text
  | pair .. => "Pair"
  | collection k _ => k.name
  | breakSignal => "Break"
  | continueSignal => "Continue"
  | returnSignal _ => "Return"

/-- Whether two values are the same without a look into the store: equal scalars, pairs of the same
values, and things with the same name. -/
def same : Value → Value → Bool
  | number a, number b => a == b
  | text a, text b => a == b
  | boolean a, boolean b => a == b
  | nil, nil => true
  | array a, array b => a == b
  | object a _, object b _ => a == b
  | function a _ _, function b _ _ => a == b
  | struct a, struct b => a.id == b.id
  | reference a _, reference b _ => a == b
  | typed a s, typed b t => same a b && s == t
  | pair a b, pair c d => same a c && same b d
  | method a _ _ _, method b _ _ _ => a == b
  | native a _, native b _ => a == b
  | collection _ a, collection _ b => a == b
  | collectionMethod a _ _ _, collectionMethod b _ _ _ => a == b
  | breakSignal, breakSignal => true
  | continueSignal, continueSignal => true
  | returnSignal a, returnSignal b => same a b
  | _, _ => false

/-- The place of a value's type in the order of types: nil, truth values, numbers, strings, and
everything else. -/
def rank : Value → Nat
  | nil => 0
  | boolean _ => 1
  | number _ => 2
  | text _ => 3
  | _ => 4

/-- The order of two values that are neither references nor typed. Values of different types are
ordered by their types; things other than truth values, numbers and strings count as equal, and so
do numbers that are not ordered. -/
def order (a b : Value) : Ordering :=
  if a.rank ≠ b.rank then compare a.rank b.rank
  else match a, b with
    | number x, number y => if x < y then .lt else if x > y then .gt else .eq
    | text x, text y => compare x y
    | boolean x, boolean y => compare x y
    | _, _ => .eq

end Value

end ScriptLang
