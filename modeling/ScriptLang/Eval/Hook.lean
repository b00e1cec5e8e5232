import ScriptLang.Eval.Task
import ScriptLang.Text.Utf8

/-!
# Methods that the language calls

An instance of a struct and a collection can say for themselves how long they are, what a loop over
them visits and how they are shown: by the methods `size`, `items` and `str`. All other values have
answers of their own.
-/

namespace ScriptLang

open Eval

namespace Runner

/-- Call a method without arguments, if the value has it. -/
def hook (run : Runner) (v : Value) (name : Text) : Eval (Option Value) := do
  match ← raw v with
  | .object o (some t) =>
    match t.method? name with
    | some m => return some (← run.call (.method 0 o t m) [])
    | none => return none
  | .collection k c =>
    match k.method? name with
    | some m => return some (← run.call (.collectionMethod 0 k c m) [])
    | none => return none
  | _ => return none

/-- Whether a value is a number other than zero. -/
def isNonZero (v : Value) : Eval Bool := do
  match ← raw v with
  | .number n => return n != 0
  | _ => return false

/-- Whether a value counts as true, where `n` bounds the depth of pairs. An instance is true only if
its struct has a method `size` without parameters that gives a number other than zero. -/
def truthyWithin (run : Runner) : Nat → Value → Eval Bool
  | 0, _ => throw .stuck
  | n + 1, v => do
    match ← raw v with
    | .object o (some t) =>
      match t.method? "size" with
      | some m =>
        if m.params.isEmpty then isNonZero (← run.call (.method 0 o t m) []) else return false
      | none => return false
    | .collection k c => isNonZero (← run.call (.collectionMethod 0 k c .size) [])
    | .pair a b => if ← run.truthyWithin n a then run.truthyWithin n b else return false
    | w => orStuck ((← store).truth? w)

/-- Whether a value counts as true. -/
def truthy (run : Runner) (v : Value) : Eval Bool := run.truthyWithin Store.depthLimit v

/-- The length of a value: elements of an array, characters of a string, fields of an object, or
what the method `size` gives. -/
def len (run : Runner) (v : Value) : Eval Int := do
  match ← raw v with
  | .array a => return (← store).length a
  | .text t => return Text.runeCount t
  | .object o none => return ((← store).fields o).length
  | w =>
    match ← run.hook w "size" with
    | none => fail .typeMismatch (w.typeName ++ " has no length")
    | some size =>
      match ← raw size with
      | .number n => return Number.toInteger n
      | other =>
        fail .typeMismatch ("size() must return a Number, got " ++ other.typeName)

end Runner

/-- What a loop visits. -/
inductive Items where
  /-- These values. -/
  | values (vs : Array Value)
  /-- The slots of a window, each as it is when its turn comes. -/
  | window (w : Window)

namespace Items

/-- The number of items. -/
def length : Items → Nat
  | values vs => vs.size
  | window w => w.length

/-- The item at a position. -/
def get (i : Nat) : Items → Eval Value
  | values vs => return vs.getD i .nil
  | window w => return (← store).slot w.block i

/-- All items. -/
def toList (items : Items) : Eval (List Value) := (List.range items.length).mapM fun i => items.get i

end Items

namespace Runner

/-- What a loop over a value visits: the elements of an array, the characters of a string, the names
of the fields of an object, or what the method `items` gives. -/
def items (run : Runner) (v : Value) : Eval Items := do
  match ← raw v with
  | .array a => return .values ((← store).elements a).toArray
  | .text t => return .values ((Text.runes t).map fun r => Value.text (Text.encode r.code)).toArray
  | .object o none => return .values (((← store).fields o).names.map Value.text).toArray
  | w =>
    match ← run.hook w "items" with
    | none => fail .typeMismatch ("cannot iterate over " ++ w.typeName)
    | some list =>
      match ← raw list with
      | .array a => return .window ((← store).window a)
      | other => fail .typeMismatch ("items() must return an Array, got " ++ other.typeName)

/-- The text that a value gives for itself by its method `str`. -/
def ownText (run : Runner) (v : Value) : Eval (Option Text) := do
  match v with
  | .object .. | .collection .. =>
    match ← run.hook v "str" with
    | some t => return some (← display (← raw t))
    | none => return none
  | _ => return none

/-- The text of a value, where instances and collections are asked for theirs. -/
def stringify (run : Runner) (v : Value) : Eval Text :=
  let r : Renderer Eval := { store := store, tooDeep := throw .stuck, hook := run.ownText }
  r.render Store.depthLimit false v

end Runner

end ScriptLang
