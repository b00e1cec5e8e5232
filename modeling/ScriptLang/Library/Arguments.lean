import ScriptLang.Eval.Hook

/-!
# Arguments of library functions

A library function takes its arguments by position and asks for the type that it needs. A wrong type
is reported with the name of the function and the position of the argument. The number of arguments
was checked before, so every position that a function asks for is there.
-/

namespace ScriptLang

open Eval

/-- The arguments of a call of a library function. -/
structure Arguments where
  /-- The name of the function. -/
  name : Text
  /-- The arguments in order. -/
  values : List Value

namespace Arguments

/-- An argument as it was given. -/
def get (a : Arguments) (i : Nat) : Value := a.values.getD i .nil

/-- Whether there is an argument at a position. -/
def has (a : Arguments) (i : Nat) : Bool := i < a.values.length

/-- An argument without annotations and references. -/
def value (a : Arguments) (i : Nat) : Eval Value := raw (a.get i)

/-- Fail because an argument is not what it must be. -/
def mismatch {α : Type} (a : Arguments) (i : Nat) (want : Text) : Eval α := do
  fail .typeMismatch (a.name ++ ": argument " ++ Text.ofNat (i + 1) ++ " must be " ++ want ++
    ", got " ++ (← typeName (a.get i)))

/-- A number. -/
def number (a : Arguments) (i : Nat) : Eval Float := do
  match ← a.value i with
  | .number n => return n
  | _ => a.mismatch i "a Number"

/-- An integer of 64 bits. -/
def integer (a : Arguments) (i : Nat) : Eval Int := do
  let n ← a.number i
  if Number.isIntegral n then return Number.toInteger n else a.mismatch i "an integer"

/-- A string. -/
def text (a : Arguments) (i : Nat) : Eval Text := do
  match ← a.value i with
  | .text t => return t
  | _ => a.mismatch i "a String"

/-- An array. -/
def array (a : Arguments) (i : Nat) : Eval ArrayId := do
  match ← a.value i with
  | .array id => return id
  | _ => a.mismatch i "an Array"

/-- An object. -/
def object (a : Arguments) (i : Nat) : Eval ObjectId := do
  match ← a.value i with
  | .object id _ => return id
  | _ => a.mismatch i "an Object"

end Arguments

/-- A new array of strings. -/
def Eval.newTexts (ts : List Text) : Eval Value := newArray (ts.map Value.text)

end ScriptLang
