import ScriptLang.Decimal.Power
import ScriptLang.Library.Arguments

/-!
# The module `math`
-/

namespace ScriptLang

open Eval

namespace Number

/-- The ratio of a circle's circumference to its diameter. -/
def pi : Float := 3.141592653589793

/-- The base of the natural logarithm. -/
def e : Float := 2.718281828459045

/-- The greater of two numbers. An infinity wins over everything, then anything that is not a number,
and the positive zero is greater than the negative one. -/
def greater (x y : Float) : Float :=
  if x == infinity false || y == infinity false then infinity false
  else if x.isNaN || y.isNaN then notANumber
  else if x == 0 && y == 0 then if isNegative x then y else x
  else if x > y then x else y

/-- The lesser of two numbers. The negative infinity wins over everything, then anything that is not
a number, and the negative zero is less than the positive one. -/
def lesser (x y : Float) : Float :=
  if x == infinity true || y == infinity true then infinity true
  else if x.isNaN || y.isNaN then notANumber
  else if x == 0 && y == 0 then if isNegative x then x else y
  else if x < y then x else y

end Number

namespace Library

/-- A function of one number. -/
def onNumber (f : Float → Float) (a : Arguments) : Eval Value :=
  return .number (f (← a.number 0))

/-- The power of two numbers. -/
def pow (a : Arguments) : Eval Value := do
  let x ← a.number 0
  return .number (Number.power x (← a.number 1))

/-- The numbers put together by `pick`, from `start` on: the arguments, or the elements of a single
array. -/
def foldNumbers (start : Float) (pick : Float → Float → Float) (a : Arguments) : Eval Value := do
  let single ← if a.has 1 then pure Value.nil else a.value 0
  let vs ← match single with
    | .array id => pure ((← store).elements id)
    | _ => pure a.values
  if vs.isEmpty then fail .arityMismatch (a.name ++ ": list must not be empty")
  else
    let picked ← vs.foldlM (fun acc v => do
      match ← raw v with
      | .number n => return pick acc n
      | _ => fail .typeMismatch (a.name ++ ": all elements must be numbers")) start
    return .number picked

/-- The least number. -/
def least (a : Arguments) : Eval Value := foldNumbers (Number.infinity false) Number.lesser a

/-- The greatest number. -/
def greatest (a : Arguments) : Eval Value := foldNumbers (Number.infinity true) Number.greater a

end Library

end ScriptLang
