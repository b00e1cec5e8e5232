import ScriptLang.Decimal.Power
import ScriptLang.Eval.Hook

/-!
# Operators on values

The operators that evaluate both operands. The operands are taken without annotations and
references. The operators on bits work on integers of 64 bits.
-/

namespace ScriptLang

open Eval

namespace Number

/-- An operation on the bits of two numbers taken as integers of 64 bits. -/
def onBits (f : Int64 → Int64 → Int64) (x y : Float) : Float :=
  ofInt (f (Int64.ofInt (toInteger x)) (Int64.ofInt (toInteger y))).toInt

/-- The result of an arithmetic operator; there is none for a division by zero and for operators
that are not arithmetic. -/
def arithmetic? (op : BinaryOp) (x y : Float) : Option Float :=
  match op with
  | .add => some (x + y)
  | .sub => some (x - y)
  | .mul => some (x * y)
  | .div => if y == 0 then none else some (x / y)
  | .rem => if y == 0 then none else some (remainder x y)
  | .pow => some (power x y)
  | .bitAnd => some (onBits (· &&& ·) x y)
  | .bitOr => some (onBits (· ||| ·) x y)
  | .bitXor => some (onBits (· ^^^ ·) x y)
  | _ => none

end Number

/-- Fail because an operator does not apply to two values. -/
def operandFault {α : Type} (op : Text) (a b : Value) : Eval α :=
  fail .typeMismatch
    ("operator '" ++ op ++ "' cannot be applied to " ++ a.typeName ++ " and " ++ b.typeName)

/-- Whether the result of a comparison satisfies a comparison operator. -/
def BinaryOp.accepts : BinaryOp → Ordering → Bool
  | .lt, o => o == .lt
  | .le, o => o != .gt
  | .gt, o => o == .gt
  | .ge, o => o != .lt
  | _, _ => false

/-- The order of two numbers or two strings. -/
def Value.comparison? : Value → Value → Option Ordering
  | .number x, .number y => some (Value.order (.number x) (.number y))
  | .text x, .text y => some (compare x y)
  | _, _ => none

/-- An arithmetic operator on two values. -/
def arithmetic (op : BinaryOp) (a b : Value) : Eval Value :=
  match a, b with
  | .number x, .number y =>
    match Number.arithmetic? op x y with
    | some z => return .number z
    | none =>
      match op with
      | .div => fail .divisionByZero "division by zero"
      | .rem => fail .divisionByZero "modulo by zero"
      | _ => fail .typeMismatch ("unknown operator '" ++ op.spelling ++ "'")
  | _, _ => operandFault op.spelling a b

/-- The sum of two numbers, the concatenation of a string with the text of a value, or the
concatenation of two arrays. -/
def Runner.add (run : Runner) (a b : Value) : Eval Value := do
  match a, b with
  | .number x, .number y => return .number (x + y)
  | .text t, _ => return .text (t ++ (← run.stringify b))
  | .array x, .array y =>
    let s ← store
    newArray (s.elements x ++ s.elements y)
  | _, _ => operandFault "+" a b

/-- An operator that evaluates both operands, on two values. -/
def Runner.operate (run : Runner) (op : BinaryOp) (left right : Value) : Eval Value := do
  let a ← raw left
  let b ← raw right
  match op with
  | .eq => return .boolean (← orStuck ((← store).equal? a b))
  | .ne => return .boolean (!(← orStuck ((← store).equal? a b)))
  | .add => run.add a b
  | .lt | .le | .gt | .ge =>
    match a.comparison? b with
    | some o => return .boolean (op.accepts o)
    | none => operandFault op.spelling a b
  | _ => arithmetic op a b

end ScriptLang
