import ScriptLang.Text.Basic

/-!
# Operators

The operators of expressions, by what they do. A token can carry any text as its value, so beside
the operators of the language there is one for every other spelling; reading a spelling and writing
it again gives the spelling back.
-/

namespace ScriptLang

/-- An operator between two operands. -/
inductive BinaryOp where
  /-- Either operand is true. -/
  | or
  /-- Both operands are true. -/
  | and
  /-- The left operand unless it is nil. -/
  | orElse
  /-- An operator on the bits of integers. -/
  | bitOr | bitXor | bitAnd
  /-- A comparison. -/
  | eq | ne | lt | le | gt | ge
  /-- Arithmetic. -/
  | add | sub | mul | div | rem | pow
  /-- A spelling that is no operator of the language. -/
  | other (spelling : Text)
deriving DecidableEq, Repr

namespace BinaryOp

/-- The spelling of an operator. -/
def spelling : BinaryOp → Text
  | or => "||"
  | and => "&&"
  | orElse => "??"
  | bitOr => "|"
  | bitXor => "^"
  | bitAnd => "&"
  | eq => "=="
  | ne => "!="
  | lt => "<"
  | le => "<="
  | gt => ">"
  | ge => ">="
  | add => "+"
  | sub => "-"
  | mul => "*"
  | div => "/"
  | rem => "%"
  | pow => "**"
  | other t => t

/-- The operators of the language. -/
def known : List BinaryOp :=
  [or, and, orElse, bitOr, bitXor, bitAnd, eq, ne, lt, le, gt, ge, add, sub, mul, div, rem, pow]

/-- The operator with a spelling. -/
def ofSpelling (t : Text) : BinaryOp := (known.find? fun op => op.spelling == t).getD (other t)

/-- The spelling of a range. -/
def rangeSpelling : Text := ".."

/-- How tightly a range binds. -/
def rangePrecedence : Nat := 24

/-- How tightly an operator binds; a higher number binds tighter. A spelling that is no operator binds
loosest, except that of a range, which binds as a range does. -/
def precedence : BinaryOp → Nat
  | or | orElse => 20
  | and => 22
  | bitOr => 26
  | bitXor => 27
  | bitAnd => 28
  | eq | ne | lt | le | gt | ge => 30
  | add | sub => 40
  | mul | div | rem => 50
  | pow => 55
  | other t => if t = rangeSpelling then rangePrecedence else 0

end BinaryOp

/-- An operator before its operand. -/
inductive UnaryOp where
  /-- The negative of a number. -/
  | neg
  /-- The opposite truth value. -/
  | not
  /-- The type of a value. -/
  | typeof
  /-- Remove a variable, a field or an element. -/
  | delete
  /-- A spelling that is no operator of the language. -/
  | other (spelling : Text)
deriving DecidableEq, Repr

namespace UnaryOp

/-- The spelling of an operator. -/
def spelling : UnaryOp → Text
  | neg => "-"
  | not => "!"
  | typeof => "typeof"
  | delete => "delete"
  | other t => t

/-- The operators of the language. -/
def known : List UnaryOp := [neg, not, typeof, delete]

/-- The operator with a spelling. -/
def ofSpelling (t : Text) : UnaryOp := (known.find? fun op => op.spelling == t).getD (other t)

end UnaryOp

/-- An assignment. -/
inductive AssignOp where
  /-- Store the value. -/
  | set
  /-- Store the value if the place holds nil. -/
  | setIfNil
  /-- Store the result of an operator on the old value and the new one. -/
  | add | sub | mul | div | rem
  /-- A spelling that is no assignment of the language. -/
  | other (spelling : Text)
deriving DecidableEq, Repr

namespace AssignOp

/-- The spelling of an assignment. -/
def spelling : AssignOp → Text
  | set => "="
  | setIfNil => "??="
  | add => "+="
  | sub => "-="
  | mul => "*="
  | div => "/="
  | rem => "%="
  | other t => t

/-- The assignments of the language. -/
def known : List AssignOp := [set, setIfNil, add, sub, mul, div, rem]

/-- The assignment with a spelling. -/
def ofSpelling (t : Text) : AssignOp := (known.find? fun op => op.spelling == t).getD (other t)

/-- The operator that a compound assignment applies. -/
def operator? : AssignOp → Option BinaryOp
  | add => some .add
  | sub => some .sub
  | mul => some .mul
  | div => some .div
  | rem => some .rem
  | _ => none

end AssignOp

/-- A step of a number in its place. -/
inductive StepOp where
  /-- Add one. -/
  | up
  /-- Subtract one. -/
  | down
  /-- A spelling that is no step of the language. -/
  | other (spelling : Text)
deriving DecidableEq, Repr

namespace StepOp

/-- The spelling of a step. -/
def spelling : StepOp → Text
  | up => "++"
  | down => "--"
  | other t => t

/-- The step with a spelling. -/
def ofSpelling (t : Text) : StepOp :=
  if t = "++" then up else if t = "--" then down else other t

end StepOp

end ScriptLang
