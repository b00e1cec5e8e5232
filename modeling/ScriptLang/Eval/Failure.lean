import ScriptLang.Diagnostic
import ScriptLang.Syntax.Basic

/-!
# Failures

How an evaluation can end without a value. A *fault* is an error of the program: it has a code and,
once it passed a node of the program on its way out, the span of that node. Loop control that leaves
a match expression travels as a failure up to the list of statements around it. A run can be
cancelled from outside. A *crash* ends the whole process, and an evaluation is *stuck* when it used
up its bound on steps.
-/

namespace ScriptLang

/-- An error of a program. -/
structure Fault where
  /-- The kind of the error. -/
  code : Code
  /-- What went wrong. -/
  message : Text
  /-- The innermost node that failed, once it is known. -/
  span : Option Span := none
  /-- What could be done about it. -/
  hint : Text := []
deriving DecidableEq, Repr

/-- The diagnostic of a fault. -/
def Fault.diagnostic (f : Fault) : Diagnostic :=
  { code := f.code, message := f.message, location := f.span.map Span.location, hint := f.hint }

/-- A fault at a span, unless it already has one. -/
def Fault.located (f : Fault) (span : Span) : Fault := { f with span := some (f.span.getD span) }

/-- Loop control. -/
inductive LoopControl where
  /-- Leave the loop. -/
  | leave
  /-- Go on with the next iteration. -/
  | next
deriving DecidableEq, Repr

/-- Why an evaluation ended without a value. -/
inductive Failure where
  /-- An error of the program. -/
  | fault (f : Fault)
  /-- Loop control on its way to the list of statements around it. -/
  | loop (control : LoopControl)
  /-- The run was cancelled; `what` is the work that was stopped. -/
  | cancelled (what : Text)
  /-- The process ended. -/
  | crash
  /-- The bound on steps was reached. -/
  | stuck
deriving DecidableEq, Repr

namespace Failure

/-- The message of a failure. -/
def message : Failure → Text
  | fault f => f.message
  | loop .leave => "'break' outside of a loop"
  | loop .next => "'continue' outside of a loop"
  | cancelled what => what ++ ": context canceled"
  | crash => "panic"
  | stuck => "evaluation does not end"

/-- The failure with a span put on a fault that has none. -/
def located (span : Span) : Failure → Failure
  | fault f => fault (f.located span)
  | e => e

/-- The diagnostics of a failure. -/
def diagnostics : Failure → List Diagnostic
  | fault f => [f.diagnostic]
  | _ => []

end Failure

end ScriptLang
