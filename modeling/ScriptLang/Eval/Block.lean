import ScriptLang.Eval.Task

/-!
# Lists of statements

Statements are run in order until one gives a signal, which is then the value of the list. This is
also where loop control that left a match expression becomes a signal again. Before every statement
there is a look whether the run was cancelled.
-/

namespace ScriptLang

open Eval

/-- The signal of loop control. -/
def LoopControl.signal : LoopControl → Value
  | leave => .breakSignal
  | next => .continueSignal

/-- An evaluation in which failing with loop control is a signal. -/
def Eval.catchLoop (x : Eval Value) : Eval Value := fun host s =>
  match x host s with
  | .error (.loop control) s => .ok control.signal s
  | r => r

/-- Run statements in a scope; `result` is the value if there are none. -/
def Runner.statements (run : Runner) (scope : ScopeId) (result : Value) : List Stmt → Eval Value
  | [] => return result
  | s :: rest => do
    checkCancelled
    let v ← catchLoop (run.stmt s scope)
    if v.isSignal then return v else run.statements scope v rest

/-- Run statements in a new scope. -/
def Runner.block (run : Runner) (b : Block) (scope : ScopeId) : Eval Value := do
  run.statements (← newScope scope) .nil b.body

end ScriptLang
