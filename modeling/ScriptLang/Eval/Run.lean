import ScriptLang.Eval.Stmt

/-!
# The evaluator

The evaluator carries out every task by the rules of the language, with itself as the runner for the
tasks that come up on the way. A bound on the depth of tasks inside of tasks makes it total; the bound
that programs are run with is beyond what any machine can reach.

An interpreter is a host together with the state that its runs leave behind; the scope of the whole
program is the first scope of the store.
-/

namespace ScriptLang

open Eval

/-- The rules of the language: one task, with a runner for the tasks inside of it. A fault that comes
out of an expression or a statement without a place gets its span. -/
def Runner.step (run : Runner) : Task → Eval Value
  | .expr e scope => located e.span (run.evalExpr e scope)
  | .stmt s scope => located s.span (run.execStmt s scope)
  | .call f args => run.callValue f args

/-- The evaluator, for tasks inside of tasks up to the depth `n`. -/
def evaluator : Nat → Runner
  | 0 => fun _ => throw .stuck
  | n + 1 => (evaluator n).step

/-- The evaluator with a depth that is never reached. -/
def evaluate : Runner := evaluator Store.depthLimit

/-- The scope of the whole program. -/
def globalScope : ScopeId := 0

/-- Run a program: the value is that of its last statement, or what it returned. -/
def Eval.program (b : Block) : Eval Value :=
  return (← evaluate.statements globalScope .nil b.body).unwrap

/-- What is reported when a failure leaves a program. -/
def Failure.report : Failure → Text
  | .fault f => f.diagnostic.pretty ++ "\n"
  | e => "error: " ++ e.message ++ "\n"

/-- An interpreter. -/
structure Interpreter where
  /-- What the surroundings decide. -/
  host : Host
  /-- What the runs so far left behind. -/
  state : State

namespace Interpreter

/-- A new interpreter; `dir` is the directory for relative imports, and `clock` the time. -/
def new (host : Host) (files : Files) (dir : Text) (clock : Nat) : Interpreter :=
  { host := host
    state :=
      { store := { scopes := #[{}] }
        dir := dir
        files := files
        clock := clock } }

/-- Carry out an evaluation. -/
def perform {α : Type} (i : Interpreter) (x : Eval α) : Except Failure α × Interpreter :=
  match x i.host i.state with
  | .ok a s => (.ok a, { i with state := s })
  | .error e s => (.error e, { i with state := s })

/-- The interpreter after a failure was reported, if reports are wanted. Nobody is left to report a
crash. -/
def reporting (i : Interpreter) (e : Failure) : Interpreter :=
  if i.host.echo && e != .crash then { i with state := { i.state with reports := i.state.reports ++ e.report } }
  else i

/-- Run a program. -/
def run (i : Interpreter) (b : Block) : Except Failure Value × Interpreter :=
  match i.perform (Eval.program b) with
  | (.ok v, i) => (.ok v, i)
  | (.error e, i) => (.error e, i.reporting e)

/-- The text of a value. A run that is over cannot be cancelled any more, and neither can this. -/
def stringify (i : Interpreter) (v : Value) : Except Failure Text × Interpreter :=
  let free : Interpreter := { i with host := { i.host with cancelAfter := none } }
  let (text, j) := free.perform (evaluate.stringify v)
  (text, { j with host := i.host })

/-- Everything that was written. -/
def output (i : Interpreter) : Text := i.state.writes.toList.flatten

/-- The names in the scope of the whole program, in ascending order. -/
def globalNames (i : Interpreter) : List Text := i.state.store.names globalScope

end Interpreter

end ScriptLang
