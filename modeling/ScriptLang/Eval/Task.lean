import ScriptLang.Eval.State

/-!
# Tasks

Evaluation calls itself in three ways: for an expression, for a statement, and for a call of a value.
Every rule of the language is a function of a *runner* that carries out such tasks, and the evaluator
is the runner that carries them out by these very rules.
-/

namespace ScriptLang

/-- A piece of work of the evaluator. -/
inductive Task where
  /-- Evaluate an expression in a scope. -/
  | expr (e : Expr) (scope : ScopeId)
  /-- Run a statement in a scope. -/
  | stmt (s : Stmt) (scope : ScopeId)
  /-- Call a value with arguments. -/
  | call (f : Value) (args : List Value)

/-- Something that carries out tasks. -/
abbrev Runner := Task → Eval Value

namespace Runner

/-- Evaluate an expression in a scope. -/
def expr (run : Runner) (e : Expr) (scope : ScopeId) : Eval Value := run (.expr e scope)

/-- Run a statement in a scope. -/
def stmt (run : Runner) (s : Stmt) (scope : ScopeId) : Eval Value := run (.stmt s scope)

/-- Call a value with arguments. -/
def call (run : Runner) (f : Value) (args : List Value) : Eval Value := run (.call f args)

/-- Evaluate expressions from left to right. -/
def exprs (run : Runner) (es : List Expr) (scope : ScopeId) : Eval (List Value) :=
  es.mapM fun e => run.expr e scope

end Runner

end ScriptLang
