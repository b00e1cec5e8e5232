import ScriptLang.Proofs.Eval.Still

/-!
# Variants of the evaluator

To say that something never happens in a run we vary what would be done if it did. A *variant* of the
evaluator carries out every task by the rules of the language, with exceptions that it is free to
choose: what becomes of the value that a body ends with, what is done when an iteration of a loop
starts, and what is done instead of certain tasks. The usual variant is the evaluator itself.
-/

namespace ScriptLang

open Eval

/-- What is done otherwise than by the rules of the language. -/
structure Variant where
  /-- What becomes of the value that a body ends with. -/
  finish : Value → Eval Value := fun v => return v.unwrap
  /-- What is done when an iteration of a loop starts, in the scope of its body and with the names of
  the variables of the loop. -/
  enter : ScopeId → List Text → Eval Unit := fun _ _ => return
  /-- The tasks that are not carried out by the rules, each in the state it is met in. -/
  diverts : Task → State → Bool := fun _ _ => false
  /-- What is done instead of them. -/
  instead : Runner := fun _ => throw .stuck

theorem Variant.finish_usual (v : Value) : ({} : Variant).finish v = pure v.unwrap := rfl

theorem Variant.enter_usual (scope : ScopeId) (names : List Text) (host : Host) (s : State) :
    ({} : Variant).enter scope names host s = .ok () s := rfl

namespace Runner

/-- Run the body of a function; `finish` says what becomes of the value it ends with. -/
def invokeWith (finish : Value → Eval Value) (run : Runner) (name : Text) (f : FunctionDecl)
    (result : Option TypeExpr) (scope : ScopeId) (args : List Value) : Eval Value := do
  if args.length ≠ f.params.length then
    fail .arityMismatch (name ++ " expects " ++ Text.ofNat f.params.length ++ " argument(s), got " ++
      Text.ofNat args.length)
  else
    bindParams scope f.params args
    note "call" [("fn", .text name), ("args", .int args.length)]
    let v ← finish (← run.statements scope .nil f.body.body)
    if let some type := result then checkType scope type v
    return v

/-- Call a value. -/
def callValueWith (finish : Value → Eval Value) (run : Runner) (f : Value) (args : List Value) :
    Eval Value := do
  match ← raw f with
  | .function _ decl scope =>
    run.invokeWith finish (Renderer.functionName decl.name) decl decl.result (← newScope scope) args
  | .method _ o t decl =>
    run.invokeWith finish (t.name ++ "." ++ decl.name) decl decl.result (← methodScope o t) args
  | .native _ b => Library.call run b args
  | .collectionMethod _ k c m => Library.callMethod run k c m args
  | .struct t =>
    failWithHint .invalidCallTarget ("struct '" ++ t.name ++ "' is not callable")
      ("construct instances with `new " ++ t.name ++ "(...)`")
  | v => fail .invalidCallTarget (v.typeName ++ " is not callable")

/-- A new instance of a struct. -/
def instantiateWith (finish : Value → Eval Value) (run : Runner) (t : StructType)
    (args : List Value) : Eval Value := do
  let fields := Fields.ofList (t.fields.map fun f => (f.name, Value.nil))
  let o ← change fun s => s.newObject fields (some t)
  let want := (t.ctor.map fun c => c.params.length).getD 0
  if args.length ≠ want then
    fail .invalidConstructorArity (t.name ++ " constructor expects " ++ Text.ofNat want ++
      " argument(s), got " ++ Text.ofNat args.length)
  else
    if let some ctor := t.ctor then
      let scope ← methodScope o t
      note "constructor" [("struct", .text t.name), ("args", .int args.length)]
      let _ ← run.invokeWith finish (t.name ++ ".ctor") ctor none scope args
    return .object o (some t)

/-- Evaluate a construction. -/
def evalNewWith (finish : Value → Eval Value) (run : Runner) (callee : Expr) (args : List Expr)
    (scope : ScopeId) : Eval Value := do
  match collection? callee with
  | some k => Library.construct k (← run.exprs args scope)
  | none =>
    match ← raw (← run.expr callee scope) with
    | .struct t => run.instantiateWith finish t (← run.exprs args scope)
    | v =>
      fail .invalidConstructor ("cannot construct " ++ v.typeName ++ "; `new` needs a struct")

/-- The body of a loop with a condition, in a scope of its own. -/
def whileBodyWith (enter : ScopeId → List Text → Eval Unit) (run : Runner) (body : Block)
    (scope : ScopeId) : Eval Value := do
  let inner ← newScope scope
  enter inner []
  run.statements inner .nil body.body

/-- The iterations of a loop with a condition. -/
def whileTurnsWith (enter : ScopeId → List Text → Eval Unit) (run : Runner) (cond : Expr)
    (body : Block) (scope : ScopeId) : Nat → Eval Value
  | 0 => throw .stuck
  | n + 1 => do
    checkCancelled
    let c ← run.expr cond scope
    if ← located cond.span (run.truthy c) then
      match ← run.whileBodyWith enter body scope with
      | .breakSignal => return .nil
      | .returnSignal v => return .returnSignal v
      | _ => run.whileTurnsWith enter cond body scope n
    else return .nil

/-- The names of the variables of a loop over items. -/
def loopNames (value index : Text) : List Text := if index.isEmpty then [value] else [value, index]

/-- The body of a loop over items, in a scope that binds the variables of the loop. -/
def foreachBodyWith (enter : ScopeId → List Text → Eval Unit) (run : Runner) (value index : Text)
    (items : Items) (body : Block) (scope : ScopeId) (i : Nat) : Eval Value := do
  let inner ← newScope scope
  define inner value (← items.get i)
  unless index.isEmpty do define inner index (.number (Number.ofNat i))
  enter inner (loopNames value index)
  run.statements inner .nil body.body

/-- The iterations of a loop over items. -/
def foreachTurnsWith (enter : ScopeId → List Text → Eval Unit) (run : Runner) (value index : Text)
    (items : Items) (body : Block) (scope : ScopeId) : Nat → Nat → Eval Value
  | 0, _ => return .nil
  | n + 1, i => do
    match ← run.foreachBodyWith enter value index items body scope i with
    | .breakSignal => return .nil
    | .returnSignal v => return .returnSignal v
    | _ => run.foreachTurnsWith enter value index items body scope n (i + 1)

/-- A loop with a condition. -/
def execWhileWith (enter : ScopeId → List Text → Eval Unit) (run : Runner) (span : Span)
    (cond : Expr) (body : Block) (scope : ScopeId) : Eval Value := do
  note "loop start" (loopDetails "while" span)
  thenNote (run.whileTurnsWith enter cond body scope Store.depthLimit) "loop end"
    (loopDetails "while" span)

/-- A loop over the items of a value. -/
def execForeachWith (enter : ScopeId → List Text → Eval Unit) (run : Runner) (span : Span)
    (value index : Text) (iterable : Expr) (body : Block) (scope : ScopeId) : Eval Value := do
  let v ← run.expr iterable scope
  let items ← located iterable.span (run.items v)
  let count : List (Text × LogValue) := [("items", .int items.length)]
  note "loop start" (loopDetails "foreach" span ++ count)
  thenNote (run.foreachTurnsWith enter value index items body scope items.length 0) "loop end"
    (loopDetails "foreach" span)

/-- One task by the rules of the language, apart from the exceptions of a variant. -/
def stepWith (x : Variant) (run : Runner) : Task → Eval Value
  | .expr (.construct span call callee args) scope =>
    located (Expr.construct span call callee args).span (run.evalNewWith x.finish callee args scope)
  | .stmt (.whileLoop span cond body) scope =>
    located span (run.execWhileWith x.enter span cond body scope)
  | .stmt (.foreachLoop span value index iterable body) scope =>
    located span (run.execForeachWith x.enter span value index iterable body scope)
  | .call f args => run.callValueWith x.finish f args
  | task => run.step task

/-- A runner for the tasks that are not diverted. -/
def diverted (x : Variant) (run : Runner) : Runner := fun task host s =>
  if x.diverts task s then x.instead task host s else run task host s

end Runner

/-- A variant of the evaluator, for tasks inside of tasks up to the depth `n`. -/
def evaluatorWith (x : Variant) : Nat → Runner
  | 0 => fun _ => throw .stuck
  | n + 1 => Runner.diverted x ((evaluatorWith x n).stepWith x)

/-- A variant of the evaluator with a depth that is never reached. -/
def evaluateWith (x : Variant) : Runner := evaluatorWith x Store.depthLimit

/-- Run a program in a variant of the evaluator. -/
def Eval.programWith (x : Variant) (b : Block) : Eval Value := do
  x.finish (← (evaluateWith x).statements globalScope .nil b.body)

namespace Runner

theorem stepWith_expr (x : Variant) (run : Runner) {e : Expr} (scope : ScopeId)
    (h : ∀ span span' callee args, e ≠ .construct span span' callee args) :
    run.stepWith x (.expr e scope) = located e.span (run.evalExpr e scope) := by
  cases e with
  | construct => exact absurd rfl (h _ _ _ _)
  | _ => rfl

theorem stepWith_stmt (x : Variant) (run : Runner) {st : Stmt} (scope : ScopeId)
    (hwhile : ∀ span cond body, st ≠ .whileLoop span cond body)
    (hforeach : ∀ span value index iterable body, st ≠ .foreachLoop span value index iterable body) :
    run.stepWith x (.stmt st scope) = located st.span (run.execStmt st scope) := by
  cases st with
  | whileLoop => exact absurd rfl (hwhile _ _ _)
  | foreachLoop => exact absurd rfl (hforeach _ _ _ _ _)
  | _ => rfl

theorem evalNewWith_usual (run : Runner) :
    run.evalNewWith (fun v => return v.unwrap) = run.evalNew := rfl

theorem callValueWith_usual (run : Runner) :
    run.callValueWith (fun v => return v.unwrap) = run.callValue := rfl

theorem whileTurnsWith_usual (run : Runner) (cond : Expr) (body : Block) (scope : ScopeId) (n : Nat) :
    run.whileTurnsWith (fun _ _ => return) cond body scope n = run.whileTurns cond body scope n := by
  induction n with
  | zero => rfl
  | succ n ih =>
    unfold whileTurnsWith whileTurns
    rw [ih]
    rfl

theorem foreachTurnsWith_usual (run : Runner) (value index : Text) (items : Items) (body : Block)
    (scope : ScopeId) (n i : Nat) :
    run.foreachTurnsWith (fun _ _ => return) value index items body scope n i =
      run.foreachTurns value index items body scope n i := by
  induction n generalizing i with
  | zero => rfl
  | succ n ih =>
    unfold foreachTurnsWith foreachTurns foreachBodyWith
    simp only [ih, bind_assoc]
    refine bind_congr fun inner => bind_congr fun item => bind_congr fun _ => ?_
    split
    · rfl
    · exact (bind_assoc _ _ _).trans rfl

theorem execWhileWith_usual (run : Runner) (span : Span) (cond : Expr) (body : Block) (scope : ScopeId) :
    run.execWhileWith (fun _ _ => return) span cond body scope = run.execWhile span cond body scope := by
  unfold execWhileWith
  rw [whileTurnsWith_usual]
  rfl

theorem execForeachWith_usual (run : Runner) (span : Span) (value index : Text) (iterable : Expr)
    (body : Block) (scope : ScopeId) :
    run.execForeachWith (fun _ _ => return) span value index iterable body scope =
      run.execForeach span value index iterable body scope := by
  unfold execForeachWith
  simp only [foreachTurnsWith_usual]
  rfl

theorem stepWith_usual (run : Runner) : run.stepWith {} = run.step := by
  funext task
  unfold stepWith
  split
  · rw [evalNewWith_usual]
    rfl
  · rw [execWhileWith_usual]
    rfl
  · rw [execForeachWith_usual]
    rfl
  · rw [callValueWith_usual]
    rfl
  · rfl

end Runner

/-- The usual variant is the evaluator. -/
theorem evaluatorWith_usual (n : Nat) : evaluatorWith {} n = evaluator n := by
  induction n with
  | zero => rfl
  | succ n ih =>
    unfold evaluatorWith evaluator
    rw [ih, Runner.stepWith_usual]
    rfl

/-- What is done instead of no task at all makes no difference. -/
theorem evaluatorWith_none (instead : Runner) (n : Nat) :
    evaluatorWith { instead } n = evaluator n := by
  rw [← evaluatorWith_usual]
  induction n with
  | zero => rfl
  | succ n ih =>
    unfold evaluatorWith
    rw [ih]
    rfl

theorem Eval.programWith_usual (b : Block) : Eval.programWith {} b = Eval.program b := by
  unfold Eval.programWith evaluateWith
  rw [evaluatorWith_usual]
  rfl

end ScriptLang
