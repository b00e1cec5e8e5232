import ScriptLang.Eval.Expr
import ScriptLang.Eval.Import

/-!
# Statements

What each kind of statement does. The value of a statement is the value of its expression, a signal,
or nil.
-/

namespace ScriptLang

open Eval

/-- The methods of a struct: of methods with the same name the last one counts. -/
def FunctionDecl.distinct (methods : List FunctionDecl) : List FunctionDecl :=
  methods.foldl (fun ms m => ms.filter (fun n => n.name ≠ m.name) ++ [m]) []

/-- The struct that a declaration declares. -/
def StructType.declared (id : Nat) (name : Text) (fields : List Param) (methods : List FunctionDecl)
    (scope : ScopeId) : StructType :=
  { id := id
    name := name
    fields := fields
    methods := FunctionDecl.distinct (methods.filter fun m => m.name ≠ "ctor")
    ctor := methods.reverse.find? fun m => m.name == "ctor"
    scope := scope }

namespace Runner

/-- Work that is followed by a note in the log, however it ends. -/
def thenNote (x : Eval Value) (message : Text) (details : List (Text × LogValue)) : Eval Value :=
  fun host s =>
    let noted (t : State) : State :=
      if host.logging then { t with log := t.log.push { message, details } } else t
    match x host s with
    | .ok v t => .ok v (noted t)
    | .error e t => .error e (noted t)

/-- The details of a note about a loop. -/
def loopDetails (kind : Text) (span : Span) : List (Text × LogValue) :=
  [("kind", .text kind), ("line", .int span.line)]

/-- The iterations of a loop with a condition; `n` bounds their number. -/
def whileTurns (run : Runner) (cond : Expr) (body : Block) (scope : ScopeId) : Nat → Eval Value
  | 0 => throw .stuck
  | n + 1 => do
    checkCancelled
    let c ← run.expr cond scope
    if ← located cond.span (run.truthy c) then
      match ← run.block body scope with
      | .breakSignal => return .nil
      | .returnSignal v => return .returnSignal v
      | _ => run.whileTurns cond body scope n
    else return .nil

/-- A loop with a condition. -/
def execWhile (run : Runner) (span : Span) (cond : Expr) (body : Block) (scope : ScopeId) :
    Eval Value := do
  note "loop start" (loopDetails "while" span)
  thenNote (run.whileTurns cond body scope Store.depthLimit) "loop end" (loopDetails "while" span)

/-- The iterations of a loop over items: `n` of them, from the position `i` on. -/
def foreachTurns (run : Runner) (value index : Text) (items : Items) (body : Block)
    (scope : ScopeId) : Nat → Nat → Eval Value
  | 0, _ => return .nil
  | n + 1, i => do
    let inner ← newScope scope
    define inner value (← items.get i)
    unless index.isEmpty do define inner index (.number (Number.ofNat i))
    match ← run.statements inner .nil body.body with
    | .breakSignal => return .nil
    | .returnSignal v => return .returnSignal v
    | _ => run.foreachTurns value index items body scope n (i + 1)

/-- A loop over the items of a value. -/
def execForeach (run : Runner) (span : Span) (value index : Text) (iterable : Expr) (body : Block)
    (scope : ScopeId) : Eval Value := do
  let v ← run.expr iterable scope
  let items ← located iterable.span (run.items v)
  let count : List (Text × LogValue) := [("items", .int items.length)]
  note "loop start" (loopDetails "foreach" span ++ count)
  thenNote (run.foreachTurns value index items body scope items.length 0) "loop end"
    (loopDetails "foreach" span)

/-- A conditional. -/
def execIf (run : Runner) (s : IfStmt) (scope : ScopeId) : Eval Value := do
  let c ← run.expr s.cond scope
  if ← located s.cond.span (run.truthy c) then run.block s.yes scope
  else match s.no with
    | some (.block b) => run.stmt (.block b) scope
    | some (.chain next) => run.stmt (.cond next) scope
    | none => return .nil

/-- The declaration of a variable or a constant. -/
def execDeclare (run : Runner) (name : Text) (constant : Bool) (type : Option TypeExpr)
    (value : Option Expr) (scope : ScopeId) : Eval Value := do
  let v ← match value with
    | some e => run.expr e scope
    | none => pure Value.nil
  let v ← annotated scope type v
  if constant then declareConstant scope name v else define scope name v
  return .nil

/-- The object of an enumeration: its members are numbered from zero. -/
def enumFields (members : List Text) : Fields :=
  Fields.ofList (members.zipIdx.map fun (m, i) => (m, .number (Number.ofNat i)))

/-- Run a statement. -/
def execStmt (run : Runner) (s : Stmt) (scope : ScopeId) : Eval Value := do
  match s with
  | .expr _ e => run.expr e scope
  | .block b => run.block b scope
  | .declare _ name constant type value => run.execDeclare name constant type value scope
  | .function decl =>
    define scope decl.name (.function (← newNumber) decl scope)
    return .nil
  | .cond i => run.execIf i scope
  | .whileLoop span cond body => run.execWhile span cond body scope
  | .foreachLoop span value index iterable body =>
    run.execForeach span value index iterable body scope
  | .importing _ name wildcard path =>
    run.importInto name wildcard path scope
    return .nil
  | .struct _ name fields methods =>
    let t := StructType.declared (← newNumber) name fields methods scope
    define scope name (.struct t)
    return .nil
  | .enum _ name members =>
    declareConstant scope name (← newObject (enumFields members))
    return .nil
  | .choose _ m => run.evalMatch m scope
  | .breakLoop _ => return .breakSignal
  | .continueLoop _ => return .continueSignal
  | .returning _ none => return .returnSignal .nil
  | .returning _ (some e) => return .returnSignal (← run.expr e scope)

end Runner

end ScriptLang
