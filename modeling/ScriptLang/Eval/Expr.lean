import ScriptLang.Eval.Assign
import ScriptLang.Eval.Call

/-!
# Expressions

What each kind of expression evaluates to. Elements of arrays and fields of objects are stored
without the annotation of the variable they were read from.
-/

namespace ScriptLang

open Eval

namespace Runner

/-- The value of a name: what it is bound to, or a function of the library. -/
def evalName (name : Text) (scope : ScopeId) : Eval Value := do
  match (← store).lookup scope name with
  | .ok v => return v
  | .error e =>
    match Builtin.global? name with
    | some f => return .native (← newNumber) f
    | none => fail e.code e.message

/-- An operator before its operand. -/
def evalUnary (run : Runner) (op : UnaryOp) (operand : Expr) (scope : ScopeId) : Eval Value := do
  match op with
  | .delete => run.delete operand scope
  | _ =>
    let v ← run.expr operand scope
    match op with
    | .neg =>
      match ← raw v with
      | .number n => return .number (-n)
      | w => fail .typeMismatch ("unary '-' requires a Number, got " ++ w.typeName)
    | .not => return .boolean (!(← run.truthy v))
    | .typeof => return (← store).typeOf v
    | _ => fail .typeMismatch ("unknown prefix operator '" ++ op.spelling ++ "'")

/-- An operator between its operands. The right operand of `&&`, `||` and `??` is evaluated only if
the left one does not decide. -/
def evalBinary (run : Runner) (op : BinaryOp) (left right : Expr) (scope : ScopeId) :
    Eval Value := do
  let l ← run.expr left scope
  match op with
  | .and => do
    if ← run.truthy l then return .boolean (← run.truthy (← run.expr right scope))
    else return .boolean false
  | .or => do
    if ← run.truthy l then return .boolean true
    else return .boolean (← run.truthy (← run.expr right scope))
  | .orElse => do
    if ← isNil l then run.expr right scope else return l
  | _ => run.operate op l (← run.expr right scope)

/-- The numbers from `n` on in steps of one as long as they are below `last`, after those in `done`;
`fuel` bounds their number. -/
def countUp (last : Float) : Nat → Float → Array Value → Option (Array Value)
  | 0, _, _ => none
  | fuel + 1, n, done =>
    if n < last then countUp last fuel (n + 1) (done.push (.number n)) else some done

/-- The numbers from one up to, not including, another. -/
def evalRange (run : Runner) (first last : Expr) (scope : ScopeId) : Eval Value := do
  let lo ← run.expr first scope
  let hi ← run.expr last scope
  let a ← raw lo
  let b ← raw hi
  match a, b with
  | .number x, .number y => grownArray (← orStuck (countUp y Library.progressionLimit x #[])).toList
  | _, _ => operandFault ".." a b

/-- A choice: the first arm whose pattern equals the subject is carried out. -/
def evalArms (run : Runner) (subject : Value) (scope : ScopeId) : List MatchArm → Eval Value
  | [] => return .nil
  | arm :: rest => do
    let taken ← match arm.pattern with
      | none => pure true
      | some p =>
        let pattern ← run.expr p scope
        orStuck ((← store).equal? subject pattern)
    if taken then
      match arm.body with
      | .block b => run.block b scope
      | .value span e => run.stmt (.expr span e) scope
    else run.evalArms subject scope rest

/-- A choice; its value can be a signal. -/
def evalMatch (run : Runner) (m : MatchExpr) (scope : ScopeId) : Eval Value := do
  run.evalArms (← run.expr m.subject scope) scope m.arms

/-- The value of a choice as an expression: loop control travels on as a failure. -/
def matchValue (v : Value) : Eval Value :=
  match v with
  | .breakSignal => throw (.loop .leave)
  | .continueSignal => throw (.loop .next)
  | v => return v.unwrap

/-- Evaluate an expression. -/
def evalExpr (run : Runner) (e : Expr) (scope : ScopeId) : Eval Value := do
  match e with
  | .number _ n => return .number n
  | .string _ t => return .text t
  | .bool _ b => return .boolean b
  | .nil _ => return .nil
  | .ident _ name => evalName name scope
  | .array _ es => newArray (← es.mapM fun e => return (← run.expr e scope).plain)
  | .object _ es =>
    newObject (Fields.ofList (← es.mapM fun (k, e) => return (k, (← run.expr e scope).plain)))
  | .unary _ op e => run.evalUnary op e scope
  | .binary _ op l r => run.evalBinary op l r scope
  | .assign _ op target value => run.assign op target value scope
  | .step _ op target => run.stepPlace op target scope
  | .range _ a b => run.evalRange a b scope
  | .member _ o p => getMember (← run.expr o scope) p
  | .index _ o i =>
    let object ← run.expr o scope
    getIndex object (← run.expr i scope)
  | .call _ callee args => run.evalCall callee args scope
  | .construct _ _ callee args => run.evalNew callee args scope
  | .function decl => return .function (← newNumber) decl scope
  | .choose m => matchValue (← run.evalMatch m scope)

end Runner

end ScriptLang
