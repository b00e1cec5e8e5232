import ScriptLang.Eval.Block
import ScriptLang.Eval.Conform
import ScriptLang.Library.Call

/-!
# Calls

Calling a function binds its parameters in a new scope inside of the scope of its declaration and
runs its body there; the value of the call is the value of the body, or what the body returned. In
methods and constructors the name `this` is a constant that refers to the instance.
-/

namespace ScriptLang

open Eval

namespace Runner

/-- Bind parameters to arguments. -/
def bindParams (scope : ScopeId) (params : List Param) (args : List Value) : Eval Unit :=
  (params.zip args).forM fun (p, v) => do define scope p.name (← annotated scope p.type v)

/-- Run the body of a function in a scope that was made for it. -/
def invoke (run : Runner) (name : Text) (f : FunctionDecl) (result : Option TypeExpr)
    (scope : ScopeId) (args : List Value) : Eval Value := do
  if args.length ≠ f.params.length then
    fail .arityMismatch (name ++ " expects " ++ Text.ofNat f.params.length ++ " argument(s), got " ++
      Text.ofNat args.length)
  else
    bindParams scope f.params args
    note "call" [("fn", .text name), ("args", .int args.length)]
    let v := (← run.statements scope .nil f.body.body).unwrap
    if let some type := result then checkType scope type v
    return v

/-- The scope for the body of a method. -/
def methodScope (o : ObjectId) (t : StructType) : Eval ScopeId := do
  let outer ← newScope t.scope
  let cell ← change fun s => s.newCell (.object o (some t))
  declareConstant outer "this" (.reference (← newNumber) (some cell))
  newScope outer

/-- Call a value. -/
def callValue (run : Runner) (f : Value) (args : List Value) : Eval Value := do
  match ← raw f with
  | .function _ decl scope =>
    run.invoke (Renderer.functionName decl.name) decl decl.result (← newScope scope) args
  | .method _ o t decl =>
    run.invoke (t.name ++ "." ++ decl.name) decl decl.result (← methodScope o t) args
  | .native _ b => Library.call run b args
  | .collectionMethod _ k c m => Library.callMethod run k c m args
  | .struct t =>
    failWithHint .invalidCallTarget ("struct '" ++ t.name ++ "' is not callable")
      ("construct instances with `new " ++ t.name ++ "(...)`")
  | v => fail .invalidCallTarget (v.typeName ++ " is not callable")

/-- A call in a program. The name of a function of the library always means that function, also when
the program binds it. -/
def call? (name : Expr) : Option Builtin :=
  match name with
  | .ident _ n => Builtin.global? n
  | _ => none

/-- Evaluate a call. -/
def evalCall (run : Runner) (callee : Expr) (args : List Expr) (scope : ScopeId) : Eval Value := do
  match call? callee with
  | some f =>
    note "call builtin" [("name", .text f.name), ("args", .int args.length)]
    Library.callByName run f args scope
  | none =>
    let f ← run.expr callee scope
    run.call f (← run.exprs args scope)

/-- A new instance of a struct. Its fields are nil until the constructor fills them in. -/
def instantiate (run : Runner) (t : StructType) (args : List Value) : Eval Value := do
  let fields := Fields.ofList (t.fields.map fun f => (f.name, Value.nil))
  let o ← change fun s => s.newObject fields (some t)
  let want := (t.ctor.map fun c => c.params.length).getD 0
  if args.length ≠ want then
    fail .invalidConstructorArity (t.name ++ " constructor expects " ++ Text.ofNat want ++
      " argument(s), got " ++ Text.ofNat args.length)
  else
    if let some ctor := t.ctor then
      let scope ← methodScope o t
      note "constructor" [("struct", .text t.name), ("args", .int args.length)]
      let _ ← run.invoke (t.name ++ ".ctor") ctor none scope args
    return .object o (some t)

/-- The kind of collection that an expression names as something to construct. -/
def collection? (name : Expr) : Option CollectionKind :=
  match name with
  | .ident _ n => CollectionKind.ofName? n
  | _ => none

/-- Evaluate a construction. -/
def evalNew (run : Runner) (callee : Expr) (args : List Expr) (scope : ScopeId) : Eval Value := do
  match collection? callee with
  | some k => Library.construct k (← run.exprs args scope)
  | none =>
    match ← raw (← run.expr callee scope) with
    | .struct t => run.instantiate t (← run.exprs args scope)
    | v =>
      fail .invalidConstructor ("cannot construct " ++ v.typeName ++ "; `new` needs a struct")

end Runner

end ScriptLang
