import ScriptLang.Eval.Stmt
import ScriptLang.Proofs.Library.Relaying

/-!
# Where faults come up

All that is done about a task apart from the tasks inside of it makes faults without a place only, and
passes on what these tasks fail with (`Relays`). A fault gets its place from the node that it comes up at:
`Runner.Raises` says that a fault comes up in a task and at which of its nodes. That is the expression or the
statement itself, or the condition of a conditional or a loop when it is tested, or what a loop goes over
when its items are looked for, since none of these is part of the evaluation of the condition.

A task fails with the fault that comes up in it, in its place (`Raises.fails`). Conversely a task that fails
with a fault which no task inside of it fails with is one in which that fault comes up (`raised_step`).
-/

namespace ScriptLang

open Eval

namespace Eval.Relays

variable {host : Host} {P : Failure → Prop} {run : Runner}

/-! ### Places -/

theorem retype (scope : ScopeId) (old v : Value) : Relays host P (Eval.retype scope old v) := by
  unfold Eval.retype
  split <;> exact annotated v scope _

theorem assignName (scope : ScopeId) (name : Text) (v : Value) :
    Relays host P (Eval.assignName scope name v) := by
  unfold Eval.assignName
  refine bind store fun _ => bind store fun _ => ?_
  split
  · exact naming _
  · refine bind (lookup name scope) fun old => ?_
    split
    · exact bind store fun _ => bind (retype scope _ v) fun _ => update _
    · exact bind (retype scope _ v) fun _ => naming _

theorem readPlace (place : Place) : Relays host P place.read := by
  cases place with
  | name n scope => exact lookup n scope
  | member o p => exact getMember o p
  | element o i => exact getIndex o i

theorem writePlace (place : Place) (v : Value) : Relays host P (place.write v) := by
  cases place with
  | name n scope => exact assignName scope n v
  | member o p => exact setMember o v p
  | element o i => exact setIndex o v i

/-! ### Calls -/

theorem bindParams (scope : ScopeId) (params : List Param) (args : List Value) :
    Relays host P (Runner.bindParams scope params args) :=
  forM _ fun _ => bind (annotated _ _ _) fun _ => naming _

theorem methodScope (o : ObjectId) (t : StructType) : Relays host P (Runner.methodScope o t) :=
  bind (newScope _) fun _ => bind (change _) fun _ => bind newNumber fun _ =>
    bind (naming _) fun _ => newScope _

theorem evalName (name : Text) (scope : ScopeId) : Relays host P (Runner.evalName name scope) := by
  unfold Runner.evalName
  refine bind store fun _ => ?_
  split
  · exact pure _
  · split
    · exact map newNumber
    · exact fail _ _

theorem matchValue (v : Value) : Relays host P (Runner.matchValue v) := by
  unfold Runner.matchValue
  split
  · exact throw trivial
  · exact throw trivial
  · exact pure _

theorem importModule (name : Text) (scope : ScopeId) : Relays host P (Eval.importModule name scope) := by
  unfold Eval.importModule
  split
  · exact fail _ _
  · refine bind read fun _ => ?_
    split
    · exact failWithHint _ _ _
    · exact bind (note _ _) fun _ => bind (loadModule _) fun _ => naming _

theorem resolveImport (path : Text) : Relays host P (Eval.resolveImport path) := by
  unfold Eval.resolveImport
  refine bind get fun st => ?_
  dsimp only
  split
  · exact pure _
  · exact fail _ _

theorem loadFile (path : Text) : Relays host P (Eval.loadFile path) := by
  unfold Eval.loadFile
  refine bind get fun st => ?_
  split
  · exact bind (modifyGet _) fun _ => bind (note _ _) fun _ => pure _
  · split
    · exact fail _ _
    · split
      · exact fail _ _
      · exact bind read fun _ => bind (modifyGet _) fun _ => pure _

theorem importName (source target : ScopeId) (name : Text) :
    Relays host P (Eval.importName source target name) :=
  bind (lookup name source) fun _ => bind (naming _) fun _ => naming _

section

variable (hrun : ∀ task, Relays host P (run task)) (scope : ScopeId)

include hrun

theorem place (e : Expr) : Relays host P (run.place e scope) := by
  unfold Runner.place
  split
  · exact pure _
  · exact map (hrun _)
  · exact bind (hrun _) fun _ => map (hrun _)
  · exact fail _ _

theorem assign (op : AssignOp) (target value : Expr) : Relays host P (run.assign op target value scope) := by
  unfold Runner.assign
  refine bind (place hrun scope target) fun place => ?_
  have stored : Relays host P (do
      let v ← run.expr value scope
      place.write v
      return v) :=
    bind (hrun _) fun v => bind (writePlace place v) fun _ => pure v
  split
  · exact stored
  · refine bind (readPlace place) fun old => bind (ask (asks_isNil old)) fun b => ?_
    split
    · exact stored
    · exact pure _
  · split
    · exact fail _ _
    · exact bind (readPlace place) fun old => bind (hrun _) fun operand =>
        bind (operate old operand hrun _) fun v => bind (writePlace place v) fun _ => pure v

theorem stepPlace (op : StepOp) (target : Expr) : Relays host P (run.stepPlace op target scope) := by
  unfold Runner.stepPlace
  refine bind (place hrun scope target) fun place => bind (readPlace place) fun old => ?_
  refine bind (raw old) fun v => ?_
  split
  · exact bind (writePlace place _) fun _ => pure _
  · exact fail _ _

theorem delete (e : Expr) : Relays host P (run.delete e scope) := by
  unfold Runner.delete
  split
  · refine bind store fun st => ?_
    split
    · exact fail _ _
    · exact naming _
  · exact bind (hrun _) fun o => deleteField o _
  · exact bind (hrun _) fun o => bind (hrun _) fun i => deleteIndex o i
  · exact fail _ _

theorem statements (result : Value) (ss : List Stmt) : Relays host P (run.statements scope result ss) := by
  induction ss generalizing result with
  | nil => exact pure _
  | cons st rest ih =>
    unfold Runner.statements
    refine bind checkCancelled fun _ => bind (catchLoop (hrun _)) fun v => ?_
    split
    · exact pure _
    · exact ih v

theorem block (b : Block) : Relays host P (run.block b scope) :=
  bind (newScope scope) fun inner => statements hrun inner .nil b.body

theorem exprs (es : List Expr) : Relays host P (run.exprs es scope) := mapM es fun _ => hrun _

theorem invoke (name : Text) (f : FunctionDecl) (result : Option TypeExpr) (args : List Value) :
    Relays host P (run.invoke name f result scope args) := by
  unfold Runner.invoke
  split
  · exact fail _ _
  · refine bind (bindParams scope _ _) fun _ => bind (note _ _) fun _ => ?_
    refine bind (statements hrun scope .nil f.body.body) fun v => ?_
    dsimp only
    split
    · exact bind (ask (asks_checkType _ _ _)) fun _ => pure _
    · exact pure _

omit hrun in
theorem instantiate (hrun : ∀ task, Relays host P (run task)) (t : StructType) (args : List Value) :
    Relays host P (run.instantiate t args) := by
  unfold Runner.instantiate
  refine bind (change _) fun o => ?_
  dsimp only
  split
  · exact fail _ _
  · split
    · exact bind (methodScope _ _) fun inner => bind (note _ _) fun _ =>
        bind (invoke hrun inner _ _ _ _) fun _ => pure _
    · exact pure _

omit hrun in
theorem callValue (hrun : ∀ task, Relays host P (run task)) (f : Value) (args : List Value) :
    Relays host P (run.callValue f args) := by
  unfold Runner.callValue
  refine bind (raw f) fun w => ?_
  split
  · exact bind (newScope _) fun inner => invoke hrun inner _ _ _ _
  · exact bind (methodScope _ _) fun inner => invoke hrun inner _ _ _ _
  · exact callLibrary hrun _ _
  · exact callMethod hrun _ _ _ _
  · exact failWithHint _ _ _
  · exact fail _ _

theorem callByName (f : Builtin) (args : List Expr) :
    Relays host P (Library.callByName run f args scope) := by
  unfold Library.callByName
  refine bind (ask (Library.asks_checkArity f _)) fun _ => ?_
  split
  · exact bind store fun _ => bind (ask (.named _)) fun c => refTo c
  · exact bind (hrun _) fun v => refNew v
  · exact bind (exprs hrun scope args) fun _ => perform _ hrun f

theorem evalCall (callee : Expr) (args : List Expr) : Relays host P (run.evalCall callee args scope) := by
  unfold Runner.evalCall
  split
  · exact bind (note _ _) fun _ => callByName hrun scope _ args
  · exact bind (hrun _) fun _ => bind (exprs hrun scope args) fun _ => hrun _

theorem evalNew (callee : Expr) (args : List Expr) : Relays host P (run.evalNew callee args scope) := by
  unfold Runner.evalNew
  split
  · exact bind (exprs hrun scope args) fun vs => construct _ vs
  · refine bind (hrun _) fun v => bind (raw v) fun w => ?_
    split
    · exact bind (exprs hrun scope args) fun vs => instantiate hrun _ vs
    · exact fail _ _

/-! ### Expressions -/

theorem evalUnary (op : UnaryOp) (operand : Expr) : Relays host P (run.evalUnary op operand scope) := by
  unfold Runner.evalUnary
  split
  · exact delete hrun scope operand
  · refine bind (hrun _) fun v => ?_
    split
    · refine bind (raw v) fun w => ?_
      split
      · exact pure _
      · exact fail _ _
    · exact map (truthy v hrun)
    · exact bind store fun _ => pure _
    · exact fail _ _

theorem evalBinary (op : BinaryOp) (left right : Expr) :
    Relays host P (run.evalBinary op left right scope) := by
  unfold Runner.evalBinary
  refine bind (hrun _) fun l => ?_
  have decided : Relays host P (do return Value.boolean (← run.truthy (← run.expr right scope))) :=
    bind (hrun _) fun v => map (truthy v hrun)
  split
  · refine bind (truthy l hrun) fun b => ?_
    split
    · exact decided
    · exact pure _
  · refine bind (truthy l hrun) fun b => ?_
    split
    · exact pure _
    · exact decided
  · refine bind (ask (asks_isNil l)) fun b => ?_
    split
    · exact hrun _
    · exact pure _
  · exact bind (hrun _) fun r => operate l r hrun op

theorem evalRange (first last : Expr) : Relays host P (run.evalRange first last scope) := by
  rw [Runner.evalRange_eq]
  refine bind (hrun _) fun lo => bind (hrun _) fun hi => bind (raw lo) fun a => bind (raw hi) fun b => ?_
  split
  · exact progression _ _ 1
  · exact fail _ _

theorem evalArms (subject : Value) (arms : List MatchArm) :
    Relays host P (run.evalArms subject scope arms) := by
  induction arms with
  | nil => exact pure _
  | cons arm rest ih =>
    unfold Runner.evalArms
    dsimp only
    split
    case' h_1 => refine bind (pure _) fun taken => ?_
    case' h_2 => refine bind (hrun _) fun v => bind store fun _ => bind (orStuck _) fun taken => ?_
    -- what is done once it is known whether the arm is taken
    all_goals
      split
      · split
        · exact block hrun scope _
        · exact hrun _
      · exact ih

theorem evalMatch (m : MatchExpr) : Relays host P (run.evalMatch m scope) :=
  bind (hrun _) fun v => evalArms hrun scope v m.arms

/-- What is done about an expression makes no fault with a place. -/
theorem evalExpr (e : Expr) : Relays host P (run.evalExpr e scope) := by
  unfold Runner.evalExpr
  cases e with
  | number | string | bool | nil => exact pure _
  | ident _ name => exact evalName name scope
  | array _ es => exact bind (mapM _ fun _ => map (hrun _)) fun _ => newArray _
  | object _ es => exact bind (mapM _ fun _ => map (hrun _)) fun _ => newObject _
  | unary _ op e => exact evalUnary hrun scope op e
  | binary _ op l r => exact evalBinary hrun scope op l r
  | assign _ op target value => exact assign hrun scope op target value
  | step _ op target => exact stepPlace hrun scope op target
  | range _ a b => exact evalRange hrun scope a b
  | member _ o p => exact bind (hrun _) fun o => getMember o p
  | index _ o i => exact bind (hrun _) fun o => bind (hrun _) fun i => getIndex o i
  | call _ callee args => exact evalCall hrun scope callee args
  | construct _ _ callee args => exact evalNew hrun scope callee args
  | function decl => exact map newNumber
  | choose m => exact bind (evalMatch hrun scope m) fun v => matchValue v

/-! ### Statements -/

theorem execDeclare (name : Text) (constant : Bool) (type : Option TypeExpr) (value : Option Expr) :
    Relays host P (run.execDeclare name constant type value scope) := by
  have declared (v : Value) : Relays host P (do
      let v ← Eval.annotated scope type v
      if constant then declareConstant scope name v else define scope name v
      return Value.nil) := by
    refine bind (annotated v scope type) fun w => ?_
    split <;> exact bind (naming _) fun _ => pure _
  unfold Runner.execDeclare
  cases value with
  | none => exact declared .nil
  | some e => exact bind (hrun _) fun v => declared v

theorem declarations (wanted : Option Text) (ss : List Stmt) :
    Relays host P (run.declarations scope wanted ss) := by
  induction ss with
  | nil => exact pure _
  | cons st rest ih =>
    unfold Runner.declarations
    dsimp only
    split
    · refine bind (hrun _) fun _ => ?_
      cases wanted with
      | none => exact ih
      | some name => exact bind store fun _ => ite (pure _) ih
    · exact ih

theorem importInto (name : Text) (wildcard : Bool) (path : Text) :
    Relays host P (run.importInto name wildcard path scope) := by
  unfold Runner.importInto
  split
  · exact importModule name scope
  · unfold Runner.importFile
    refine bind (resolveImport path) fun file => bind get fun st => ?_
    split
    · exact failWithHint _ _ _
    · refine bind (loadFile file) fun b => bind (note _ _) fun _ => duringImport file ?_
      refine bind (change _) fun inner => bind (declarations hrun inner _ b.body) fun _ => ?_
      split
      · refine bind store fun _ => bind (forIn _ fun n => ?_) fun _ => pure _
        exact bind (importName inner scope n) fun _ => pure _
      · refine bind store fun _ => ?_
        split
        · exact importName inner scope name
        · exact fail _ _

theorem foreachTurns (value index : Text) (items : Items) (body : Block) (n i : Nat) :
    Relays host P (run.foreachTurns value index items body scope n i) := by
  induction n generalizing i with
  | zero => exact pure _
  | succ n ih =>
    unfold Runner.foreachTurns
    refine bind (newScope scope) fun inner => bind (getItem items i) fun v => bind (naming _) fun _ => ?_
    split
    case' isFalse => refine bind (naming _) fun _ => ?_
    -- the turn itself, with the variables bound
    all_goals
      refine bind (statements hrun inner .nil body.body) fun v => ?_
      split
      · exact pure _
      · exact pure _
      · exact ih (i + 1)

end

end Eval.Relays

/-! ### Evaluations that fail -/

/-- A fault that has its place keeps it. -/
theorem Fault.located_of_span {f : Fault} (h : f.span ≠ none) (span : Span) : f.located span = f := by
  obtain ⟨code, message, span', hint⟩ := f
  cases span' with
  | none => exact absurd rfl h
  | some place => rfl

theorem Fault.span_located (f : Fault) (span : Span) : (f.located span).span ≠ none :=
  Option.some_ne_none _

namespace Eval

variable {α β : Type} {x : Eval α} {k : α → Eval β} {host : Host} {s u : State} {a : α} {e : Failure}
  {f g : Fault} {span : Span}

/-- Whether an evaluation fails in a certain way. -/
def Fails (x : Eval α) (host : Host) (s : State) (e : Failure) : Prop := ∃ t, x host s = .error e t

theorem fails_iff : Fails x host s e ↔ (Ending.of (x host s)).failure = some e := by
  unfold Fails
  cases x host s with
  | ok a t => exact iff_of_false (by rintro ⟨_, ⟨⟩⟩) (by rintro ⟨⟩)
  | error e' t =>
    refine ⟨?_, fun h => ⟨t, by rw [Option.some.inj h]⟩⟩
    rintro ⟨_, ⟨⟩⟩
    rfl

namespace Fails

theorem bind (h : Fails x host s e) : Fails (x >>= k) host s e := by
  obtain ⟨t, ht⟩ := h
  exact ⟨t, by rw [bind_apply, ht]⟩

theorem bind_of_ok (h : Fails (k a) host u e) (hx : x host s = .ok a u) : Fails (x >>= k) host s e := by
  unfold Fails
  rwa [Eval.bind_of_ok hx]

/-- A first or a second evaluation failed. -/
theorem of_bind (h : Fails (x >>= k) host s e) :
    Fails x host s e ∨ ∃ a u, x host s = .ok a u ∧ Fails (k a) host u e := by
  obtain ⟨t, ht⟩ := h
  rw [bind_apply] at ht
  cases hx : x host s with
  | ok a u =>
    rw [hx] at ht
    exact .inr ⟨a, u, rfl, t, ht⟩
  | error e u =>
    rw [hx] at ht
    cases ht
    exact .inl ⟨t, hx⟩

theorem located (h : Fails x host s e) : Fails (Eval.located span x) host s (e.located span) := by
  obtain ⟨t, ht⟩ := h
  refine ⟨t, ?_⟩
  unfold Eval.located
  rw [ht]

/-- A fault that comes out of a node got its place there or had it already. -/
theorem of_located (h : Fails (Eval.located span x) host s (.fault f)) :
    (∃ g, g.span = none ∧ f = g.located span ∧ Fails x host s (.fault g)) ∨ Fails x host s (.fault f) := by
  obtain ⟨t, ht⟩ := h
  unfold Eval.located at ht
  cases hx : x host s with
  | ok a u =>
    rw [hx] at ht
    cases ht
  | error e u =>
    rw [hx] at ht
    cases e with
    | fault g =>
      cases ht
      by_cases hg : g.span = none
      · exact .inl ⟨g, hg, rfl, t, hx⟩
      · exact .inr ⟨t, by rw [Fault.located_of_span hg]; exact hx⟩
    | _ => cases ht

theorem thenNote {x : Eval Value} {message : Text} {details : List (Text × LogValue)}
    (h : Fails x host s e) : Fails (Runner.thenNote x message details) host s e := by
  obtain ⟨t, ht⟩ := h
  unfold Fails Runner.thenNote
  rw [ht]
  exact ⟨_, rfl⟩

theorem of_thenNote {x : Eval Value} {message : Text} {details : List (Text × LogValue)}
    (h : Fails (Runner.thenNote x message details) host s e) : Fails x host s e := by
  obtain ⟨t, ht⟩ := h
  unfold Runner.thenNote at ht
  cases hx : x host s with
  | ok a u =>
    rw [hx] at ht
    cases ht
  | error e u =>
    rw [hx] at ht
    cases ht
    exact ⟨u, hx⟩

end Fails

/-- Faults of an evaluation whose faults have their place have a place. -/
theorem Placed.span_ne_none (hx : Placed x) (h : Fails x host s (.fault f)) : f.span ≠ none := by
  intro hf
  obtain ⟨t, ht⟩ := h
  have hplaced := Failure.fault.inj (hx ht {})
  rw [← hplaced] at hf
  exact f.span_located _ hf

/-- What has no place yet came up after the part of an evaluation whose faults have their place. -/
theorem Placed.of_bind (hx : Placed x) (hf : f.span = none) (h : Fails (x >>= k) host s (.fault f)) :
    ∃ a u, x host s = .ok a u ∧ Fails (k a) host u (.fault f) :=
  h.of_bind.resolve_left fun h => hx.span_ne_none h hf

/-- A fault with a place does not come out of an evaluation that passes on other failures only. -/
theorem Relays.not_fails (hx : Relays host (· ≠ .fault f) x) (hf : f.span ≠ none) :
    ¬ Fails x host s (.fault f) := by
  rintro ⟨t, ht⟩
  exact (hx ht).elim hf fun h => h rfl

end Eval

/-! ### Faults that come up at nodes -/

namespace Runner

/-- Whether the value of an expression is truthy. -/
def test (run : Runner) (cond : Expr) (scope : ScopeId) : Eval Bool := do
  run.truthy (← run.expr cond scope)

/-- What a loop over the value of an expression visits. -/
def visited (run : Runner) (iterable : Expr) (scope : ScopeId) : Eval Items := do
  run.items (← run.expr iterable scope)

/-- One iteration of a loop with a condition: the value of the loop, unless it goes on. -/
def whileTurn (run : Runner) (cond : Expr) (body : Block) (scope : ScopeId) : Eval (Option Value) := do
  checkCancelled
  let c ← run.expr cond scope
  if ← located cond.span (run.truthy c) then
    match ← run.block body scope with
    | .breakSignal => return some .nil
    | .returnSignal v => return some (.returnSignal v)
    | _ => return none
  else return some .nil

theorem whileTurns_succ (run : Runner) (cond : Expr) (body : Block) (scope : ScopeId) (n : Nat) :
    run.whileTurns cond body scope (n + 1) = (do
      match ← run.whileTurn cond body scope with
      | some v => return v
      | none => run.whileTurns cond body scope n) := by
  rw [whileTurns]
  unfold whileTurn
  simp only [bind_assoc]
  refine bind_congr fun _ => bind_congr fun c => bind_congr fun b => ?_
  cases b with
  | false => rfl
  | true =>
    simp only [if_true, bind_assoc]
    refine bind_congr fun v => ?_
    cases v <;> simp only [pure_bind]

/-- A number of iterations of a loop with a condition, after each of which it goes on. -/
inductive Turns (run : Runner) (cond : Expr) (body : Block) (scope : ScopeId) (host : Host) :
    Nat → State → State → Prop
  /-- No iteration. -/
  | none (s) : Turns run cond body scope host 0 s s
  /-- One iteration and then others. -/
  | more {n s t u} : run.whileTurn cond body scope host s = .ok none t →
    Turns run cond body scope host n t u → Turns run cond body scope host (n + 1) s u

/-- Whether a fault comes up in a task, at the node with a certain span: in the expression or the statement
itself, in the test of the condition of a conditional or a loop, or in finding what a loop visits. -/
inductive Raises (run : Runner) (host : Host) (g : Fault) : Task → State → Span → Prop
  /-- In an expression. -/
  | expr {e scope s} : Fails (run.evalExpr e scope) host s (.fault g) →
    Raises run host g (.expr e scope) s e.span
  /-- In a statement. -/
  | stmt {st scope s} : Fails (run.execStmt st scope) host s (.fault g) →
    Raises run host g (.stmt st scope) s st.span
  /-- In the test of a conditional. -/
  | cond {i scope s} : Fails (run.test i.cond scope) host s (.fault g) →
    Raises run host g (.stmt (.cond i) scope) s i.cond.span
  /-- In the test before an iteration of a loop. -/
  | loop {span cond body scope n s t u} : n < Store.depthLimit →
    note "loop start" (loopDetails "while" span) host s = .ok () t →
    run.Turns cond body scope host n t u →
    Fails (do checkCancelled; run.test cond scope) host u (.fault g) →
    Raises run host g (.stmt (.whileLoop span cond body) scope) s cond.span
  /-- In finding what a loop visits. -/
  | iterable {span value index e body scope s} : Fails (run.visited e scope) host s (.fault g) →
    Raises run host g (.stmt (.foreachLoop span value index e body) scope) s e.span

/-! ### What comes up is what a task fails with -/

variable {run : Runner} {cond : Expr} {body : Block} {scope : ScopeId} {host : Host} {n m : Nat}
  {s t : State} {f g : Fault}

/-- A condition that is tested fails with the fault that comes up in the test, at its own place. -/
theorem fails_test {β : Type} {k : Bool → Eval β} (hg : g.span = none)
    (h : Fails ((evaluator n).test cond scope) host s (.fault g)) :
    Fails (do
      let c ← (evaluator n).expr cond scope
      let b ← located cond.span ((evaluator n).truthy c)
      k b) host s (.fault (g.located cond.span)) := by
  obtain ⟨c, u, hc, hfails⟩ := (Placed.expr n cond scope).of_bind hg h
  exact .bind_of_ok (.bind hfails.located) hc

theorem fails_whileTurns (hg : g.span = none) (hturns : (evaluator n).Turns cond body scope host m s t)
    (h : Fails (do checkCancelled; (evaluator n).test cond scope) host t (.fault g)) {k : Nat} (hk : m < k) :
    Fails ((evaluator n).whileTurns cond body scope k) host s (.fault (g.located cond.span)) := by
  obtain ⟨k, rfl⟩ := Nat.exists_eq_add_one_of_ne_zero (Nat.ne_zero_of_lt hk)
  rw [whileTurns_succ]
  induction hturns generalizing k with
  | none s =>
    obtain ⟨_, u, hu, hfails⟩ := Placed.checkCancelled.of_bind hg h
    exact .bind (.bind_of_ok (fails_test hg hfails) hu)
  | more hturn _ ih =>
    obtain ⟨k, rfl⟩ := Nat.exists_eq_add_one_of_ne_zero (Nat.ne_zero_of_lt (Nat.lt_of_succ_lt_succ hk))
    refine .bind_of_ok ?_ hturn
    rw [whileTurns_succ]
    exact ih h k (Nat.lt_of_succ_lt_succ hk)

/-- A task fails with the fault that comes up in it, which got its place at the node. -/
theorem Raises.fails {task : Task} {span : Span} (h : (evaluator n).Raises host g task s span)
    (hg : g.span = none) : Fails (evaluator (n + 1) task) host s (.fault (g.located span)) := by
  -- the place is kept on the way out of the statement around a condition
  have kept {st : Stmt} {scope : ScopeId} {span : Span}
      (h : Fails ((evaluator n).execStmt st scope) host s (.fault (g.located span))) :
      Fails (evaluator (n + 1) (.stmt st scope)) host s (.fault (g.located span)) := by
    rw [← Fault.located_of_span (g.span_located span) st.span]
    exact h.located
  cases h with
  | expr h => exact h.located
  | stmt h => exact h.located
  | cond h => exact kept (fails_test hg h)
  | loop hn hnote hturns h =>
    exact kept (.bind_of_ok (.thenNote (fails_whileTurns hg hturns h hn)) hnote)
  | iterable h =>
    obtain ⟨v, u, hv, hfails⟩ := (Placed.expr n _ _).of_bind hg h
    exact kept (.bind_of_ok (.bind hfails.located) hv)

/-! ### What a task fails with has come up -/

section

variable (hrun : ∀ task, Relays host (· ≠ .fault f) (run task)) (hf : f.span ≠ none)

include hrun hf

/-- A condition that fails with a fault fails in the test. -/
theorem raised_test {β : Type} {k : Bool → Eval β} (hk : ∀ b, Relays host (· ≠ .fault f) (k b))
    (h : Fails (do
      let c ← run.expr cond scope
      let b ← located cond.span (run.truthy c)
      k b) host s (.fault f)) :
    ∃ g, g.span = none ∧ f = g.located cond.span ∧ Fails (run.test cond scope) host s (.fault g) := by
  obtain hc | ⟨c, u, hc, h⟩ := h.of_bind
  · exact absurd hc ((hrun _).not_fails hf)
  obtain hb | ⟨b, v, -, h⟩ := h.of_bind
  · obtain ⟨g, hg, rfl, htruthy⟩ | htruthy := hb.of_located
    · exact ⟨g, hg, rfl, htruthy.bind_of_ok hc⟩
    · exact absurd htruthy ((Relays.truthy c hrun).not_fails hf)
  · exact absurd h ((hk b).not_fails hf)

theorem raised_whileTurns {k : Nat} (h : Fails (run.whileTurns cond body scope k) host s (.fault f)) :
    ∃ g m t, g.span = none ∧ f = g.located cond.span ∧ m < k ∧ run.Turns cond body scope host m s t ∧
      Fails (do checkCancelled; run.test cond scope) host t (.fault g) := by
  induction k generalizing s with
  | zero =>
    obtain ⟨t, ht⟩ := h
    cases ht
  | succ k ih =>
    rw [whileTurns_succ] at h
    obtain hturn | ⟨v, t, hv, hrest⟩ := h.of_bind
    · obtain hcheck | ⟨_, t, hcheck, hturn⟩ := hturn.of_bind
      · exact absurd hcheck (Relays.checkCancelled.not_fails hf)
      obtain ⟨g, hg, rfl, htest⟩ := raised_test hrun hf (fun b => by
        refine .ite (.bind (Relays.block hrun scope body) fun v => ?_) (.pure _)
        split <;> exact .pure _) hturn
      have htests : Fails (do checkCancelled; run.test cond scope) host s (.fault g) :=
        htest.bind_of_ok (k := fun _ => run.test cond scope) hcheck
      exact ⟨g, 0, s, hg, rfl, Nat.succ_pos k, .none s, htests⟩
    · cases v with
      | some v => exact absurd hrest ((Relays.pure v).not_fails hf)
      | none =>
        obtain ⟨g, m, u, hg, rfl, hm, hturns, htest⟩ := ih hrest
        exact ⟨g, m + 1, u, hg, rfl, Nat.succ_lt_succ hm, .more hv hturns, htest⟩

/-- A fault that a statement fails with although it has its place has got it at a condition or at what a
loop visits. -/
theorem raised_execStmt {st : Stmt} (h : Fails (run.execStmt st scope) host s (.fault f)) :
    ∃ g span, g.span = none ∧ f = g.located span ∧ run.Raises host g (.stmt st scope) s span := by
  have other (hst : Relays host (· ≠ .fault f) (run.execStmt st scope)) :
      ∃ g span, g.span = none ∧ f = g.located span ∧ run.Raises host g (.stmt st scope) s span :=
    absurd h (hst.not_fails hf)
  cases st with
  | cond i =>
    obtain ⟨g, hg, rfl, htest⟩ := raised_test hrun hf (fun b => by
      refine .ite (Relays.block hrun scope _) ?_
      split
      · exact hrun _
      · exact hrun _
      · exact .pure _) h
    exact ⟨g, _, hg, rfl, .cond htest⟩
  | whileLoop span cond body =>
    obtain hnote | ⟨_, t, hnote, hloop⟩ := h.of_bind
    · exact absurd hnote ((Relays.note _ _).not_fails hf)
    obtain ⟨g, m, u, hg, rfl, hm, hturns, htest⟩ := raised_whileTurns hrun hf hloop.of_thenNote
    exact ⟨g, _, hg, rfl, .loop hm hnote hturns htest⟩
  | foreachLoop span value index iterable body =>
    obtain hexpr | ⟨v, u, hv, hloop⟩ := h.of_bind
    · exact absurd hexpr ((hrun _).not_fails hf)
    obtain hitems | ⟨items, t, -, hloop⟩ := hloop.of_bind
    · obtain ⟨g, hg, rfl, hvisited⟩ | hvisited := hitems.of_located
      · exact ⟨g, _, hg, rfl, .iterable (hvisited.bind_of_ok hv)⟩
      · exact absurd hvisited ((Relays.items v hrun).not_fails hf)
    obtain hnote | ⟨_, t', -, hturns⟩ := hloop.of_bind
    · exact absurd hnote ((Relays.note _ _).not_fails hf)
    · exact absurd hturns.of_thenNote ((Relays.foreachTurns hrun scope _ _ _ _ _ _).not_fails hf)
  | expr _ e => exact other (hrun _)
  | block b => exact other (.block hrun scope b)
  | declare _ name constant type value => exact other (.execDeclare hrun scope name constant type value)
  | function decl => exact other (.bind .newNumber fun _ => .bind (.naming _) fun _ => .pure _)
  | importing _ name wildcard path =>
    exact other (.bind (.importInto hrun scope name wildcard path) fun _ => .pure _)
  | struct _ name fields methods =>
    exact other (.bind .newNumber fun _ => .bind (.naming _) fun _ => .pure _)
  | enum _ name members =>
    exact other (.bind (.newObject _) fun _ => .bind (.naming _) fun _ => .pure _)
  | choose _ m => exact other (.evalMatch hrun scope m)
  | breakLoop => exact other (.pure _)
  | continueLoop => exact other (.pure _)
  | returning _ value =>
    cases value with
    | none => exact other (.pure _)
    | some e => exact other (.map (hrun _))

/-- If no task inside of a task fails with a fault that has its place, but the task does, then the fault
comes up in the task. -/
theorem raised_step {task : Task} (h : Fails (run.step task) host s (.fault f)) :
    ∃ g span, g.span = none ∧ f = g.located span ∧ run.Raises host g task s span := by
  cases task with
  | expr e scope =>
    obtain ⟨g, hg, rfl, hrule⟩ | hrule := h.of_located
    · exact ⟨g, _, hg, rfl, .expr hrule⟩
    · exact absurd hrule ((Relays.evalExpr hrun scope e).not_fails hf)
  | stmt st scope =>
    obtain ⟨g, hg, rfl, hrule⟩ | hrule := h.of_located
    · exact ⟨g, _, hg, rfl, .stmt hrule⟩
    · exact raised_execStmt hrun hf hrule
  | call v args => exact absurd h ((Relays.callValue hrun v args).not_fails hf)

end

end Runner

end ScriptLang
