import ScriptLang.Proofs.Library.ComparedCalls

/-!
# Tasks in a compartment

Assignments, calls, statements, expressions and imports keep to the compartment and do the same in both
runs, so the evaluator does for all tasks, by induction on the depth of tasks inside of tasks
(`Comparison.carries`). A scope inside stays the only thing through which code gets at names, and the
code of an imported file runs in a scope that was made for it.
-/

namespace ScriptLang

open Eval

namespace Comparison

/-- A place inside. -/
def GoodPlace (C : Comparison) (s : Store) : Place → Prop
  | .name _ scope => C.Owns scope
  | .member o _ => C.Good s o
  | .element o i => C.Good s o ∧ C.Good s i

variable {C : Comparison} {s : State} {v w : Value} {run run' : Runner} {scope : ScopeId}

theorem lasting_goodPlace : Lasting C.GoodPlace := by
  intro s t place hst h
  cases place with
  | name => exact h
  | member => exact h.mono hst
  | element => exact ⟨h.1.mono hst, h.2.mono hst⟩

namespace Sound

/-! ### Assignments -/

theorem retype (scope : ScopeId) (old : Value) (hv : C.Good s.store v) :
    C.Sound s (Eval.retype scope old v) (Eval.retype scope old v) C.Good := by
  unfold Eval.retype
  split <;> exact annotated scope _ hv

theorem assignTo (name : Text) (h : C.Owns scope) (hv : C.Good s.store v) :
    C.Sound s (naming (Naming.assign scope name v)) (naming (Naming.assign scope name v))
      fun _ _ => True := by
  rw [Eval.assign_eq]
  exact tryScope fun _ hs ht => hs.assign h hv ht

theorem assignName (name : Text) (h : C.Owns scope) (hv : C.Good s.store v) :
    C.Sound s (Eval.assignName scope name v) (Eval.assignName scope name v) fun _ _ => True := by
  unfold Eval.assignName
  refine store fun _ => store fun _ => ?_
  split
  · exact assignTo name h hv
  · refine bind (lookup name h) fun old t hst _ hold => ?_
    split
    · refine store fun _ => bind (retype scope _ (hv.mono hst)) fun w t' _ _ hw => ?_
      exact update fun hs => ⟨hs.write hold hw, .refl _⟩
    · exact bind (retype scope _ (hv.mono hst)) fun w t' _ _ hw => assignTo name h hw

theorem readPlace {place : Place} (h : C.GoodPlace s.store place) :
    C.Sound s place.read place.read C.Good := by
  cases place with
  | name n scope => exact lookup n h
  | member o p => exact getMember h p
  | element o i => exact getIndex h.1 h.2

theorem writePlace {place : Place} (h : C.GoodPlace s.store place) (hv : C.Good s.store v) :
    C.Sound s (place.write v) (place.write v) fun _ _ => True := by
  cases place with
  | name n scope => exact assignName n h hv
  | member o p => exact setMember h p hv
  | element o i => exact setIndex h.1 h.2 hv

theorem place (hrun : C.Carries run run') {e : Expr} (he : Spans.Within C.spans (Spans.expr e))
    (h : C.Owns scope) :
    C.Sound s (run.place e scope) (run'.place e scope) C.GoodPlace := by
  unfold Runner.place
  split
  · exact pure h
  · simp only [Spans.expr, Spans.within_cons] at he
    exact map (hrun.expr he.2 h) fun _ _ _ ho => ho
  · simp only [Spans.expr, Spans.within_cons, Spans.within_append] at he
    refine bind (hrun.expr he.2.1 h) fun o t _ _ ho => ?_
    refine bind (hrun.expr he.2.2 h) fun i t' hle _ hi => pure ⟨ho.mono hle, hi⟩
  · exact fail _ _

theorem assign (hrun : C.Carries run run') (op : AssignOp) {target value : Expr}
    (ht : Spans.Within C.spans (Spans.expr target)) (hv : Spans.Within C.spans (Spans.expr value))
    (h : C.Owns scope) :
    C.Sound s (run.assign op target value scope) (run'.assign op target value scope) C.Good := by
  unfold Runner.assign
  refine bind (place hrun ht h) fun place t _ _ hplace => ?_
  have stored : ∀ (u : State), t.store.Grows u.store → C.Sound u
      (do
        let v ← run.expr value scope
        place.write v
        return v)
      (do
        let v ← run'.expr value scope
        place.write v
        return v) C.Good := by
    intro u htu
    refine bind (hrun.expr hv h) fun v u' huu' _ hv => ?_
    exact bind (writePlace (lasting_goodPlace (htu.trans huu') hplace) hv)
      fun _ _ hle _ _ => pure (hv.mono hle)
  split
  · exact stored t (.refl _)
  · refine bind (readPlace hplace) fun old u htu _ hold => ?_
    refine bind (look (asks_isNil old)) fun b u' huu' _ _ => ?_
    split
    · exact stored u' (htu.trans huu')
    · exact pure (hold.mono huu')
  · split
    · exact fail _ _
    · next operator _ =>
      refine bind (readPlace hplace) fun old u htu _ hold => ?_
      refine bind (hrun.expr hv h) fun operand u' huu' _ hop => ?_
      refine bind (operate hrun operator (hold.mono huu') hop) fun v u'' hle _ hv => ?_
      have hplace := lasting_goodPlace ((htu.trans huu').trans hle) hplace
      exact bind (writePlace hplace hv) fun _ _ hle _ _ => pure (hv.mono hle)

theorem stepPlace (hrun : C.Carries run run') (op : StepOp) {target : Expr}
    (ht : Spans.Within C.spans (Spans.expr target)) (h : C.Owns scope) :
    C.Sound s (run.stepPlace op target scope) (run'.stepPlace op target scope) C.Good := by
  unfold Runner.stepPlace
  refine bind (place hrun ht h) fun place t _ _ hplace => ?_
  refine bind (readPlace hplace) fun old u htu _ hold => ?_
  refine bind (raw hold) fun v u' huu' _ _ => ?_
  split
  · exact bind (writePlace (lasting_goodPlace (htu.trans huu') hplace) trivial)
      fun _ _ _ _ _ => pure trivial
  · exact fail _ _

/-- The removal of a variable. -/
theorem removeName (name : Text) (h : C.Owns scope) :
    C.Sound s (naming (Naming.remove scope name)) (naming (Naming.remove scope name)) C.Good := by
  intro hs host host' s' _ hl
  obtain ⟨p, l, rfl, hkept⟩ := hl
  rw [Eval.remove_eq, Eval.remove_eq]
  dsimp only
  cases hr : s.store.remove scope name with
  | ok r =>
    obtain ⟨ht, hgrows, hv⟩ := hs.remove h hr
    exact .ok ⟨p, l, rfl, hkept⟩ hgrows ht hv
  | error e => exact .error ⟨p, l, rfl, hkept⟩ (.refl _) hs (fails_unplaced rfl)

theorem delete (hrun : C.Carries run run') {e : Expr} (he : Spans.Within C.spans (Spans.expr e))
    (h : C.Owns scope) :
    C.Sound s (run.delete e scope) (run'.delete e scope) C.Good := by
  unfold Runner.delete
  split
  · refine store fun _ => ?_
    split
    · exact fail _ _
    · exact removeName _ h
  · simp only [Spans.expr, Spans.within_cons] at he
    exact bind (hrun.expr he.2 h) fun _ _ _ _ ho => deleteField ho _
  · simp only [Spans.expr, Spans.within_cons, Spans.within_append] at he
    refine bind (hrun.expr he.2.1 h) fun o t _ _ ho => ?_
    exact bind (hrun.expr he.2.2 h) fun i u htu _ hi => deleteIndex (ho.mono htu) hi
  · exact fail _ _

/-! ### Lists of statements -/

theorem statements (hrun : C.Carries run run') {ss : List Stmt} {result : Value}
    (hss : ∀ st ∈ ss, Spans.Within C.spans (Spans.stmt st)) (h : C.Owns scope)
    (hresult : C.Good s.store result) :
    C.Sound s (run.statements scope result ss) (run'.statements scope result ss) C.Good := by
  induction ss generalizing s result with
  | nil => exact pure hresult
  | cons st rest ih =>
    obtain ⟨hst, hrest⟩ := List.forall_mem_cons.1 hss
    unfold Runner.statements
    refine bind checkCancelled fun _ t _ _ _ => ?_
    refine bind (catchLoop (hrun.stmt hst h)) fun v u _ _ hv => ?_
    split
    · exact pure hv
    · exact ih hrest hv

theorem block (hrun : C.Carries run run') {b : Block} (hb : Spans.Within C.spans (Spans.block b))
    (h : C.Owns scope) : C.Sound s (run.block b scope) (run'.block b scope) C.Good :=
  bind (newScope h) fun _ _ _ _ hinner =>
    statements hrun (Spans.within_block.1 hb).2 hinner trivial

theorem exprs (hrun : C.Carries run run') {es : List Expr}
    (hes : Spans.Within C.spans (Spans.exprs es)) (h : C.Owns scope) :
    C.Sound s (run.exprs es scope) (run'.exprs es scope) fun t vs => ∀ v ∈ vs, C.Good t v :=
  mapM lasting_good fun e he _ _ => hrun.expr (Spans.within_exprs.1 hes e he) h

/-! ### Calls -/

theorem bindParams {params : List Param} {args : List Value} (h : C.Owns scope)
    (hargs : ∀ v ∈ args, C.Good s.store v) :
    C.Sound s (Runner.bindParams scope params args) (Runner.bindParams scope params args)
      fun _ _ => True := by
  unfold Runner.bindParams
  induction params generalizing s args with
  | nil => exact pure trivial
  | cons p params ih =>
    cases args with
    | nil => exact pure trivial
    | cons v args =>
      obtain ⟨hv, hargs⟩ := List.forall_mem_cons.1 hargs
      rw [List.zip_cons_cons]
      refine bind (P := fun _ _ => True) ?_ fun _ t hst _ _ => ih fun w hw => (hargs w hw).mono hst
      exact bind (annotated scope p.type hv) fun w t _ _ hw =>
        bindName (Eval.define_eq ..) h hw

theorem invoke (hrun : C.Carries run run') (name : Text) {f : FunctionDecl} (hf : C.GoodFunction f)
    (result : Option TypeExpr) {args : List Value} (h : C.Owns scope)
    (hargs : ∀ v ∈ args, C.Good s.store v) :
    C.Sound s (run.invoke name f result scope args) (run'.invoke name f result scope args)
      C.Good := by
  have hbody := (Spans.within_block.1 (Spans.within_function.1 hf).2).2
  unfold Runner.invoke
  split
  · exact fail _ _
  · refine bind (bindParams h hargs) fun _ t _ _ _ => bind (note _ _) fun _ t _ _ _ => ?_
    refine bind (statements hrun hbody h trivial) fun v t _ _ hv => ?_
    have hv : C.Good t.store v.unwrap := hv.unwrap
    dsimp only
    split
    · exact bind (look (asks_checkType _ _ _)) fun _ _ hle _ _ => pure (hv.mono hle)
    · exact pure hv

theorem methodScope {o : ObjectId} {t : StructType} (ho : C.origin.objects.size ≤ o)
    (ht : C.GoodStruct t) :
    C.Sound s (Runner.methodScope o t) (Runner.methodScope o t) fun _ id => C.Owns id := by
  refine bind (newScope ht.scope) fun outer u _ _ houter => ?_
  refine bind (newCell (v := .object o (some t)) ⟨ho, fun t' h => Option.mem_some.1 h ▸ ht⟩)
    fun c u _ _ hc => bind newNumber fun n u _ _ _ => ?_
  exact bind (bindName (v := .reference n (some c)) (Eval.declareConstant_eq ..) houter hc)
    fun _ _ _ _ _ => newScope houter

theorem callValue (hrun : C.Carries run run') {f : Value} {args : List Value}
    (hf : C.Good s.store f) (hargs : ∀ v ∈ args, C.Good s.store v) :
    C.Sound s (run.callValue f args) (run'.callValue f args) C.Good := by
  unfold Runner.callValue
  refine bind (raw hf) fun w t hst _ hw => ?_
  have hargs : ∀ v ∈ args, C.Good t.store v := fun v hv => (hargs v hv).mono hst
  split
  · exact bind (newScope hw.1) fun _ _ hle _ hid =>
      invoke hrun _ hw.2 _ hid fun v hv => (hargs v hv).mono hle
  · exact bind (methodScope hw.1 hw.2.1) fun _ _ hle _ hid =>
      invoke hrun _ hw.2.2 _ hid fun v hv => (hargs v hv).mono hle
  · exact callLibrary hrun _ hargs
  · exact callMethod hrun _ hw _ hargs
  · exact failWithHint _ _ _
  · exact fail _ _

theorem callByName (hrun : C.Carries run run') (f : Builtin) {args : List Expr}
    (hargs : Spans.Within C.spans (Spans.exprs args)) (h : C.Owns scope) :
    C.Sound s (Library.callByName run f args scope) (Library.callByName run' f args scope)
      C.Good := by
  unfold Library.callByName
  refine bind (look (Library.asks_checkArity f _)) fun _ t _ _ _ => ?_
  split
  · next name =>
    refine store fun ht => bind (P := fun _ c => C.origin.cells.size ≤ c) ?_
      fun _ _ _ _ hc => refTo hc
    cases hc : t.store.cellOf scope name with
    | error e => exact fail _ _
    | ok c =>
      obtain ⟨owner, b, hr, rfl⟩ := Store.cellOf_eq_ok hc
      exact pure (ht.resolve h hr).2
  · rw [Spans.within_exprs] at hargs
    exact bind (hrun.expr (hargs _ List.mem_cons_self) h) fun _ _ _ _ hv => refNew hv
  · exact bind (exprs hrun hargs h) fun _ _ _ _ hvs => perform hrun f hvs

theorem evalCall (hrun : C.Carries run run') {callee : Expr} {args : List Expr}
    (hcallee : Spans.Within C.spans (Spans.expr callee))
    (hargs : Spans.Within C.spans (Spans.exprs args)) (h : C.Owns scope) :
    C.Sound s (run.evalCall callee args scope) (run'.evalCall callee args scope) C.Good := by
  unfold Runner.evalCall
  split
  · exact bind (note _ _) fun _ _ _ _ _ => callByName hrun _ hargs h
  · refine bind (hrun.expr hcallee h) fun f t _ _ hf => ?_
    exact bind (exprs hrun hargs h) fun vs t' hle _ hvs => hrun.call (hf.mono hle) hvs

theorem instantiate (hrun : C.Carries run run') {t : StructType} (ht : C.GoodStruct t)
    {args : List Value} (hargs : ∀ v ∈ args, C.Good s.store v) :
    C.Sound s (run.instantiate t args) (run'.instantiate t args) C.Good := by
  unfold Runner.instantiate
  refine bind (newObjectId fun e he => ?_) fun o u hsu _ ho => ?_
  · obtain ⟨f, -, rfl⟩ := List.mem_map.1 he
    trivial
  have hobject : ∀ st : Store, C.Good st (.object o (some t)) :=
    fun _ => ⟨ho, fun t' h => Option.mem_some.1 h ▸ ht⟩
  dsimp only
  split
  · exact fail _ _
  · split
    · next ctor hctor =>
      refine bind (methodScope ho ht) fun id u' huu' _ hid => bind (note _ _) fun _ u'' hle _ _ => ?_
      refine bind (invoke hrun _ (ht.ctor ctor hctor) none hid fun v hv => ?_)
        fun _ _ _ _ _ => pure (hobject _)
      exact (((hargs v hv).mono hsu).mono huu').mono hle
    · exact pure (hobject _)

theorem evalNew (hrun : C.Carries run run') {callee : Expr} {args : List Expr}
    (hcallee : Spans.Within C.spans (Spans.expr callee))
    (hargs : Spans.Within C.spans (Spans.exprs args)) (h : C.Owns scope) :
    C.Sound s (run.evalNew callee args scope) (run'.evalNew callee args scope) C.Good := by
  unfold Runner.evalNew
  split
  · exact bind (exprs hrun hargs h) fun _ _ _ _ hvs => construct _ hvs
  · refine bind (hrun.expr hcallee h) fun v t _ _ hv => bind (raw hv) fun w t' _ _ hw => ?_
    split
    · exact bind (exprs hrun hargs h) fun _ _ _ _ hvs => instantiate hrun hw hvs
    · exact fail _ _

/-! ### Expressions -/

theorem evalName (name : Text) (h : C.Owns scope) :
    C.Sound s (Runner.evalName name scope) (Runner.evalName name scope) C.Good := by
  unfold Runner.evalName
  refine store fun hs => ?_
  split
  · next hv => exact pure (hs.lookup h hv)
  · split
    · exact map newNumber fun _ _ _ _ => trivial
    · exact fail _ _

theorem evalUnary (hrun : C.Carries run run') (op : UnaryOp) {operand : Expr}
    (he : Spans.Within C.spans (Spans.expr operand)) (h : C.Owns scope) :
    C.Sound s (run.evalUnary op operand scope) (run'.evalUnary op operand scope) C.Good := by
  unfold Runner.evalUnary
  split
  · exact delete hrun he h
  · refine bind (hrun.expr he h) fun v t _ _ hv => ?_
    split
    · refine bind (raw hv) fun w t' _ _ _ => ?_
      split
      · exact pure trivial
      · exact fail _ _
    · exact map (truthy hrun hv) fun _ _ _ _ => trivial
    · refine store fun _ => pure ?_
      unfold Store.typeOf
      split <;> exact ⟨trivial, trivial⟩
    · exact fail _ _

theorem evalBinary (hrun : C.Carries run run') (op : BinaryOp) {left right : Expr}
    (hl : Spans.Within C.spans (Spans.expr left)) (hr : Spans.Within C.spans (Spans.expr right))
    (h : C.Owns scope) :
    C.Sound s (run.evalBinary op left right scope) (run'.evalBinary op left right scope) C.Good := by
  unfold Runner.evalBinary
  refine bind (hrun.expr hl h) fun l t _ _ hl => ?_
  have decided : ∀ u : State, C.Sound u
      (do return Value.boolean (← run.truthy (← run.expr right scope)))
      (do return Value.boolean (← run'.truthy (← run'.expr right scope))) C.Good := fun u =>
    bind (hrun.expr hr h) fun _ _ _ _ hv => map (truthy hrun hv) fun _ _ _ _ => trivial
  split
  · refine bind (truthy hrun hl) fun b u _ _ _ => ?_
    split
    · exact decided u
    · exact pure trivial
  · refine bind (truthy hrun hl) fun b u _ _ _ => ?_
    split
    · exact pure trivial
    · exact decided u
  · refine bind (look (asks_isNil l)) fun b u hle _ _ => ?_
    split
    · exact hrun.expr hr h
    · exact pure (hl.mono hle)
  · exact bind (hrun.expr hr h) fun _ _ hle _ hv => operate hrun op (hl.mono hle) hv

theorem evalRange (hrun : C.Carries run run') {first last : Expr}
    (hf : Spans.Within C.spans (Spans.expr first)) (hl : Spans.Within C.spans (Spans.expr last))
    (h : C.Owns scope) :
    C.Sound s (run.evalRange first last scope) (run'.evalRange first last scope) C.Good := by
  rw [Runner.evalRange_eq, Runner.evalRange_eq]
  refine bind (hrun.expr hf h) fun lo t _ _ hlo => bind (hrun.expr hl h) fun hi t' htt' _ hhi => ?_
  refine bind (raw (hlo.mono htt')) fun a u hu _ _ => bind (raw (hhi.mono hu)) fun b u' _ _ _ => ?_
  split
  · exact progression _ _ 1
  · exact fail _ _

theorem chooseArm (hrun : C.Carries run run') {arm : MatchArm}
    (hbody : Spans.Within C.spans (Spans.armBody arm.body)) (h : C.Owns scope) (taken : Bool)
    {x y : Eval Value} (hrest : C.Sound s x y C.Good) :
    C.Sound s
      (if taken then
        match arm.body with
        | .block b => run.block b scope
        | .value span e => run.stmt (.expr span e) scope
      else x)
      (if taken then
        match arm.body with
        | .block b => run'.block b scope
        | .value span e => run'.stmt (.expr span e) scope
      else y) C.Good := by
  split
  · generalize arm.body = body at hbody ⊢
    cases body with
    | block b => exact block hrun hbody h
    | value span e =>
      have he : Spans.Within C.spans (Spans.stmt (.expr span e)) := hbody
      exact hrun.stmt he h
  · exact hrest

theorem evalArms (hrun : C.Carries run run') {subject : Value} {arms : List MatchArm}
    (harms : ∀ a ∈ arms, Spans.Within C.spans (Spans.arm a)) (h : C.Owns scope) :
    C.Sound s (run.evalArms subject scope arms) (run'.evalArms subject scope arms) C.Good := by
  induction arms generalizing s with
  | nil => exact pure trivial
  | cons arm rest ih =>
    obtain ⟨harm, hrest⟩ := List.forall_mem_cons.1 harms
    obtain ⟨-, hpattern, hbody⟩ := Spans.within_arm.1 harm
    unfold Runner.evalArms
    dsimp only
    split
    · exact bind (P := fun _ _ => True) (pure trivial) fun b t _ _ _ =>
        chooseArm hrun hbody h b (ih hrest)
    · next p hp =>
      refine bind (hrun.expr (hpattern p hp) h) fun v t _ _ _ => store fun _ => ?_
      exact bind (look (.orStuck _)) fun b t _ _ _ => chooseArm hrun hbody h b (ih hrest)

theorem evalMatch (hrun : C.Carries run run') {m : MatchExpr}
    (hm : Spans.Within C.spans (Spans.choice m)) (h : C.Owns scope) :
    C.Sound s (run.evalMatch m scope) (run'.evalMatch m scope) C.Good := by
  obtain ⟨-, hsubject, harms⟩ := Spans.within_choice.1 hm
  exact bind (hrun.expr hsubject h) fun _ _ _ _ _ => evalArms hrun harms h

theorem matchValue (hv : C.Good s.store v) :
    C.Sound s (Runner.matchValue v) (Runner.matchValue v) C.Good := by
  unfold Runner.matchValue
  split
  · exact throw trivial
  · exact throw trivial
  · exact pure hv.unwrap

theorem evalExpr (hrun : C.Carries run run') {e : Expr}
    (he : Spans.Within C.spans (Spans.expr e)) (h : C.Owns scope) :
    C.Sound s (run.evalExpr e scope) (run'.evalExpr e scope) C.Good := by
  unfold Runner.evalExpr
  cases e <;> simp only [Spans.expr, Spans.within_cons, Spans.within_append] at he
  case number | string | bool | nil => exact pure trivial
  case ident name => exact evalName name h
  case array es =>
    refine bind (mapM lasting_good fun e hmem _ _ => ?_) fun vs _ _ _ hvs => newArray hvs
    exact map (hrun.expr (Spans.within_exprs.1 he.2 e hmem) h) fun _ _ _ hv => hv.plain
  case object es =>
    refine bind (mapM (Q := fun st (e : Text × Value) => C.Good st e.2)
      (fun _ _ _ hst h => h.mono hst) fun e hmem _ _ => ?_) fun fs _ _ _ hfs => newObject hfs
    exact map (hrun.expr (Spans.within_entries.1 he.2 e hmem) h) fun _ _ _ hv => hv.plain
  case unary op e => exact evalUnary hrun op he.2 h
  case binary op l r => exact evalBinary hrun op he.2.1 he.2.2 h
  case assign op target value => exact assign hrun op he.2.1 he.2.2 h
  case step op target => exact stepPlace hrun op he.2 h
  case range a b => exact evalRange hrun he.2.1 he.2.2 h
  case member o p => exact bind (hrun.expr he.2 h) fun _ _ _ _ ho => getMember ho p
  case index o i =>
    refine bind (hrun.expr he.2.1 h) fun o t _ _ ho => ?_
    exact bind (hrun.expr he.2.2 h) fun i u htu _ hi => getIndex (ho.mono htu) hi
  case call callee args => exact evalCall hrun he.2.1 he.2.2 h
  case construct callee args => exact evalNew hrun he.2.2.1 he.2.2.2 h
  case function decl => exact map newNumber fun _ _ _ _ => ⟨h, he⟩
  case choose m => exact bind (evalMatch hrun he h) fun _ _ _ _ hv => matchValue hv

end Sound

end Comparison

end ScriptLang
