import ScriptLang.Proofs.Eval.Assignments
import ScriptLang.Proofs.Library.Call

/-!
# Calls in accordance with a law

A list of statements lets no loop control out: it becomes the value of the list. The body of a
function runs in a scope that was made for it, so all that it binds there is out of sight of its
caller, and what it ends with is turned into a value before it is returned. So a call does nothing
besides giving a good value.
-/

namespace ScriptLang

open Eval

namespace Law

/-- Two runners that make instances of structs, the second in accordance with the law and the first in
the same way until they part. -/
def Pairing.Builds {L : Law} (K : L.Pairing) (run run' : Runner) : Prop :=
  ∀ {t : StructType} {args : List Value} {s : State}, L.GoodStruct t →
    (∀ a ∈ args, L.Good s.store a) →
    K.Sound .quiet s (run.instantiateWith K.left.finish t args)
      (run'.instantiateWith K.right.finish t args) L.Good

namespace Pairing.Sound

variable {L : Law} {K : L.Pairing} {ε : Effect} {s : State} {v w : Value} {run run' : Runner}
variable {α : Type} {Q : Store → α → Prop}
variable {inLoop : Bool} {scope : ScopeId} {names : List Text} {span : Span}

/-! ### Lists of statements -/

theorem statements (hrun : K.Carries run run') (hε : ∀ name, ε.binds scope name) {ss : List Stmt}
    {result : Value} (h : L.TidyStmts inLoop names ss) (hready : L.ready s.store scope names)
    (hresult : L.Done inLoop s.store result) :
    K.Sound ε s (run.statements scope result ss) (run'.statements scope result ss)
      (L.Done inLoop) := by
  induction ss generalizing s names result with
  | nil => exact pure hresult
  | cons st rest ih =>
    obtain ⟨hst, hrest⟩ := h.cons
    unfold Runner.statements
    refine bind (P := fun t _ => t = s.store) (stopIf (pure rfl)) fun _ t _ _ ht => ?_
    have hready : L.ready t.store scope names := ht ▸ hready
    -- loop control is caught before the scope is ready for what follows, but then nothing follows
    have caught : K.Sound ⟨fun i n => i = scope ∧ st.declares n, fun _ => False⟩ t
        (Eval.catchLoop (run.stmt st scope)) (Eval.catchLoop (run'.stmt st scope)) fun u v =>
          L.Done inLoop u v ∧ (v.isSignal = false →
            L.ready u scope (Check.declare names (Check.declaredName st))) := by
      refine catchLoop (hrun.stmt hst hready) rfl (fun u v h => ⟨h.1, fun _ => h.2⟩) ?_
      intro u c hc _ _
      cases c with
      | leave => exact ⟨hc, nofun⟩
      | next => exact ⟨hc, nofun⟩
    refine bind_le caught ⟨fun i n hi => hi.1 ▸ hε n, fun _ h => h.elim⟩ fun v u _ _ hv => ?_
    split
    · exact pure hv.1
    · next hsignal => exact ih hrest (hv.2 (by simpa using hsignal)) hv.1

/-- A block runs in a scope of its own. -/
theorem block (hrun : K.Carries run run') {b : Block} (h : L.TidyStmts inLoop [] b.body)
    (scope : ScopeId) :
    K.Sound ε s (run.block b scope) (run'.block b scope) (L.Done inLoop) :=
  inScope (newScope scope) fun _ _ _ _ hnew =>
    statements hrun (by exact fun _ => .inl rfl) h hnew.1 (Good.done trivial)

theorem exprs (hrun : K.Carries run run') {es : List Expr} (h : ∀ e ∈ es, L.TidyExpr inLoop e)
    (hready : L.ready s.store scope names) :
    K.Sound (L.effect inLoop) s (run.exprs es scope) (run'.exprs es scope) fun t vs =>
      ∀ v ∈ vs, L.Good t v :=
  mapM lasting_good fun e he _ hst => hrun.expr (h e he) (L.ready_mono hst hready)

/-! ### Bodies of functions -/

theorem bindParams {params : List Param} {args : List Value}
    (hε : ∀ name, ε.binds scope name)
    (hclean : L.Clean (Check.declaredAll names span (params.map Param.name)))
    (hnamed : L.tracks → ∀ p ∈ params, p.name ≠ []) (hready : L.ready s.store scope names)
    (hargs : ∀ v ∈ args, L.Good s.store v) (hlength : args.length = params.length) :
    K.Sound ε s (Runner.bindParams scope params args) (Runner.bindParams scope params args)
      fun t _ => L.ready t scope (Check.declareAll names (params.map Param.name)) := by
  unfold Runner.bindParams
  induction params generalizing s names args with
  | nil => exact pure hready
  | cons p params ih =>
    obtain ⟨v, args, rfl⟩ := List.exists_cons_of_length_eq_add_one hlength
    obtain ⟨hhead, hclean⟩ := clean_append.1 hclean
    rw [List.zip_cons_cons]
    refine bind (P := fun t _ => L.ready t scope (Check.declare names p.name)) ?_ fun _ t hst _ ht =>
      ih hclean (fun h q hq => hnamed h q (List.mem_cons_of_mem _ hq)) ht
        (fun w hw => (hargs w (List.mem_cons_of_mem _ hw)).mono hst) (Nat.succ.inj hlength)
    refine bind (annotated scope p.type (hargs v List.mem_cons_self)) fun w t _ _ hw => ?_
    have hready : L.ready t.store scope names := hw.2.1 ▸ hready
    refine (bindName (Eval.define_eq ..) (hε _) hready (fun h => hnamed h p List.mem_cons_self)
      (fun h hb => fresh_of_clean hhead h hb) hw.1).mono (Effect.le_refl ε) fun _ _ _ _ h => h.1

/-- What becomes of the value that a body ends with. -/
theorem finish (hv : L.Done false s.store v) :
    K.Sound ε s (K.left.finish v) (K.right.finish v) L.Good := by
  have hunwrap : L.Good s.store v.unwrap := by
    cases v with
    | breakSignal => trivial
    | continueSignal => trivial
    | _ => exact hv
  rw [K.finish v (fun h => by subst h; exact hv) (fun h => by subst h; exact hv)]
  exact pure hunwrap

theorem invoke (hbodies : L.bodies) (hrun : K.Carries run run') (hε : ∀ name, ε.binds scope name)
    (name : Text) {f : FunctionDecl} (hf : L.TidyFunction f) (result : Option TypeExpr)
    {args : List Value} (hready : L.ready s.store scope []) (hargs : ∀ v ∈ args, L.Good s.store v) :
    K.Sound ε s (run.invokeWith K.left.finish name f result scope args)
      (run'.invokeWith K.right.finish name f result scope args) L.Good := by
  unfold Runner.invokeWith
  split
  · exact fail nofun
  · next hlength =>
    refine bind (bindParams hε (hf.params hbodies) (hf.named hbodies) hready hargs
      (by simpa using hlength)) fun _ t _ _ hready => ?_
    refine bind (P := fun u _ => u = t.store) (still (still_note _ _) fun _ _ _ => rfl)
      fun _ u _ _ hu => ?_
    have body := statements hrun (ε := ε) hε (hf.body hbodies) (hu ▸ hready)
      (Good.done (v := .nil) trivial)
    refine bind body fun v t _ _ hv => bind (finish hv) fun v t' _ _ hv => ?_
    cases result with
    | none => exact pure hv
    | some type =>
      exact bind (look (still_checkType scope type v)) fun _ _ hle _ _ => pure (hv.mono hle)

/-- Work in a scope for the body of a method. -/
theorem inMethodScope {o : ObjectId} {t : StructType} (ht : L.GoodStruct t)
    {f g : ScopeId → Eval α}
    (hf : ∀ B id u, L.le B s.store u.store → L.ready u.store id [] →
      K.Sound ⟨fun i name => i = id ∨ ε.binds i name, ε.leaves⟩ u (f id) (g id) Q) :
    K.Sound ε s (Runner.methodScope o t >>= f) (Runner.methodScope o t >>= g) Q := by
  unfold Runner.methodScope
  simp only [bind_assoc]
  refine inScope (newScope t.scope) fun outer u hsu _ hnew => ?_
  refine bind_le (newCell ht) (Effect.quiet_le _) fun cell u₁ h₁ _ hcell => ?_
  refine bind_le newNumber (Effect.quiet_le _) fun number u₂ h₂ _ _ => ?_
  have hready : L.ready u₂.store outer [] := L.ready_mono (L.le_trans h₁ h₂) hnew.1
  refine bind (bindName (Eval.declareConstant_eq ..) (by exact .inl rfl) hready (fun _ => nofun)
    (fun _ _ => List.not_mem_nil) (L.cell_mono h₂ hcell)) fun _ u₃ h₃ _ _ => ?_
  refine inScope (newScope outer) fun id u₄ h₄ _ hinner => ?_
  -- what happened since the start bound a name in the outer of the two new scopes only
  have hle : L.le (fun i name => i = outer ∨ ε.binds i name) s.store u₄.store :=
    L.le_trans (L.le_mono (fun _ _ h => .inr h) hsu)
      (L.le_trans (le_quiet (L.le_trans h₁ h₂)) (L.le_trans h₃ h₄))
  refine (hf _ id u₄ hle hinner.1).mono ⟨fun i name h => ?_, fun _ h => h⟩ fun _ _ _ _ h => h
  exact h.imp (fun h => h) Or.inr

/-! ### Calls -/

theorem call (hbodies : L.bodies) (hrun : K.Carries run run') {args : List Value} (hv : L.Good s.store v)
    (hargs : ∀ a ∈ args, L.Good s.store a) :
    K.Sound .quiet s (run.callValueWith K.left.finish v args)
      (run'.callValueWith K.right.finish v args) L.Good := by
  unfold Runner.callValueWith
  refine bind (raw hv) fun w t hst _ hw => ?_
  have hargs : ∀ a ∈ args, L.Good t.store a := fun a ha => (hargs a ha).mono hst
  split
  · next decl scope =>
    exact inScope (newScope scope) fun id u htu _ hnew =>
      invoke hbodies hrun (by exact fun _ => .inl rfl) _ hw decl.result hnew.1
        fun a ha => (hargs a ha).mono htu
  · next o t decl =>
    exact inMethodScope hw.1 fun B id u htu hready =>
      invoke hbodies hrun (by exact fun _ => .inl rfl) _ hw.2 decl.result hready
        fun a ha => (hargs a ha).mono htu
  · exact callLibrary hrun _ hargs
  · exact callMethod hrun _ _ _ hargs
  · exact failWithHint nofun
  · exact fail nofun

theorem instantiate (hbodies : L.bodies) (hrun : K.Carries run run') : K.Builds run run' := by
  intro t args s ht hargs
  unfold Runner.instantiateWith
  dsimp only
  refine bind (newObjectId (fun name v hv => ?_)
    (.newObject fun name v hv => Store.eq_nil_of_mem_ofList (Store.mem_of_get? hv)))
    fun o u hsu _ _ => ?_
  · exact Store.eq_nil_of_mem_ofList hv ▸ bare_nil
  · split
    · exact fail nofun
    · cases hctor : t.ctor with
      | none => exact pure ht
      | some ctor =>
        refine inMethodScope ht fun B id u' huu' hready => ?_
        refine bind (P := fun u'' _ => u'' = u'.store) (still (still_note _ _) fun _ _ _ => rfl)
          fun _ u'' hle _ hu'' => ?_
        refine map (invoke hbodies hrun (by exact fun _ => .inl rfl) _ (ht.2 ctor hctor) none
          (hu'' ▸ hready) fun a ha => ?_) fun _ _ _ _ => ht
        exact (((hargs a ha).mono hsu).mono huu').mono hle

theorem evalNew (hrun : K.Carries run run') (hbuilds : K.Builds run run') {span' : Span}
    {callee : Expr} {args : List Expr}
    (h : L.TidyExpr inLoop (.construct span span' callee args))
    (hready : L.ready s.store scope names) :
    K.Sound (L.effect inLoop) s (run.evalNewWith K.left.finish callee args scope)
      (run'.evalNewWith K.right.finish callee args scope) L.Good := by
  unfold Runner.evalNewWith
  split
  · exact bind (exprs hrun h.construct.2 hready) fun _ _ _ _ hargs => construct _ hargs
  · refine bind (hrun.expr h.construct.1 hready) fun v t hst _ hv => ?_
    refine bind (raw hv) fun w u htu _ hw => ?_
    split
    · next type =>
      have hready := L.ready_mono (L.le_trans hst htu) hready
      refine bind (exprs hrun h.construct.2 hready) fun args u' _ _ hargs => ?_
      exact (hbuilds hw hargs).quiet
    · exact fail nofun

/-- A call of a function of the library by its name. A reference to a variable is made here or
nowhere. -/
theorem callByName (hrun : K.Carries run run') (f : Builtin) {args : List Expr}
    (h : ∀ e ∈ args, L.TidyExpr inLoop e) (hready : L.ready s.store scope names)
    (href : L.Inv s.store → ∀ span name owner b, f = .ref → args = [.ident span name] →
      s.store.resolve scope name = some (owner, b) →
      (∀ id c, s.store.read b.cell ≠ .reference id c) → L.cell s.store b.cell) :
    K.Sound (L.effect inLoop) s (Library.callByName run f args scope)
      (Library.callByName run' f args scope) L.Good := by
  unfold Library.callByName
  refine bind (P := fun t _ => t = s.store) (still (still_checkArity f _) fun _ _ _ => rfl)
    fun _ t _ _ ht => ?_
  have hready : L.ready t.store scope names := ht ▸ hready
  split
  · next span name =>
    refine store fun hinv => ?_
    cases hc : t.store.cellOf scope name with
    | error e => exact bind (P := fun _ _ => False) (fail (Store.cellOf_eq_error hc)) nofun
    | ok c =>
      obtain ⟨owner, b, hr, rfl⟩ := Store.cellOf_eq_ok hc
      refine bind (P := fun u a => u = t.store ∧ a = b.cell) (pure ⟨rfl, rfl⟩) fun a u _ _ ha => ?_
      obtain ⟨hu, rfl⟩ := ha
      refine refTo fun hb => ?_
      rw [hu, ht] at hb ⊢
      rw [ht] at hr hinv
      exact href hinv span name owner b rfl rfl hr hb
  · next e _ =>
    exact bind (hrun.expr (h _ List.mem_cons_self) hready) fun v u _ _ hv => refNew hv
  · exact bind (exprs hrun h hready) fun vs u _ _ hvs =>
      (perform hrun f (a := ⟨f.name, vs⟩) hvs).quiet

/-- A call in a program. -/
theorem evalCall (hrun : K.Carries run run') {callee : Expr} {args : List Expr}
    (h : L.TidyExpr inLoop (.call span callee args)) (hready : L.ready s.store scope names)
    (hallowed : ¬ L.forbids (.expr (.call span callee args) scope) s) :
    K.Sound (L.effect inLoop) s (run.evalCall callee args scope) (run'.evalCall callee args scope)
      L.Good := by
  unfold Runner.evalCall
  split
  · next f hf =>
    refine bind (P := fun t _ => t = s.store) (still (still_note _ _) fun _ _ _ => rfl)
      fun _ t _ _ ht => ?_
    refine callByName hrun f h.call.2 (ht ▸ hready) fun hinv span' name owner b hfref hargs hr hb => ?_
    rw [ht] at hinv hr hb ⊢
    subst hfref hargs
    cases callee with
    | ident nameSpan n => exact L.ref hinv.keeps hr hf hallowed hb
    | _ => cases hf
  · refine bind (hrun.expr h.call.1 hready) fun f t hst _ hf => ?_
    refine bind (exprs hrun h.call.2 (L.ready_mono hst hready)) fun args u htu _ hargs => ?_
    exact (hrun.call (hf.mono htu) hargs).quiet

end Pairing.Sound

end Law

end ScriptLang
