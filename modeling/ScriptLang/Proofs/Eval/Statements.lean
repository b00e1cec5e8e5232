import ScriptLang.Proofs.Eval.Calls

/-!
# Expressions and statements in accordance with a law

An expression gives a good value, binds nothing and lets out only loop control that a loop around it
waits for: the value of a choice can be a signal, and then the choice fails with it.

A statement binds at most the names that it declares, in the scope it stands in. Blocks, the branches of
conditionals and the iterations of loops run in scopes of their own, and a loop takes up the loop
control of its body.
-/

namespace ScriptLang

open Eval

namespace Law.Pairing.Sound

variable {L : Law} {K : L.Pairing} {ε : Effect} {s : State} {v w : Value} {run run' : Runner}
variable {inLoop : Bool} {scope : ScopeId} {names : List Text} {span : Span}

/-! ### Expressions -/

theorem evalName (name : Text) (scope : ScopeId) :
    K.Sound ε s (Runner.evalName name scope) (Runner.evalName name scope) L.Good := by
  unfold Runner.evalName
  refine store fun hs => ?_
  split
  · next v hv => exact pure (hs.lookup hv)
  · next e he =>
    split
    · next hf => exact map newNumber fun _ _ _ _ => L.native_global hf
    · exact fail (Store.lookup_eq_error he)

/-! ### Operators -/

theorem evalUnary (hrun : K.Carries run run') {op : UnaryOp} {e : Expr}
    (he : L.TidyExpr inLoop e) (hready : L.ready s.store scope names)
    (hallowed : ¬ L.forbids (.expr (.unary span op e) scope) s) :
    K.Sound (L.effect inLoop) s (run.evalUnary op e scope) (run'.evalUnary op e scope) L.Good := by
  unfold Runner.evalUnary
  split
  · exact delete hrun he hready hallowed
  · refine bind (hrun.expr he hready) fun v t _ _ hv => ?_
    split
    · refine bind (raw hv) fun w u _ _ _ => ?_
      split
      · exact pure trivial
      · exact fail nofun
    · exact map (truthy hrun hv) fun _ _ _ _ => trivial
    · refine store fun _ => pure ?_
      unfold Store.typeOf
      split <;> exact ⟨trivial, trivial⟩
    · exact fail nofun

theorem evalBinary (hrun : K.Carries run run') {op : BinaryOp} {l r : Expr}
    (h : L.TidyExpr inLoop (.binary span op l r)) (hready : L.ready s.store scope names) :
    K.Sound (L.effect inLoop) s (run.evalBinary op l r scope) (run'.evalBinary op l r scope)
      L.Good := by
  unfold Runner.evalBinary
  refine bind (hrun.expr h.binary.1 hready) fun v t hst _ hv => ?_
  have right : ∀ u : State, L.le noNames t.store u.store →
      K.Sound (L.effect inLoop) u (run.expr r scope) (run'.expr r scope) L.Good := fun u htu =>
    hrun.expr h.binary.2 (L.ready_mono (L.le_trans hst htu) hready)
  have rightTruth : ∀ u : State, L.le noNames t.store u.store →
      K.Sound (L.effect inLoop) u (do return .boolean (← run.truthy (← run.expr r scope)))
        (do return .boolean (← run'.truthy (← run'.expr r scope))) L.Good := fun u htu =>
    bind (right u htu) fun w _ _ _ hw => map (truthy hrun hw) fun _ _ _ _ => trivial
  split
  · refine bind (truthy hrun hv) fun b u htu _ _ => ?_
    split
    · exact rightTruth u htu
    · exact pure trivial
  · refine bind (truthy hrun hv) fun b u htu _ _ => ?_
    split
    · exact pure trivial
    · exact rightTruth u htu
  · refine bind (look (still_isNil v)) fun b u htu _ _ => ?_
    split
    · exact right u htu
    · exact pure (hv.mono htu)
  · exact bind (right t L.le_refl) fun w u htu _ hw => (operate hrun op (hv.mono htu) hw).quiet

theorem evalRange (hrun : K.Carries run run') {a b : Expr}
    (h : L.TidyExpr inLoop (.range span a b)) (hready : L.ready s.store scope names) :
    K.Sound (L.effect inLoop) s (run.evalRange a b scope) (run'.evalRange a b scope) L.Good := by
  rw [Runner.evalRange_eq, Runner.evalRange_eq]
  refine bind (hrun.expr h.range.1 hready) fun v t hst _ hv => ?_
  refine bind (hrun.expr h.range.2 (L.ready_mono hst hready)) fun w u htu _ hw => ?_
  refine bind (raw (hv.mono htu)) fun x u₁ h₁ _ _ => bind (raw (hw.mono h₁)) fun y u₂ _ _ _ => ?_
  split
  · exact progression _ _ _
  · exact fail nofun

/-! ### Choices -/

/-- The body of an arm that was chosen, or else what comes after the arm. -/
theorem chooseArm (hrun : K.Carries run run') {arm : MatchArm} (h : L.TidyArm inLoop arm)
    (hready : L.ready s.store scope names) (taken : Bool) {x y : Eval Value}
    (hrest : K.Sound (L.effect inLoop) s x y (L.Done inLoop)) :
    K.Sound (L.effect inLoop) s
      (if taken then
        match arm.body with
        | .block b => run.block b scope
        | .value span e => run.stmt (.expr span e) scope
      else x)
      (if taken then
        match arm.body with
        | .block b => run'.block b scope
        | .value span e => run'.stmt (.expr span e) scope
      else y) (L.Done inLoop) := by
  split
  · split
    · next b hb => exact block hrun (h.block b hb) scope
    · next span e hb =>
      refine (hrun.stmt (.of_expr (h.value span e hb)) hready).mono
        ⟨fun _ _ h => h.2.elim, fun _ h => h⟩ fun _ _ _ _ h => h.1
  · exact hrest

theorem evalArms (hrun : K.Carries run run') {arms : List MatchArm}
    (h : ∀ a ∈ arms, L.TidyArm inLoop a) (hv : L.Good s.store v)
    (hready : L.ready s.store scope names) :
    K.Sound (L.effect inLoop) s (run.evalArms v scope arms) (run'.evalArms v scope arms)
      (L.Done inLoop) := by
  induction arms generalizing s with
  | nil => exact pure (Good.done trivial)
  | cons arm rest ih =>
    have harm := h arm List.mem_cons_self
    have later {t : State} (hst : L.le noNames s.store t.store) :=
      ih (s := t) (fun a ha => h a (List.mem_cons_of_mem _ ha)) (hv.mono hst) (L.ready_mono hst hready)
    unfold Runner.evalArms
    cases hp : arm.pattern with
    | none =>
      exact bind (P := fun _ _ => True) (pure trivial) fun b t hst _ _ =>
        chooseArm hrun harm (L.ready_mono hst hready) b (later hst)
    | some p =>
      refine bind (hrun.expr (harm.pattern p hp) hready) fun w t hst _ _ => store fun _ => ?_
      refine bind (look .orStuck) fun b u htu _ _ => ?_
      have hsu := L.le_trans hst htu
      exact chooseArm hrun harm (L.ready_mono hsu hready) b (later hsu)

theorem evalMatch (hrun : K.Carries run run') {m : MatchExpr} (h : L.TidyChoice inLoop m)
    (hready : L.ready s.store scope names) :
    K.Sound (L.effect inLoop) s (run.evalMatch m scope) (run'.evalMatch m scope)
      (L.Done inLoop) :=
  bind (hrun.expr h.parts.1 hready) fun _ _ hst _ hv =>
    evalArms hrun h.parts.2 hv (L.ready_mono hst hready)

/-- Loop control that may leave an evaluation. -/
theorem throwLoop {c : LoopControl} (h : L.escapes inLoop c) {Q : Store → Value → Prop} :
    K.Sound (L.effect inLoop) s (MonadExcept.throw (Failure.loop c))
      (MonadExcept.throw (Failure.loop c)) Q :=
  of_same (fun hs _ => ⟨L.le_refl, .refl, hs, h⟩) (fun _ _ _ => rfl) fun _ => rfl

theorem matchValue (hv : L.Done inLoop s.store v) :
    K.Sound (L.effect inLoop) s (Runner.matchValue v) (Runner.matchValue v) L.Good := by
  cases v with
  | breakSignal => exact throwLoop (c := .leave) hv
  | continueSignal => exact throwLoop (c := .next) hv
  | _ => exact pure hv

/-! ### All kinds of expressions -/

theorem evalExpr (hrun : K.Carries run run') {e : Expr} (he : L.TidyExpr inLoop e)
    (hready : L.ready s.store scope names) (hallowed : ¬ L.forbids (.expr e scope) s)
    (hnew : ∀ span span' callee args, e ≠ .construct span span' callee args) :
    K.Sound (L.effect inLoop) s (run.evalExpr e scope) (run'.evalExpr e scope) L.Good := by
  cases e with
  | number | string | bool | nil => exact pure trivial
  | ident _ name => exact evalName name scope
  | array _ es =>
    refine bind (mapM lasting_bare fun e hmem t hst => ?_) fun vs _ _ _ hvs => newArray hvs
    exact map (hrun.expr (he.array e hmem) (L.ready_mono hst hready)) fun _ _ _ h => h.plain
  | object _ es =>
    refine bind (mapM (Q := fun t (p : Text × Value) => L.Bare t p.2) (fun _ _ _ _ hle h => h.mono hle)
      fun p hmem t hst => ?_) fun fields _ _ _ hfields => (newObject hfields).good
    exact map (hrun.expr (he.object p hmem) (L.ready_mono hst hready)) fun _ _ _ h => h.plain
  | unary _ op e => exact evalUnary hrun he.unary hready hallowed
  | binary _ op l r => exact evalBinary hrun he hready
  | assign _ op target value => exact assign hrun he hready hallowed
  | step _ op target => exact stepPlace hrun he hready
  | range _ a b => exact evalRange hrun he hready
  | member _ o p => exact bind (hrun.expr he.member hready) fun _ _ _ _ ho => getMember ho p
  | index _ o i =>
    refine bind (hrun.expr he.index.1 hready) fun v t hst _ hv => ?_
    refine bind (hrun.expr he.index.2 (L.ready_mono hst hready)) fun w u htu _ hw => ?_
    exact getIndex (hv.mono htu) hw
  | call _ callee args => exact evalCall hrun he hready hallowed
  | construct _ _ callee args => exact absurd rfl (hnew _ _ _ _)
  | function decl => exact map newNumber fun _ _ _ _ => he.function
  | choose m => exact bind (evalMatch hrun he.choose hready) fun _ _ _ _ hv => matchValue hv

/-! ### Statements -/

theorem effect_le (st : Stmt) : L.effect inLoop ≤ L.stmtEffect inLoop scope st :=
  ⟨fun _ _ h => h.elim, fun _ h => h⟩

/-! ### Loops -/

/-- At the start of an iteration the scope of the body binds the variables of the loop only. -/
theorem enter (h : ∀ e ∈ (s.store.scope scope).values, e.1 ∈ names ∧
    L.stored (s.store.read e.2)) :
    K.Sound ε s (K.left.enter scope names) (K.right.enter scope names) fun t _ => t = s.store :=
  have entered : K.Sound ε s (Pure.pure ()) (Pure.pure ()) fun t _ => t = s.store := pure rfl
  entered.congr (fun _ => K.enter h) fun _ => rfl

theorem whileBody (hrun : K.Carries run run') {body : Block} (h : L.TidyStmts true [] body.body) :
    K.Sound ε s (run.whileBodyWith K.left.enter body scope)
      (run'.whileBodyWith K.right.enter body scope) (L.Done true) := by
  refine inScope (newScope scope) fun inner t _ _ hnew => ?_
  refine bind (enter fun e he => ?_) fun _ u _ _ hu => ?_
  · rw [hnew.2] at he
    exact absurd he List.not_mem_nil
  · exact statements hrun (by exact fun _ => .inl rfl) h (hu ▸ hnew.1) (Good.done trivial)

theorem whileTurns (hrun : K.Carries run run') {cond : Expr} {body : Block}
    (hcond : L.TidyExpr inLoop cond) (hbody : L.TidyStmts true [] body.body)
    (hready : L.ready s.store scope names) (n : Nat) :
    K.Sound (L.effect inLoop) s (run.whileTurnsWith K.left.enter cond body scope n)
      (run'.whileTurnsWith K.right.enter cond body scope n) (L.Done inLoop) := by
  induction n generalizing s with
  | zero => exact throw rfl
  | succ n ih =>
    unfold Runner.whileTurnsWith
    refine bind checkCancelled fun _ t₁ h₁ _ _ => ?_
    refine bind (hrun.expr hcond (L.ready_mono h₁ hready)) fun c t₂ h₂ _ hc => ?_
    refine bind (located cond.span (truthy hrun hc)) fun b t₃ h₃ _ _ => ?_
    split
    · refine bind (whileBody hrun hbody) fun v t₄ h₄ _ hv => ?_
      split
      · exact pure (Good.done trivial)
      · exact pure hv
      · exact ih (L.ready_mono (L.le_trans h₁ (L.le_trans h₂ (L.le_trans h₃ h₄))) hready)
    · exact pure (Good.done trivial)

theorem execWhile (hrun : K.Carries run run') {cond : Expr} {body : Block}
    (h : L.TidyStmt inLoop names (.whileLoop span cond body)) (hready : L.ready s.store scope names) :
    K.Sound (L.effect inLoop) s (run.execWhileWith K.left.enter span cond body scope)
      (run'.execWhileWith K.right.enter span cond body scope) (L.Done inLoop) :=
  bind (look (still_note _ _)) fun _ _ hst _ _ => thenNote _ _
    (whileTurns hrun h.whileLoop.1 h.whileLoop.2 (L.ready_mono hst hready) _)

/-- The scope of an iteration binds certain names only, to values without annotation. -/
def Holds (L : Law) (s : Store) (scope : ScopeId) (names : List Text) : Prop :=
  ∀ e ∈ (s.scope scope).values, e.1 ∈ names ∧ e.2 < s.cells.size ∧ L.stored (s.read e.2)

theorem Holds.bind {st t : Store} {name : Text} {more : List Text} (h : Holds L st scope names)
    (hv : L.stored v) (ht : st.bind scope name v false = .ok t) (hnames : names ⊆ more)
    (hname : name ∈ more) : Holds L t scope more := by
  rcases Store.bind_eq_ok ht with ⟨-, rfl⟩ | ⟨-, -, rfl⟩
  · exact fun e he => ⟨hnames (h e he).1, (h e he).2⟩
  · intro e he
    have hsize : (st.newCell v).2.cells.size = st.cells.size + 1 := Array.size_push _
    rcases Store.mem_values_bound he with ⟨-, rfl⟩ | he
    · exact ⟨hname, hsize ▸ Nat.lt_succ_self _, (Store.read_newCell_self (s := st)).symm ▸ hv⟩
    · obtain ⟨he, hlt, hstored⟩ := h e he
      exact ⟨hnames he, hsize ▸ Nat.lt_succ_of_lt hlt, (Store.read_newCell hlt).symm ▸ hstored⟩

theorem foreachBody (hrun : K.Carries run run') {value index : Text} {iterable : Expr} {body : Block}
    (h : L.TidyStmt inLoop names (.foreachLoop span value index iterable body)) {items : Items}
    (hitems : L.GoodItems s.store items) (i : Nat) :
    K.Sound ε s (run.foreachBodyWith K.left.enter value index items body scope i)
      (run'.foreachBodyWith K.right.enter value index items body scope i) (L.Done true) := by
  obtain ⟨-, hclean, hbody⟩ := h.foreachLoop
  have hspelled : L.tracks → value ≠ [] := by
    intro ht
    have hr := h.named ht
    simp only [NodeRule.spellable, Bool.and_eq_true] at hr
    exact Text.isName_ne_nil hr.1
  obtain ⟨hvalue, hindex⟩ := clean_append.1 hclean
  refine inScope (newScope scope) fun inner t hst _ hnew => ?_
  have started : ∀ u : State, Holds L u.store inner (Runner.loopNames value index) →
      L.ready u.store inner (Check.declareAll [] [value, index]) →
      K.Sound ⟨fun j n => j = inner ∨ ε.binds j n, ε.leaves⟩ u
        (do
          K.left.enter inner (Runner.loopNames value index)
          run.statements inner .nil body.body)
        (do
          K.right.enter inner (Runner.loopNames value index)
          run'.statements inner .nil body.body) (L.Done true) := by
    intro u hu hready
    refine bind (enter fun e he => ⟨(hu e he).1, (hu e he).2.2⟩) fun _ u' _ _ hu' => ?_
    exact statements hrun (by exact fun _ => .inl rfl) hbody (hu' ▸ hready) (Good.done trivial)
  refine bind (getItem (lasting_goodItems hst hitems) i) fun v t₁ _ _ hitem => ?_
  obtain ⟨hv, ht₁⟩ := hitem
  have hready : L.ready t₁.store inner [] := ht₁ ▸ hnew.1
  have hempty : Holds L t₁.store inner [] := fun e he => by
    rw [ht₁, hnew.2] at he
    exact absurd he List.not_mem_nil
  refine bind (bindName (Eval.define_eq ..) (by exact .inl rfl) hready hspelled
    (fun h => fresh_of_clean hvalue h) hv.1) fun _ t₂ _ _ hbound => ?_
  obtain ⟨hready, hbound⟩ := hbound
  split
  · next hi =>
    obtain rfl := List.isEmpty_iff.1 hi
    exact started t₂ (hempty.bind hv.2 hbound (List.nil_subset _) List.mem_cons_self) hready
  · next hi =>
    have hnames : Runner.loopNames value index = [value, index] := if_neg hi
    have hone : Holds L t₂.store inner [value] :=
      hempty.bind hv.2 hbound (List.nil_subset _) List.mem_cons_self
    refine bind (bindName (v := .number (Number.ofNat i)) (Eval.define_eq ..) (by exact .inl rfl) hready
      (fun _ h => hi (List.isEmpty_iff.2 h)) (fun h => fresh_of_clean (clean_append.1 hindex).1 h)
      trivial) fun _ t₃ _ _ hbound => started t₃ ?_ hbound.1
    rw [hnames]
    exact hone.bind (L.stored_raw (v := .number (Number.ofNat i)) (by rintro _ _ ⟨⟩)) hbound.2
      (by simp) (by simp)

theorem foreachTurns (hrun : K.Carries run run') {value index : Text} {iterable : Expr} {body : Block}
    (h : L.TidyStmt inLoop names (.foreachLoop span value index iterable body)) {items : Items}
    (hitems : L.GoodItems s.store items) (n i : Nat) :
    K.Sound (L.effect inLoop) s
      (run.foreachTurnsWith K.left.enter value index items body scope n i)
      (run'.foreachTurnsWith K.right.enter value index items body scope n i) (L.Done inLoop) := by
  induction n generalizing s i with
  | zero => exact pure (Good.done trivial)
  | succ n ih =>
    unfold Runner.foreachTurnsWith
    refine bind (foreachBody hrun h hitems i) fun v t hst _ hv => ?_
    split
    · exact pure (Good.done trivial)
    · exact pure hv
    · exact ih (lasting_goodItems hst hitems) (i + 1)

theorem execForeach (hrun : K.Carries run run') {value index : Text} {iterable : Expr} {body : Block}
    (h : L.TidyStmt inLoop names (.foreachLoop span value index iterable body))
    (hready : L.ready s.store scope names) :
    K.Sound (L.effect inLoop) s
      (run.execForeachWith K.left.enter span value index iterable body scope)
      (run'.execForeachWith K.right.enter span value index iterable body scope) (L.Done inLoop) := by
  unfold Runner.execForeachWith
  refine bind (hrun.expr h.foreachLoop.1 hready) fun v t _ _ hv => ?_
  refine bind (located iterable.span (items hrun hv).quiet) fun items t' _ _ hitems => ?_
  refine bind (look (still_note _ _)) fun _ t'' hle _ _ => ?_
  exact thenNote _ _ (foreachTurns hrun h (lasting_goodItems hle hitems) _ _)

/-! ### Conditionals and declarations -/

theorem execIf (hrun : K.Carries run run') {i : IfStmt} (h : L.TidyStmt inLoop names (.cond i))
    (hready : L.ready s.store scope names) :
    K.Sound (L.effect inLoop) s (run.execIf i scope) (run'.execIf i scope) (L.Done inLoop) := by
  obtain ⟨hcond, hyes, hblock, hchain⟩ := h.cond
  unfold Runner.execIf
  refine bind (hrun.expr hcond hready) fun c t hst _ hc => ?_
  refine bind (located i.cond.span (truthy hrun hc)) fun b u htu _ _ => ?_
  have hready : L.ready u.store scope names := L.ready_mono (L.le_trans hst htu) hready
  have quietly : ∀ {st : Stmt}, (∀ n, ¬ st.declares n) → L.TidyStmt inLoop names st →
      K.Sound (L.effect inLoop) u (run.stmt st scope) (run'.stmt st scope) (L.Done inLoop) :=
    fun hst htidy => (hrun.stmt htidy hready).mono
      ⟨fun _ n h => (hst n h.2).elim, fun _ h => h⟩ fun _ _ _ _ h => h.1
  split
  · exact block hrun hyes scope
  · split
    · next b hb => exact quietly (fun _ h => h) (hblock b hb)
    · next c hc => exact quietly (fun _ h => h) (hchain c hc)
    · exact pure (Good.done trivial)

/-- A declaration in the scope of a statement. -/
theorem declareName {st : Stmt} {name : Text} {constant : Bool} {x : Eval Unit}
    (hx : x = Eval.tryScope fun st => st.bind scope name v constant) (hε : st.declares name)
    (hready : L.ready s.store scope names)
    (hname : L.tracks → name ≠ []) (hclean : L.Clean (Check.declared names name span))
    (hv : L.Good s.store v) :
    K.Sound (L.stmtEffect inLoop scope st) s x x fun t _ =>
      L.ready t scope (Check.declare names name) :=
  (bindName (ε := L.stmtEffect inLoop scope st) hx ⟨rfl, hε⟩ hready hname
    (fun h => fresh_of_clean hclean h) hv).mono (Effect.le_refl _) fun _ _ _ _ h => h.1

theorem execDeclare (hrun : K.Carries run run') {name : Text} {constant : Bool}
    {type : Option TypeExpr} {value : Option Expr}
    (h : L.TidyStmt inLoop names (.declare span name constant type value))
    (hready : L.ready s.store scope names) :
    K.Sound (L.stmtEffect inLoop scope (.declare span name constant type value)) s
      (run.execDeclare name constant type value scope)
      (run'.execDeclare name constant type value scope) fun t v =>
        L.Done inLoop t v ∧ L.ready t scope (Check.declare names name) := by
  have hname : L.tracks → name ≠ [] := by
    intro ht
    have hr := h.named ht
    simp only [NodeRule.spellable, Bool.and_eq_true] at hr
    exact Text.isName_ne_nil hr.1
  have declared : ∀ (t : State) (v : Value), L.ready t.store scope names → L.Good t.store v →
      K.Sound (L.stmtEffect inLoop scope (.declare span name constant type value)) t
        (do
          let v ← Eval.annotated scope type v
          if constant then declareConstant scope name v else define scope name v
          return Value.nil)
        (do
          let v ← Eval.annotated scope type v
          if constant then declareConstant scope name v else define scope name v
          return Value.nil) fun t v =>
            L.Done inLoop t v ∧ L.ready t scope (Check.declare names name) := by
    intro t v hready hv
    refine bind (annotated scope type hv) fun w u _ _ hw => ?_
    have hready : L.ready u.store scope names := hw.2.1 ▸ hready
    split
    · exact map (declareName (Eval.declareConstant_eq ..) rfl hready hname h.declare.2 hw.1)
        fun _ _ _ h => ⟨trivial, h⟩
    · exact map (declareName (Eval.define_eq ..) rfl hready hname h.declare.2 hw.1)
        fun _ _ _ h => ⟨trivial, h⟩
  unfold Runner.execDeclare
  cases value with
  | none => exact declared s .nil hready trivial
  | some e =>
    exact bind_le (hrun.expr (h.declare.1 e rfl) hready) (effect_le _) fun v t hst _ hv =>
      declared t v (L.ready_mono hst hready) hv

end Law.Pairing.Sound

end ScriptLang
