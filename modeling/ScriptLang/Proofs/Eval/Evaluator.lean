import ScriptLang.Proofs.Eval.Imports

/-!
# The evaluator is in accordance with every law

One step of the evaluator keeps to a law if the runner for the tasks inside of it does, so all tasks do,
by induction on the depth of tasks inside of tasks. The same induction compares the two variants of a
pairing: they do the same until one of them is stopped, goes a way of its own or is cut off by its host.
-/

namespace ScriptLang

open Eval

namespace Law

theorem distinct_subset (methods : List FunctionDecl) : FunctionDecl.distinct methods ⊆ methods := by
  suffices key : ∀ (rest done : List FunctionDecl), done ⊆ methods → rest ⊆ methods →
      rest.foldl (fun ms m => ms.filter (fun n => n.name ≠ m.name) ++ [m]) done ⊆ methods from
    key methods [] (List.nil_subset _) (List.Subset.refl _)
  intro rest
  induction rest with
  | nil => exact fun done hdone _ => hdone
  | cons m rest ih =>
    intro done hdone hrest
    obtain ⟨hm, hrest⟩ := List.cons_subset.1 hrest
    refine ih _ (List.append_subset.2 ⟨?_, List.cons_subset.2 ⟨hm, List.nil_subset _⟩⟩) hrest
    exact fun n hn => hdone (List.mem_filter.1 hn).1

/-- The struct that tidy functions make up. -/
theorem good_declared {L : Law} {methods : List FunctionDecl} (h : ∀ m ∈ methods, L.TidyFunction m)
    (id : Nat) (name : Text) (fields : List Param) (scope : ScopeId) :
    L.GoodStruct (StructType.declared id name fields methods scope) := by
  refine ⟨fun m hm => h m (List.mem_filter.1 (distinct_subset _ hm)).1, fun c hc => ?_⟩
  exact h c (List.mem_reverse.1 (List.mem_of_find?_eq_some hc))

namespace Pairing.Sound

variable {L : Law} {K : L.Pairing} {ε : Effect} {s : State} {v w : Value} {run run' : Runner}
variable {inLoop : Bool} {scope : ScopeId} {names : List Text} {span : Span}
variable {α : Type} {Q : Store → α → Prop}

/-! ### Statements -/

/-- A statement that declares nothing leaves its scope ready for the same declarations. -/
theorem stays {x y : Eval Value} {st : Stmt} (hx : K.Sound (L.effect inLoop) s x y (L.Done inLoop))
    (hready : L.ready s.store scope names) :
    K.Sound (L.stmtEffect inLoop scope st) s x y fun t v =>
      L.Done inLoop t v ∧ L.ready t scope names :=
  hx.mono (effect_le st) fun _ _ hle _ hv => ⟨hv, L.ready_mono hle hready⟩

theorem execStmt (hrun : K.Carries run run') {st : Stmt} (h : L.TidyStmt inLoop names st)
    (hready : L.ready s.store scope names) (hallowed : ¬ L.forbids (.stmt st scope) s)
    (henters : st.ImportsFile → K.Enters)
    (hwhile : ∀ span cond body, st ≠ .whileLoop span cond body)
    (hforeach : ∀ span value index iterable body, st ≠ .foreachLoop span value index iterable body) :
    K.Sound (L.stmtEffect inLoop scope st) s (run.execStmt st scope) (run'.execStmt st scope)
      fun t v => L.Done inLoop t v ∧ L.ready t scope (Check.declare names (Check.declaredName st)) := by
  cases st with
  | expr _ e =>
    exact stays ((hrun.expr h.expr hready).mono (Effect.le_refl _) fun _ _ _ _ h => h.done) hready
  | block b => exact stays (block hrun h.block scope) hready
  | declare _ name constant type value => exact execDeclare hrun h hready
  | function decl =>
    have hname : L.tracks → decl.name ≠ [] := fun ht => Text.isName_ne_nil (h.named ht)
    refine bind_le newNumber (Effect.quiet_le _) fun n t hst _ _ => ?_
    exact map (declareName (Eval.define_eq ..) rfl (L.ready_mono hst hready) hname h.function.1
      h.function.2) fun _ _ _ h => ⟨trivial, h⟩
  | cond i => exact stays (execIf hrun h hready) hready
  | whileLoop => exact absurd rfl (hwhile _ _ _)
  | foreachLoop => exact absurd rfl (hforeach _ _ _ _ _)
  | importing _ name wildcard path =>
    exact map (importInto hrun henters h hready hallowed) fun _ _ _ h => ⟨trivial, h⟩
  | struct _ name fields methods =>
    have hname : L.tracks → name ≠ [] := by
      intro ht
      have hr := h.named ht
      simp only [NodeRule.spellable, Bool.and_eq_true] at hr
      exact Text.isName_ne_nil hr.1.1
    refine bind_le newNumber (Effect.quiet_le _) fun n t hst _ _ => ?_
    exact map (declareName (Eval.define_eq ..) rfl (L.ready_mono hst hready) hname h.struct.1
      (good_declared h.struct.2 n name fields scope)) fun _ _ _ h => ⟨trivial, h⟩
  | enum _ name members =>
    have hname : L.tracks → name ≠ [] := by
      intro ht
      have hr := h.named ht
      simp only [NodeRule.spellable, Bool.and_eq_true] at hr
      exact Text.isName_ne_nil hr.1
    refine bind_le (newObject fun e he => ?_) (Effect.quiet_le _) fun v t hst _ hv => ?_
    · obtain ⟨m, -, rfl⟩ := List.mem_map.1 he
      exact .of trivial (by rintro _ _ ⟨⟩)
    · exact map (declareName (Eval.declareConstant_eq ..) rfl (L.ready_mono hst hready) hname h.enum hv.1)
        fun _ _ _ h => ⟨trivial, h⟩
  | choose _ m => exact stays (evalMatch hrun h.choose hready) hready
  | breakLoop => exact pure ⟨TidyStmt.escapes h.1, hready⟩
  | continueLoop => exact pure ⟨TidyStmt.escapes h.1, hready⟩
  | returning _ value =>
    cases value with
    | none => exact pure ⟨trivial, hready⟩
    | some e => exact stays (map (hrun.expr h.returning hready) fun _ _ _ h => h) hready

/-! ### Tasks -/

theorem stepExpr (hrun : K.Carries run run') (hbuilds : K.Builds run run') {e : Expr}
    (he : L.TidyExpr inLoop e) (hready : L.ready s.store scope names)
    (hallowed : ¬ L.forbids (.expr e scope) s) :
    K.Sound (L.effect inLoop) s (run.stepWith K.left (.expr e scope))
      (run'.stepWith K.right (.expr e scope)) L.Good := by
  have byRule (h : ∀ span span' callee args, e ≠ .construct span span' callee args) :
      K.Sound (L.effect inLoop) s (run.stepWith K.left (.expr e scope))
        (run'.stepWith K.right (.expr e scope)) L.Good := by
    rw [Runner.stepWith_expr _ _ _ h, Runner.stepWith_expr _ _ _ h]
    exact located _ (evalExpr hrun he hready hallowed h)
  cases e with
  | construct => exact located _ (evalNew hrun hbuilds he hready)
  | _ => exact byRule nofun

theorem stepStmt (hrun : K.Carries run run') {st : Stmt} (h : L.TidyStmt inLoop names st)
    (hready : L.ready s.store scope names) (hallowed : ¬ L.forbids (.stmt st scope) s)
    (henters : st.ImportsFile → K.Enters) :
    K.Sound (L.stmtEffect inLoop scope st) s (run.stepWith K.left (.stmt st scope))
      (run'.stepWith K.right (.stmt st scope)) fun t v =>
        L.Done inLoop t v ∧ L.ready t scope (Check.declare names (Check.declaredName st)) := by
  have byRule (hwhile : ∀ span cond body, st ≠ .whileLoop span cond body)
      (hforeach : ∀ span value index iterable body,
        st ≠ .foreachLoop span value index iterable body) :
      K.Sound (L.stmtEffect inLoop scope st) s (run.stepWith K.left (.stmt st scope))
        (run'.stepWith K.right (.stmt st scope)) fun t v =>
          L.Done inLoop t v ∧ L.ready t scope (Check.declare names (Check.declaredName st)) := by
    rw [Runner.stepWith_stmt _ _ _ hwhile hforeach, Runner.stepWith_stmt _ _ _ hwhile hforeach]
    exact located _ (execStmt hrun h hready hallowed henters hwhile hforeach)
  cases st with
  | whileLoop => exact located _ (stays (execWhile hrun h hready) hready)
  | foreachLoop => exact located _ (stays (execForeach hrun h hready) hready)
  | _ => exact byRule nofun nofun

/-- A task that is carried out by the rules in both runs, or is done otherwise in the first. -/
theorem diverted_left {task : Task} {x : Eval Value} {Q : Store → Value → Prop}
    (htask : L.GoodTask s.store task) (h : K.Sound ε s (run task) x Q) :
    K.Sound ε s (run.diverted K.left task) x Q := by
  by_cases hdivert : K.left.diverts task s = true
  · refine fun hs hstands => ⟨(h hs hstands).1, fun host host' hh => ?_⟩
    obtain ⟨hle, hw⟩ := ((h hs hstands).1 host' (K.hosts_admits hh)).ending
    exact .inr (K.parts_divert hs htask hstands hdivert hle hw)
  · exact congr (fun _ => if_neg hdivert) (fun _ => rfl) h

/-- Where the second run is stopped, the two part. -/
theorem stopped {α : Type} {task : Task} {x : Eval α} {Q : Store → α → Prop}
    (hstop : K.stops task s = true) :
    K.Sound ε s x (MonadExcept.throw (Failure.cancelled K.stopped)) Q :=
  fun hs _ => ⟨fun _ _ => ⟨L.le_refl, .refl, hs, ends_plain rfl⟩,
    fun _ _ _ => .inr (K.parts_stop hstop _)⟩

/-- A task that is carried out by the rules in both runs, or is stopped in the second one or done
otherwise in the first. -/
theorem diverted {task : Task} {Q : Store → Value → Prop} (htask : L.GoodTask s.store task)
    (h : ¬ L.forbids task s → K.Sound ε s (run task) (run' task) Q) :
    K.Sound ε s (run.diverted K.left task) (run'.diverted K.right task) Q := by
  by_cases hstop : K.stops task s = true
  · exact (stopped hstop).congr (fun _ => rfl) fun _ => if_pos hstop
  · exact (diverted_left htask (h (K.allowed hstop))).congr (fun _ => rfl) fun _ => if_neg hstop

end Pairing.Sound

variable {L : Law} (K : L.Pairing)

/-- The two variants of the evaluator are in accordance with the law. -/
theorem Pairing.carries (n : Nat) (henters : K.Enters := by exact fun _ _ _ _ => trivial)
    (hbodies : L.bodies := by exact trivial) :
    K.Carries (evaluatorWith K.left n) (evaluatorWith K.right n) := by
  induction n with
  | zero => exact ⟨fun _ _ => .throw rfl, fun _ _ => .throw rfl, fun _ _ => .throw rfl⟩
  | succ n ih =>
    exact ⟨fun he hready => .diverted trivial fun h =>
        .stepExpr ih (Sound.instantiate hbodies ih) he hready h,
      fun hst hready => .diverted trivial fun h => .stepStmt ih hst hready h fun _ => henters,
      fun hf hargs => .diverted ⟨hf, hargs⟩ fun _ => .call hbodies ih hf hargs⟩

/-- In the second variant everything that is carried out is carried out by the rules. -/
theorem Pairing.stepWith_right (run : Runner) : run.stepWith K.right = run.step :=
  Runner.stepWith_usual run

/-- The second variant is the evaluator itself, unless it is stopped somewhere. -/
theorem Pairing.evaluator_right (h : K.stops = fun _ _ => false) (n : Nat) :
    evaluatorWith K.right n = evaluator n := by
  unfold Pairing.right
  rw [h]
  exact evaluatorWith_none _ n

/-- What the run of a program may do besides giving a value: it may bind names in the scope of the
whole program. -/
def programEffect : Effect := { binds := fun i _ => i = globalScope }

/-- The runs of a program are in accordance with the law, whatever runner the second one is of. -/
theorem Pairing.program {run' : Runner} (hrun : K.Carries (evaluateWith K.left) run') {s : State}
    {b : Block} (h : L.TidyStmts false [] b.body) (hready : L.ready s.store globalScope []) :
    K.Sound programEffect s (Eval.programWith K.left b)
      (do return (← run'.statements globalScope .nil b.body).unwrap) L.Good :=
  .bind (.statements hrun (fun _ => rfl) h hready (Good.done trivial)) fun _ _ _ _ hv => .finish hv

end Law

end ScriptLang
