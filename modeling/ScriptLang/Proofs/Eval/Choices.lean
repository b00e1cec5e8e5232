import ScriptLang.Proofs.Eval.Signals

/-!
# Choices as expressions and as statements

A choice is an expression, and it is a statement without a semicolon. As an expression it is one task
more, it has no signals as its value, and what fails in it gets its span. None of this makes a difference
to a program that is nothing but the choice: signals are caught and unwrapped at its end, and a fault
that leaves the choice has its place already (`program_choose`).
-/

namespace ScriptLang

open Eval

/-- Whether the faults that leave an evaluation have their place. -/
def Eval.Placed {α : Type} (x : Eval α) : Prop :=
  ∀ ⦃host s e t⦄, x host s = .error e t → ∀ span, e.located span = e

namespace Eval.Placed

variable {α β : Type} {x y : Eval α} {f : α → Eval β}

theorem located_eq (h : Placed x) (span : Span) : Eval.located span x = x := by
  funext host s
  unfold Eval.located
  cases hx : x host s with
  | ok a t => rfl
  | error e t => exact congrArg (EStateM.Result.error · t) (h hx span)

theorem located (x : Eval α) (span : Span) : Placed (Eval.located span x) := by
  intro host s e t h span'
  unfold Eval.located at h
  cases hx : x host s with
  | ok a t =>
    rw [hx] at h
    cases h
  | error e₁ t₁ =>
    rw [hx] at h
    cases h
    cases e₁ <;> rfl

theorem of_ok (h : ∀ host s, ∃ a t, x host s = .ok a t) : Placed x := by
  intro host s e t he
  obtain ⟨a, t', ha⟩ := h host s
  cases ha.symm.trans he

theorem pure (a : α) : Placed (Pure.pure a : Eval α) := of_ok fun _ s => ⟨a, s, rfl⟩

theorem throw {e : Failure} (he : ∀ span, e.located span = e) :
    Placed (MonadExcept.throw e : Eval α) := by
  intro host s e t h
  cases h
  exact he

theorem bind (hx : Placed x) (hf : ∀ a, Placed (f a)) : Placed (x >>= f) := by
  intro host s e t h
  rw [bind_apply] at h
  cases hr : x host s with
  | ok a t =>
    rw [hr] at h
    exact hf a h
  | error e t =>
    rw [hr] at h
    cases h
    exact hx hr

theorem ite {c : Prop} [Decidable c] (hx : Placed x) (hy : Placed y) :
    Placed (if c then x else y) := by
  split
  · exact hx
  · exact hy

theorem orStuck (a : Option α) : Placed (Eval.orStuck a) := by
  cases a with
  | none => exact throw fun _ => rfl
  | some a => exact pure a

theorem catchLoop {x : Eval Value} (h : Placed x) : Placed (Eval.catchLoop x) := by
  intro host s e t he
  unfold Eval.catchLoop at he
  cases hx : x host s with
  | ok a t =>
    rw [hx] at he
    cases he
  | error e₁ t₁ =>
    rw [hx] at he
    cases e₁ with
    | loop c => cases he
    | _ =>
      cases he
      exact h hx

/-! ### Tasks -/

theorem expr (n : Nat) (e : Expr) (scope : ScopeId) : Placed ((evaluator n).expr e scope) := by
  cases n with
  | zero => exact throw fun _ => rfl
  | succ n => exact located _ _

theorem stmt (n : Nat) (st : Stmt) (scope : ScopeId) : Placed ((evaluator n).stmt st scope) := by
  cases n with
  | zero => exact throw fun _ => rfl
  | succ n => exact located _ _

theorem checkCancelled : Placed Eval.checkCancelled := by
  unfold Eval.checkCancelled
  refine bind (of_ok fun _ s => ⟨_, s, rfl⟩) fun stops => ?_
  exact ite (throw fun _ => rfl) (pure _)

theorem statements (n : Nat) (scope : ScopeId) (result : Value) (ss : List Stmt) :
    Placed ((evaluator n).statements scope result ss) := by
  induction ss generalizing result with
  | nil => exact pure _
  | cons st rest ih =>
    unfold Runner.statements
    refine bind checkCancelled fun _ => bind (catchLoop (stmt n st scope)) fun v => ?_
    exact ite (pure _) (ih v)

theorem block (n : Nat) (b : Block) (scope : ScopeId) : Placed ((evaluator n).block b scope) :=
  bind (of_ok fun _ _ => ⟨_, _, rfl⟩) fun _ => statements n _ _ _

theorem evalArms (n : Nat) (v : Value) (scope : ScopeId) (arms : List MatchArm) :
    Placed ((evaluator n).evalArms v scope arms) := by
  induction arms with
  | nil => exact pure _
  | cons arm rest ih =>
    obtain ⟨span, pattern, body⟩ := arm
    -- An arm that is tested is carried out if the test says so.
    have test {x : Eval Value} (hx : Placed x) (p : Expr) : Placed ((evaluator n).expr p scope >>= fun w =>
        store >>= fun st => Eval.orStuck (st.equal? v w) >>= fun taken =>
          if taken then x else (evaluator n).evalArms v scope rest) :=
      bind (expr n p scope) fun w => bind (of_ok fun _ s => ⟨_, s, rfl⟩) fun st =>
        bind (orStuck _) fun _ => ite hx ih
    cases body with
    | block b =>
      cases pattern with
      | none => exact block n b scope
      | some p => exact test (block n b scope) p
    | value _ e =>
      cases pattern with
      | none => exact stmt n _ scope
      | some p => exact test (stmt n _ scope) p

theorem evalMatch (n : Nat) (m : MatchExpr) (scope : ScopeId) :
    Placed ((evaluator n).evalMatch m scope) :=
  bind (expr n _ scope) fun _ => evalArms n _ scope _

theorem matchValue (v : Value) : Placed (Runner.matchValue v) := by
  cases v with
  | breakSignal | continueSignal => exact throw fun _ => rfl
  | _ => exact pure _

end Eval.Placed

theorem Value.unwrap_of_signalFree {v : Value} (h : v.signalFree = true) : v.unwrap = v := by
  cases v with
  | breakSignal | continueSignal | returnSignal => cases h
  | _ => rfl

/-- A program of one statement. -/
theorem Request.evalBy_single (run : Runner) (span : Span) (st : Stmt) :
    (Request.run ⟨span, [st]⟩).evalBy run =
      checkCancelled >>= fun _ => Value.unwrap <$> catchLoop (run.stmt st globalScope) := by
  have hsingle : run.statements globalScope .nil [st] =
      checkCancelled >>= fun _ => catchLoop (run.stmt st globalScope) := by
    show (checkCancelled >>= fun _ => catchLoop (run.stmt st globalScope) >>= fun v =>
      if v.isSignal = true then pure v else pure v) = _
    simp only [ite_self, bind_pure]
  rw [Request.evalBy, hsingle]
  simp only [bind_pure_comp, map_bind]

/-- A choice as a statement. -/
theorem evaluator_choose (n : Nat) (span : Span) (m : MatchExpr) (scope : ScopeId) :
    (evaluator (n + 1)).stmt (.choose span m) scope = (evaluator n).evalMatch m scope :=
  (Placed.evalMatch n m scope).located_eq span

/-- A choice as an expression that is all of a statement. -/
theorem evaluator_expr_choose (n : Nat) (span : Span) (m : MatchExpr) (scope : ScopeId) :
    (evaluator (n + 2)).stmt (.expr span (.choose m)) scope =
      (evaluator n).evalMatch m scope >>= Runner.matchValue := by
  have hplaced := (Placed.evalMatch n m scope).bind Placed.matchValue
  exact (congrArg (Eval.located span) (hplaced.located_eq m.span)).trans (hplaced.located_eq span)

/-- The runs of a choice with a bound on depth and with the next one. -/
theorem evaluator_evalMatch (n : Nat) (m : MatchExpr) (scope : ScopeId) (host : Host) {s : State}
    (hs : s.store.SignalFree) :
    ((Ending.of ((evaluator n).evalMatch m scope host s)).failure = some .stuck ∨
      (evaluator (n + 1)).evalMatch m scope host s = (evaluator n).evalMatch m scope host s) ∧
      ∀ v t, (evaluator n).evalMatch m scope host s = .ok (.returnSignal v) t → v.signalFree = true := by
  have hfree : ∀ task s, ¬ Law.signalless.forbids task s := fun _ _ => id
  have hall := Law.universal_signalless
  have hm : Law.signalless.TidyChoice true m := ⟨hall.clean _, hall.follow⟩
  have hready : Law.signalless.ready s.store scope [] := hall.ready
  have hsound := Law.Pairing.Sound.evalMatch (Law.deepening_carries hfree (Nat.le_succ n)) hm hready
    (Law.inv_signalless.2 hs) trivial
  refine ⟨(hsound.2 host host ⟨rfl, trivial⟩).symm.imp_right And.left, fun v t hv => ?_⟩
  have hout := hsound.1 host trivial
  rw [hv] at hout
  exact Law.good_signalless.1 hout.2.2.2

theorem checkCancelled_eq_ok {host : Host} {s t : State} {u : Unit}
    (h : checkCancelled host s = .ok u t) : t = s := by
  unfold checkCancelled isCancelled at h
  replace h : (if (host.cancelAfter.any (· ≤ s.writes.size)) = true
      then throw (.cancelled "evaluation stopped") else pure () : Eval Unit) host s = .ok u t := h
  split at h
  · cases h
  · cases h
    rfl

theorem catchLoop_stuck {x : Eval Value} (f : Value → Eval Value) {host : Host} {s : State}
    (h : (Ending.of (x host s)).failure = some .stuck) :
    (Ending.of ((Value.unwrap <$> catchLoop (x >>= f)) host s)).failure = some .stuck := by
  rw [map_eq_pure_bind, bind_apply]
  unfold catchLoop
  rw [bind_apply]
  cases hx : x host s with
  | ok v t =>
    rw [hx] at h
    cases h
  | error e t =>
    rw [hx] at h
    cases h
    rfl

/-- At the end of a program it makes no difference whether a choice was an expression. -/
theorem catchLoop_matchValue {x y : Eval Value} {host : Host} {s : State} (h : y host s = x host s)
    (hreturn : ∀ v t, x host s = .ok (.returnSignal v) t → v.signalFree = true) :
    (Value.unwrap <$> catchLoop y) host s =
      (Value.unwrap <$> catchLoop (x >>= Runner.matchValue)) host s := by
  rw [map_eq_pure_bind, map_eq_pure_bind, bind_apply, bind_apply]
  unfold catchLoop
  rw [bind_apply, h]
  cases hx : x host s with
  | error e t => rfl
  | ok v t =>
    cases v with
    | returnSignal v =>
      show EStateM.Result.ok v t = .ok v.unwrap t
      rw [Value.unwrap_of_signalFree (hreturn v t hx)]
    | _ => rfl

/-- A choice that is all of a program does the same as a statement and as an expression, which is one task
more. -/
theorem Request.evalBy_choose (span span' sp sp' : Span) (m : MatchExpr) (host : Host) {s : State}
    (hs : s.store.SignalFree) (n : Nat) :
    (Request.run ⟨span', [.choose sp' m]⟩).evalBy (evaluator (n + 1)) host s =
      (Request.run ⟨span, [.expr sp (.choose m)]⟩).evalBy (evaluator (n + 2)) host s := by
  rw [evalBy_single, evalBy_single, evaluator_choose, evaluator_expr_choose, bind_apply, bind_apply]
  cases hcancel : checkCancelled host s with
  | error e t => rfl
  | ok u t =>
    obtain rfl := checkCancelled_eq_ok hcancel
    exact catchLoop_matchValue rfl (evaluator_evalMatch n m globalScope host hs).2

/-- Under the bound of a run, a choice that is all of a program does the same as a statement and as an
expression, unless it gets stuck. -/
theorem Eval.program_choose (span span' sp sp' : Span) (m : MatchExpr) (host : Host) {s : State}
    (hs : s.store.SignalFree) :
    (Ending.of (Eval.program ⟨span, [.expr sp (.choose m)]⟩ host s)).failure = some .stuck ∨
      Eval.program ⟨span', [.choose sp' m]⟩ host s =
        Eval.program ⟨span, [.expr sp (.choose m)]⟩ host s := by
  obtain ⟨n, hn⟩ : ∃ n, Store.depthLimit = n + 2 := ⟨Store.depthLimit - 2, by decide⟩
  have hprogram (b : Block) : Eval.program b = (Request.run b).evalBy (evaluator Store.depthLimit) := rfl
  rw [hprogram, hprogram, hn, Request.evalBy_single, Request.evalBy_single, evaluator_choose,
    evaluator_expr_choose, bind_apply, bind_apply]
  cases hcancel : checkCancelled host s with
  | error e t => exact .inr rfl
  | ok u t =>
    obtain rfl := checkCancelled_eq_ok hcancel
    obtain ⟨hstuck | hsame, hreturn⟩ := evaluator_evalMatch n m globalScope host hs
    · exact .inl (catchLoop_stuck Runner.matchValue hstuck)
    · exact .inr (catchLoop_matchValue hsame hreturn)

end ScriptLang
