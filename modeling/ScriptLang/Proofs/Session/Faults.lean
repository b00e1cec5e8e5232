import ScriptLang.Proofs.Eval.Faults
import ScriptLang.Proofs.Eval.Frame
import ScriptLang.Proofs.Session.Origins

/-!
# What programs fail with

A fault *arises* in a task when it comes up there without a place and the node gives it its own
(`Fault.ArisesIn`). From there it goes out through nodes, calls, methods that the language calls, the library
and imports, and nothing on the way changes it: a program that gets to a task in which a fault arises fails
with that fault, and a program that fails with a fault gets to a task in which it arises
(`Interpreter.HasRun.faults`). For the first half the evaluator is compared with one that stops at these
tasks; for the second half it is shown that the latter never fails with the fault.
-/

namespace ScriptLang

open Eval

/-- Whether a fault arises in a task: it comes up there without a place, and gets the place of the node. -/
def Fault.ArisesIn (f : Fault) (host : Host) (task : Task) (s : State) : Prop :=
  ∃ n g span, (evaluator n).Raises host g task s span ∧ g.span = none ∧ f = g.located span

open Classical in
/-- The tasks in which a fault arises. -/
noncomputable def Fault.arises (f : Fault) (host : Host) : Task → State → Bool :=
  fun task s => decide (f.ArisesIn host task s)

open Classical in
theorem Fault.arises_iff {f : Fault} {host : Host} {task : Task} {s : State} :
    f.arises host task s = true ↔ f.ArisesIn host task s :=
  decide_eq_true_iff

namespace Fault.ArisesIn

variable {f : Fault} {host : Host} {task : Task} {s : State}

theorem placed (h : f.ArisesIn host task s) : f.span ≠ none := by
  obtain ⟨n, g, span, -, -, rfl⟩ := h
  exact g.span_located span

/-- A task in which a fault arises fails with it, whatever the bound on depth, or gets to the bound. -/
theorem fails (h : f.ArisesIn host task s) (m : Nat) :
    Fails (evaluator m task) host s (.fault f) ∨ Fails (evaluator m task) host s .stuck := by
  obtain ⟨n, g, span, hraises, hg, rfl⟩ := h
  obtain ⟨t, ht⟩ := hraises.fails hg
  rcases Nat.le_total m (n + 1) with hle | hle
  · refine (evaluator_deepen hle task host s).imp (fun hsame => ?_) fails_iff.2
    exact ⟨t, hsame.symm.trans ht⟩
  · rcases evaluator_deepen hle task host s with hsame | hstuck
    · exact .inl ⟨t, hsame.trans ht⟩
    · rw [ht] at hstuck
      cases hstuck

end Fault.ArisesIn

/-- The evaluator that stops, with a word, at the tasks in which a fault arises. -/
noncomputable def Fault.stopping (f : Fault) (host : Host) (word : Text) : Variant where
  diverts := f.arises host
  instead := fun _ => throw (.cancelled word)

namespace Law

/-- Two runs of which the first has stopped with a word, and the second fails with a fault or gets to the
bound on depth. -/
def raising (f : Fault) (hf : f.span ≠ none) (host : Host) (word : Text) : frame.Pairing where
  hosts := fun h h' _ => h = host ∧ h' = host
  parts := fun l r => l.failure = some (.cancelled word) ∧
    (r.failure = some (.fault f) ∨ r.failure = some .stuck)
  parts_step := by
    intro l r l' r' h hleft hright _
    have hl : l' = l := hleft (by rw [h.1]; exact Option.some_ne_none _)
    have hr : r' = r := hright (by rcases h.2 with h | h <;> rw [h] <;> exact Option.some_ne_none _)
    rwa [hl, hr]
  parts_located := by
    refine fun span => ⟨fun h => ⟨?_, h.2⟩, fun h => ⟨h.1, ?_⟩⟩
    · rw [Option.some.inj h.1]
      rfl
    · rcases h.2 with h | h
      · rw [Option.some.inj h]
        exact .inl (congrArg (some ∘ Failure.fault) (Fault.located_of_span hf span))
      · rw [Option.some.inj h]
        exact .inr rfl
  parts_caught := by
    refine ⟨fun h => ?_, fun h => ?_⟩
    · cases h.1
    · rcases h.2 with h | h <;> cases h
  hosts_alike := by
    rintro h h' w ⟨rfl, rfl⟩
    exact .refl _
  write := by
    rintro h h' w ⟨rfl, rfl⟩
    exact .inl ⟨rfl, fun _ _ => ⟨rfl, rfl⟩⟩
  cancel := by
    rintro h h' w ⟨rfl, rfl⟩
    exact .inl rfl
  allowed := fun _ h => h

variable {f : Fault} {hf : f.span ≠ none} {host : Host} {word : Text} {n : Nat} {ε : Effect} {s : State}

/-! ### The two runs -/

/-- At a task in which the fault arises the two part. -/
theorem raising_diverted {task : Task} {Q : Store → Value → Prop}
    (hout : (frame.plain fun _ _ h => h).Sound ε s (evaluator (n + 1) task) (evaluator (n + 1) task) Q)
    (hstep : (raising f hf host word).Sound ε s ((evaluatorWith (f.stopping host word) n).step task)
      (evaluator (n + 1) task) Q) :
    (raising f hf host word).Sound ε s (evaluatorWith (f.stopping host word) (n + 1) task)
      (evaluator (n + 1) task) Q := by
  have hunfold : evaluatorWith (f.stopping host word) (n + 1) = Runner.diverted (f.stopping host word)
      (evaluatorWith (f.stopping host word) n).step :=
    congrArg (Runner.diverted _) (Runner.stepWith_usual _)
  rw [hunfold]
  by_cases harises : f.arises host task s = true
  · refine fun hs hstands => ⟨(hout hs trivial).1, ?_⟩
    rintro _ host ⟨rfl, rfl⟩
    refine .inr ⟨?_, ((Fault.arises_iff.1 harises).fails _).imp fails_iff.1 fails_iff.1⟩
    show (Ending.of (if _ then _ else _)).failure = _
    rw [show (f.stopping host word).diverts task s = true from harises, if_pos rfl]
    rfl
  · exact hstep.congr (fun _ => if_neg harises) fun _ => rfl

/-- The two runs are the same until they get to a task in which the fault arises. -/
theorem raising_carries :
    (raising f hf host word).Carries (evaluatorWith (f.stopping host word) n) (evaluator n) := by
  induction n with
  | zero => exact ⟨fun _ _ => .throw rfl, fun _ _ => .throw rfl, fun _ _ => .throw rfl⟩
  | succ n ih =>
    have hplain : (frame.plain fun _ _ h => h).Carries (evaluator (n + 1)) (evaluator (n + 1)) :=
      plain_carries fun _ _ h => h
    have hleft : (evaluatorWith (f.stopping host word) n).stepWith (raising f hf host word).left =
        (evaluatorWith (f.stopping host word) n).step := Runner.stepWith_usual _
    have hright : (evaluator n).stepWith (raising f hf host word).right = evaluator (n + 1) :=
      (raising f hf host word).stepWith_right _
    refine ⟨fun {inLoop e scope names s} he hready => ?_, fun {inLoop names st scope s} hst hready => ?_,
      fun {v args s} hv hargs => ?_⟩
    · have hstep := Pairing.Sound.stepExpr ih (.instantiate trivial ih) he hready id
      rw [hleft, hright] at hstep
      exact raising_diverted (hplain.expr he hready) hstep
    · have hstep := Pairing.Sound.stepStmt ih hst hready id fun _ _ _ _ _ => trivial
      rw [hleft, hright] at hstep
      exact raising_diverted (hplain.stmt hst hready) hstep
    · exact raising_diverted (hplain.call hv hargs) (.call trivial ih hv hargs)

/-! ### What comes up in the first run comes up in the second -/

section

variable {α : Type} {x y : Eval α} {Q : Store → α → Prop} {g : Fault} {scope : ScopeId}

/-- What does not stop in the first run is the same in the second. -/
theorem raising_same (h : (raising f hf host word).Sound ε s x y Q)
    (hx : (Ending.of (x host s)).failure ≠ some (.cancelled word)) : x host s = y host s :=
  ((h (inv_frame _) trivial).2 host host ⟨rfl, rfl⟩).elim And.left fun h => absurd h.1 hx

theorem raising_fails (h : (raising f hf host word).Sound ε s x y Q)
    (hx : x.Fails host s (.fault g)) : y.Fails host s (.fault g) := by
  obtain ⟨t, ht⟩ := hx
  rw [raising_same h (by rw [ht]; rintro ⟨⟩)] at ht
  exact ⟨t, ht⟩

theorem raising_ok {a : α} {t : State} (h : (raising f hf host word).Sound ε s x y Q)
    (hx : x host s = .ok a t) : y host s = .ok a t := by
  rw [← raising_same h (by rw [hx]; rintro ⟨⟩), hx]

/-- Nothing is asked of expressions. -/
theorem tidyExpr_frame (e : Expr) : frame.TidyExpr false e := universal_frame.tidyExpr false e

/-- Nothing is asked of statements. -/
theorem tidyStmt_frame (st : Stmt) : frame.TidyStmt false [] st := universal_frame.tidyStmt st

theorem tidyStmts_frame (ss : List Stmt) : frame.TidyStmts false [] ss :=
  ⟨universal_frame.clean _, universal_frame.follow⟩

theorem raising_expr (e : Expr) : (raising f hf host word).Sound (frame.effect false) s
    ((evaluatorWith (f.stopping host word) n).expr e scope) ((evaluator n).expr e scope) frame.Good :=
  raising_carries.expr (tidyExpr_frame e) (show frame.ready _ _ [] from trivial)

variable (hf)

theorem raising_test (e : Expr) : (raising f hf host word).Sound (frame.effect false) s
    ((evaluatorWith (f.stopping host word) n).test e scope) ((evaluator n).test e scope) fun _ _ => True :=
  .bind (raising_expr e) fun _ _ _ _ hv => .truthy raising_carries hv

theorem raising_visited (e : Expr) : (raising f hf host word).Sound (frame.effect false) s
    ((evaluatorWith (f.stopping host word) n).visited e scope) ((evaluator n).visited e scope)
    fun _ _ => True :=
  .bind (raising_expr e) fun _ _ _ _ hv => (Pairing.Sound.items raising_carries hv).quiet.forget

theorem raising_evalExpr (e : Expr) : (raising f hf host word).Sound (frame.effect false) s
    ((evaluatorWith (f.stopping host word) n).evalExpr e scope) ((evaluator n).evalExpr e scope)
    frame.Good := by
  have hready : frame.ready s.store scope [] := trivial
  have byRule (hnew : ∀ span span' callee args, e ≠ .construct span span' callee args) :
      (raising f hf host word).Sound (frame.effect false) s
        ((evaluatorWith (f.stopping host word) n).evalExpr e scope) ((evaluator n).evalExpr e scope)
        frame.Good :=
    .evalExpr raising_carries (tidyExpr_frame e) hready id hnew
  cases e with
  | construct span span' callee args =>
    exact .evalNew raising_carries (.instantiate trivial raising_carries)
      (tidyExpr_frame (.construct span span' callee args)) hready
  | _ => exact byRule (by rintro _ _ _ _ ⟨⟩)

theorem raising_execStmt (st : Stmt) : (raising f hf host word).Sound (frame.stmtEffect false scope st) s
    ((evaluatorWith (f.stopping host word) n).execStmt st scope) ((evaluator n).execStmt st scope)
    fun _ _ => True := by
  have hready : frame.ready s.store scope [] := trivial
  have byRule (hwhile : ∀ span cond body, st ≠ .whileLoop span cond body)
      (hforeach : ∀ span value index iterable body,
        st ≠ .foreachLoop span value index iterable body) :
      (raising f hf host word).Sound (frame.stmtEffect false scope st) s
        ((evaluatorWith (f.stopping host word) n).execStmt st scope) ((evaluator n).execStmt st scope)
        fun _ _ => True :=
    .forget (.execStmt raising_carries (tidyStmt_frame st) hready id (fun _ _ _ _ _ => trivial)
      hwhile hforeach)
  cases st with
  | whileLoop span cond body =>
    have hloop : (raising f hf host word).Sound (frame.effect false) s
        ((evaluatorWith (f.stopping host word) n).execWhileWith (fun _ _ => return) span cond body scope)
        ((evaluator n).execWhileWith (fun _ _ => return) span cond body scope) (frame.Done false) :=
      .execWhile raising_carries (tidyStmt_frame (.whileLoop span cond body)) hready
    rw [Runner.execWhileWith_usual, Runner.execWhileWith_usual] at hloop
    exact .forget (.stays hloop hready)
  | foreachLoop span value index iterable body =>
    have hloop : (raising f hf host word).Sound (frame.effect false) s
        ((evaluatorWith (f.stopping host word) n).execForeachWith (fun _ _ => return) span value index
          iterable body scope)
        ((evaluator n).execForeachWith (fun _ _ => return) span value index iterable body scope)
        (frame.Done false) :=
      .execForeach raising_carries (tidyStmt_frame (.foreachLoop span value index iterable body)) hready
    rw [Runner.execForeachWith_usual, Runner.execForeachWith_usual] at hloop
    exact .forget (.stays hloop hready)
  | _ => exact byRule (by rintro _ _ _ ⟨⟩) (by rintro _ _ _ _ _ ⟨⟩)

theorem raising_whileTurn (cond : Expr) (body : Block) :
    (raising f hf host word).Sound (frame.effect false) s
      ((evaluatorWith (f.stopping host word) n).whileTurn cond body scope)
      ((evaluator n).whileTurn cond body scope) fun _ _ => True := by
  unfold Runner.whileTurn
  refine .bind .checkCancelled fun _ _ _ _ _ => .bind (raising_expr cond) fun v _ _ _ hv => ?_
  refine .bind (.located cond.span (.truthy raising_carries hv)) fun b _ _ _ _ => ?_
  split
  · refine .bind (.block raising_carries (tidyStmts_frame body.body) scope) fun v _ _ _ _ => ?_
    split <;> exact .pure trivial
  · exact .pure trivial

/-- Iterations of the first run that go on are the same in the second. -/
theorem turns_of_stopping {cond : Expr} {body : Block} {m : Nat} {t : State} (hf : f.span ≠ none)
    (h : (evaluatorWith (f.stopping host word) n).Turns cond body scope host m s t) :
    (evaluator n).Turns cond body scope host m s t := by
  induction h with
  | none s => exact .none s
  | more hturn _ ih => exact .more (raising_ok (raising_whileTurn hf cond body) hturn) ih

/-- What comes up in the first run comes up in the second. -/
theorem raises_of_stopping {task : Task} {span : Span} (hf : f.span ≠ none)
    (h : (evaluatorWith (f.stopping host word) n).Raises host g task s span) :
    (evaluator n).Raises host g task s span := by
  cases h with
  | expr h => exact .expr (raising_fails (raising_evalExpr hf _) h)
  | stmt h => exact .stmt (raising_fails (raising_execStmt hf _) h)
  | cond h => exact .cond (raising_fails (raising_test hf _) h)
  | @loop span cond body scope m s t u hm hnote hturns h =>
    have htested : (raising f hf host word).Sound (frame.effect false) u
        (do checkCancelled; (evaluatorWith (f.stopping host word) n).test cond scope)
        (do checkCancelled; (evaluator n).test cond scope) fun _ _ => True :=
      .bind .checkCancelled fun _ _ _ _ _ => raising_test hf cond
    exact .loop hm hnote (turns_of_stopping hf hturns) (raising_fails htested h)
  | iterable h => exact .iterable (raising_fails (raising_visited hf _) h)

end

/-! ### The first run never fails with the fault -/

theorem stopping_relays (hf : f.span ≠ none) (task : Task) :
    Relays host (· ≠ .fault f) (evaluatorWith (f.stopping host word) n task) := by
  induction n generalizing task with
  | zero =>
    intro s e t h
    cases h
    exact .inl trivial
  | succ n ih =>
    intro s e t h
    refine .inr ?_
    rintro rfl
    have hunfold : evaluatorWith (f.stopping host word) (n + 1) =
        Runner.diverted (f.stopping host word) (evaluatorWith (f.stopping host word) n).step :=
      congrArg (Runner.diverted _) (Runner.stepWith_usual _)
    rw [hunfold] at h
    by_cases harises : f.arises host task s = true
    · have hstops : Runner.diverted (f.stopping host word) (evaluatorWith (f.stopping host word) n).step
          task host s = .error (.cancelled word) s := if_pos harises
      rw [hstops] at h
      cases h
    · have hstep : Runner.diverted (f.stopping host word) (evaluatorWith (f.stopping host word) n).step
          task host s = (evaluatorWith (f.stopping host word) n).step task host s := if_neg harises
      rw [hstep] at h
      obtain ⟨g, span, hg, hplaced, hraises⟩ := Runner.raised_step ih hf ⟨t, h⟩
      exact harises (Fault.arises_iff.2 ⟨n, g, span, raises_of_stopping hf hraises, hg, hplaced⟩)

end Law

/-! ### Programs -/

namespace Request

variable {r : Request} {f : Fault} {host : Host} {s : State} {n m : Nat}

theorem stopping_not_fails (hf : f.span ≠ none) (word : Text) :
    ¬ Fails (r.evalWith (f.stopping host word)) host s (.fault f) := by
  have hrun : ∀ task, Relays host (· ≠ .fault f) (evaluateWith (f.stopping host word) task) :=
    Law.stopping_relays hf
  cases r with
  | run b => exact (Relays.bind (.statements hrun globalScope .nil b.body) fun _ => .pure _).not_fails hf
  | stringify v => exact (Relays.map (.stringify v hrun)).not_fails hf

/-- Evaluators that agree on tasks agree on requests. -/
theorem sound_evalBy {K : Law.frame.Pairing} {run run' : Runner} (hrun : K.Carries run run') (r : Request) :
    K.Sound Law.programEffect s (r.evalBy run) (r.evalBy run') fun _ _ => True := by
  cases r with
  | run b =>
    exact .map (.statements hrun (fun _ => rfl) (Law.tidyStmts_frame b.body)
      (show Law.frame.ready _ _ [] from trivial) (Law.Good.done trivial)) fun _ _ _ _ => trivial
  | stringify v => exact .map (.quiet (.stringify hrun (Law.good_frame _ v))) fun _ _ _ _ => trivial

/-- A request is carried out in the same way by the evaluator that stops, until a fault arises. -/
theorem stopping_agrees (hf : f.span ≠ none) (word : Text) (n : Nat) :
    r.evalBy (evaluatorWith (f.stopping host word) n) host s = r.evalBy (evaluator n) host s ∨
      (Ending.of (r.evalBy (evaluatorWith (f.stopping host word) n) host s)).failure =
        some (.cancelled word) ∧
      (Fails (r.evalBy (evaluator n)) host s (.fault f) ∨
        Fails (r.evalBy (evaluator n)) host s .stuck) := by
  have hcarries : (Law.raising f hf host word).Carries (evaluatorWith (f.stopping host word) n)
      (evaluator n) := Law.raising_carries
  have hsound := sound_evalBy (s := s) hcarries r
  rcases (hsound (Law.inv_frame _) trivial).2 host host ⟨rfl, rfl⟩ with ⟨hsame, -⟩ | ⟨hstops, hends⟩
  · exact .inl hsame
  · exact .inr ⟨hstops, hends.imp fails_iff.2 fails_iff.2⟩

/-- A larger bound makes no difference to the evaluator that stops, unless it gets stuck. -/
theorem stopping_deepen (word : Text) (h : n ≤ m) :
    r.evalBy (evaluatorWith (f.stopping host word) m) host s =
        r.evalBy (evaluatorWith (f.stopping host word) n) host s ∨
      (Ending.of (r.evalBy (evaluatorWith (f.stopping host word) n) host s)).failure = some .stuck := by
  have hfree : ∀ task s, ¬ Law.frame.forbids task s := fun _ _ => id
  have hsound := sound_evalBy (s := s)
    (Law.deepening_stopping hfree (f.arises host) (rfl : (Failure.cancelled word).isPlain = true) h trivial) r
  exact ((hsound (Law.inv_frame _) trivial).2 host host ⟨rfl, trivial⟩).imp_left And.left

/-- A request that fails with a fault gets to a task in which it arises. -/
theorem arises_of_fails (hf : f.span ≠ none) (h : r.eval.Fails host s (.fault f)) :
    ¬ r.Bypasses (f.arises host) host s := by
  rintro ⟨word, hword⟩
  have hnot : ¬ Fails (r.evalWith (f.stopping host word)) host s (.fault f) := stopping_not_fails hf word
  obtain hsame | ⟨hstops, -⟩ := stopping_agrees (r := r) (s := s) hf word Store.depthLimit
  · obtain ⟨t, ht⟩ := h
    exact hnot ⟨t, hsame.trans ht⟩
  · exact hword hstops

/-- Under another bound the evaluator that stops does so as well, or is stuck before. -/
theorem stops_or_stuck {word : Text} (m : Nat)
    (h : (Ending.of (r.evalBy (evaluatorWith (f.stopping host word) n) host s)).failure =
      some (.cancelled word)) :
    (Ending.of (r.evalBy (evaluatorWith (f.stopping host word) m) host s)).failure =
        some (.cancelled word) ∨
      (Ending.of (r.evalBy (evaluatorWith (f.stopping host word) m) host s)).failure = some .stuck := by
  rcases Nat.le_total m n with hle | hle
  · rcases stopping_deepen word hle with hsame | hstuck
    · exact .inl ((congrArg (Ending.failure ∘ Ending.of) hsame).symm.trans h)
    · exact .inr hstuck
  · rcases stopping_deepen word hle with hsame | hstuck
    · exact .inl ((congrArg (Ending.failure ∘ Ending.of) hsame).trans h)
    · cases h.symm.trans hstuck

/-- A fault without a place arises nowhere, so nothing is stopped. -/
theorem stopping_eq (hf : f.span = none) (word : Text) :
    evaluatorWith (f.stopping host word) n = evaluator n := by
  have hnowhere : f.arises host = fun _ _ => false := by
    funext task s
    exact Bool.eq_false_iff.2 fun harises => (Fault.arises_iff.1 harises).placed hf
  unfold Fault.stopping
  rw [hnowhere, evaluatorWith_none]

/-- A request that gets to a task in which a fault arises fails with it under every bound on depth, or gets to
the bound. -/
theorem fails_of_arises (h : ¬ r.Bypasses (f.arises host) host s) (n : Nat) :
    Fails (r.evalBy (evaluator n)) host s (.fault f) ∨ Fails (r.evalBy (evaluator n)) host s .stuck := by
  have ends (word : Text) :
      (Fails (r.evalBy (evaluator n)) host s (.fault f) ∨ Fails (r.evalBy (evaluator n)) host s .stuck) ∨
        (Ending.of (r.evalBy (evaluator n) host s)).failure = some (.cancelled word) := by
    have hstops : (Ending.of (r.evalBy (evaluatorWith (f.stopping host word) Store.depthLimit)
        host s)).failure = some (.cancelled word) := by_contra fun hword => h ⟨word, hword⟩
    have hsame : r.evalBy (evaluatorWith (f.stopping host word) n) host s =
        r.evalBy (evaluator n) host s ∨
        (Fails (r.evalBy (evaluator n)) host s (.fault f) ∨
          Fails (r.evalBy (evaluator n)) host s .stuck) := by
      by_cases hf : f.span = none
      · exact .inl (by rw [stopping_eq hf])
      · exact (stopping_agrees hf word n).imp_right And.right
    rcases hsame with hsame | hends
    · rw [← hsame]
      exact (stops_or_stuck n hstops).symm.imp_left fun hstuck => .inr (fails_iff.2 (hsame ▸ hstuck))
    · exact .inl hends
  -- the word makes no difference
  rcases ends [] with hends | hnil
  · exact hends
  · rcases ends [0] with hends | hother
    · exact hends
    · cases hnil.symm.trans hother

end Request

/-! ### Interpreters -/

/-- Whether a span is that of a node of certain programs, or of a file with a text that it may have had when
it was imported. -/
def Imported.HasNode (imported : Imported) (programs : List Block) (span : Span) : Prop :=
  (∃ b ∈ programs, span ∈ Spans.block b) ∨
    ∃ file text b, imported file text = true ∧ Program.parse text file = .ok b ∧ span ∈ Spans.block b

namespace Interpreter

/-- The interpreters that have run certain programs, the last one first, and in doing so have imported files
with certain texts only. A value that a program gave may have been shown, and whatever is neither in the
store nor among the files kept after parsing may have changed in between. -/
inductive HasRun (imported : Imported) : List Block → Interpreter → Prop
  /-- A new interpreter. -/
  | new (host : Host) (files : Files) (dir : Text) (clock : Nat) :
    HasRun imported [] (Interpreter.new host files dir clock)
  /-- The run of a program. -/
  | run {bs i} (b : Block) : HasRun imported bs i →
    (Request.run b).Bypasses (Task.importsOther imported) i.host i.state →
    HasRun imported (b :: bs) (i.run b).2
  /-- The run of a program whose value is shown. -/
  | shown {bs i v} (b : Block) : HasRun imported bs i →
    (Request.run b).Bypasses (Task.importsOther imported) i.host i.state → (i.run b).1 = .ok v →
    (Request.stringify v).Bypasses (Task.importsOther imported)
      { (i.run b).2.host with cancelAfter := none } (i.run b).2.state →
    HasRun imported (b :: bs) ((i.run b).2.stringify v).2
  /-- A change of the surroundings. -/
  | outside {bs i j} : HasRun imported bs i → j.state.store = i.state.store →
    j.state.parsed = i.state.parsed → HasRun imported bs j

theorem fst_run_eq_error {i : Interpreter} {b : Block} {e : Failure} :
    (i.run b).1 = .error e ↔ Fails (Eval.program b) i.host i.state e := by
  refine ⟨run_eq_error, ?_⟩
  rintro ⟨t, ht⟩
  unfold run perform
  rw [ht]

namespace HasRun

variable {imported : Imported} {bs : List Block} {i : Interpreter} {b : Block}

/-- An interpreter holds code of the programs that it has run and of the files that these imported. -/
theorem twins {p : Span → Prop} {hp : ∀ file text b, imported file text = true →
    Program.parse text file = .ok b → Spans.Within p (Spans.block b)} (h : HasRun imported bs i)
    (hbs : ∀ b ∈ bs, Spans.Within p (Spans.block b)) : i.Twins (.importing p imported hp) i := by
  induction h with
  | new host files dir clock =>
    exact Interpreter.twins_new (Comparison.whole_importing _) rfl rfl
      ⟨rfl, fun _ h => absurd h List.not_mem_nil⟩ files _ _
  | run b _ hbypasses ih =>
    obtain ⟨hb, hbs⟩ := List.forall_mem_cons.1 hbs
    exact ((ih hbs).run hb hbypasses).2.1
  | shown b _ hbypasses hv hshown ih =>
    obtain ⟨hb, hbs⟩ := List.forall_mem_cons.1 hbs
    obtain ⟨-, htwins, hends⟩ := (ih hbs).run hb hbypasses
    rw [hv] at hends
    exact (htwins.stringify hends hshown).2
  | outside _ hstore hparsed ih =>
    obtain ⟨hwhole, -, -, ⟨_, _, -, hkept⟩, hsealed⟩ := ih hbs
    exact ⟨hwhole, rfl, rfl, ⟨_, _, rfl, hparsed ▸ hwhole.kept_self hkept⟩, hstore ▸ hsealed⟩

/-- The place of a fault is a node of the program, of one that was run before, or of an imported file. -/
theorem hasNode (h : HasRun imported bs i)
    (hbypasses : (Request.run b).Bypasses (Task.importsOther imported) i.host i.state) {f : Fault}
    (hf : (i.run b).1 = .error (.fault f)) :
    ∃ span, f.span = some span ∧ imported.HasNode (b :: bs) span := by
  have hplaced : Placed (Eval.program b) :=
    .bind (.statements Store.depthLimit globalScope .nil b.body) fun _ => .pure _
  obtain ⟨span, hspan⟩ := Option.ne_none_iff_exists'.1 (hplaced.span_ne_none (fst_run_eq_error.1 hf))
  have htwins : i.Twins (.importing (imported.HasNode (b :: bs)) imported
      fun file text b' htext hb' _ hnode => .inr ⟨file, text, b', htext, hb', hnode⟩) i :=
    h.twins fun b' hb' _ hnode => .inl ⟨b', List.mem_cons_of_mem b hb', hnode⟩
  have hends := (htwins.run (fun _ hnode => .inl ⟨b, List.mem_cons_self, hnode⟩) hbypasses).2.2
  rw [hf] at hends
  exact ⟨span, hspan, hends span hspan⟩

/-- Every fault that a program fails with has the place of a node: of the program, of one that the interpreter
has run before, or of an imported file. It is the first node on the way out, in which the fault arises, and
no other node, call, function of the library or import on the way changes the fault: a program fails with a
fault if and only if it gets to a task in which the fault arises, unless it gets to the bound on depth. This
is so whatever the bound. -/
theorem faults (h : HasRun imported bs i)
    (hbypasses : (Request.run b).Bypasses (Task.importsOther imported) i.host i.state) (f : Fault) :
    ((i.run b).1 = .error (.fault f) →
      (∃ span, f.span = some span ∧ imported.HasNode (b :: bs) span) ∧
        ¬ (Request.run b).Bypasses (f.arises i.host) i.host i.state) ∧
    (¬ (Request.run b).Bypasses (f.arises i.host) i.host i.state →
      ((i.run b).1 = .error (.fault f) ∨ (i.run b).1 = .error .stuck) ∧
      ∀ n, Fails ((Request.run b).evalBy (evaluator n)) i.host i.state (.fault f) ∨
        Fails ((Request.run b).evalBy (evaluator n)) i.host i.state .stuck) := by
  refine ⟨fun hf => ?_, fun harises => ⟨?_, Request.fails_of_arises harises⟩⟩
  · obtain ⟨span, hspan, hnode⟩ := h.hasNode hbypasses hf
    refine ⟨⟨span, hspan, hnode⟩, Request.arises_of_fails ?_ (fst_run_eq_error.1 hf)⟩
    exact hspan ▸ Option.some_ne_none span
  · exact (Request.fails_of_arises harises Store.depthLimit).imp fst_run_eq_error.2 fst_run_eq_error.2

end HasRun

end Interpreter

/-- A program that calls a function in which a sum fails. -/
def addsNil : Text := "fn f(x) \x7b return x + nil; \x7d\nf(1);"

/-- How the sum fails. -/
def sumFails : Fault where
  code := .typeMismatch
  message := "operator '+' cannot be applied to Number and Nil"
  span := some ⟨"main.em", 1, 18, 17, 24⟩

/-- The program fails with the fault of the sum, which arises there. -/
theorem addsNil_fails_at_sum : ∃ b, Program.parse addsNil "main.em" = .ok b ∧
    let i := Interpreter.new {} {} [] 0
    let imported : Imported := fun _ _ => false
    i.HasRun imported [] ∧ (Request.run b).Bypasses (Task.importsOther imported) i.host i.state ∧
      (i.run b).1 = .error (.fault sumFails) ∧
      (∃ span, sumFails.span = some span ∧ imported.HasNode [b] span) ∧
      ¬ (Request.run b).Bypasses (sumFails.arises i.host) i.host i.state := by
  have hfails : ((Program.parse addsNil "main.em").toOption.any fun b =>
      (Request.run b).bypasses (Task.importsOther fun _ _ => false) {} (Interpreter.new {} {} [] 0).state &&
        (Ending.of ((Request.run b).eval {} (Interpreter.new {} {} [] 0).state)).failure ==
          some (.fault sumFails)) = true := by decide +kernel
  obtain ⟨b, hb⟩ : ∃ b, Program.parse addsNil "main.em" = .ok b :=
    Session.exists_of_isOk (by decide +kernel)
  rw [hb] at hfails
  obtain ⟨hbypasses, hfailure⟩ := Bool.and_eq_true_iff.1 hfails
  have hrun : ((Interpreter.new {} {} [] 0).run b).1 = .error (.fault sumFails) :=
    Interpreter.fst_run_eq_error.2 (fails_iff.2 (beq_iff_eq.1 hfailure))
  have himports := Request.bypasses_of_bypasses hbypasses
  have hnew : Interpreter.HasRun (fun _ _ => false) [] (Interpreter.new {} {} [] 0) := .new {} {} [] 0
  exact ⟨b, hb, hnew, himports, hrun, (hnew.faults himports sumFails).1 hrun⟩

end ScriptLang
