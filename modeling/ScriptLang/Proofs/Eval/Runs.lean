import ScriptLang.Proofs.Eval.Evaluator
import ScriptLang.Session

/-!
# Runs

A *request* is what an interpreter is asked to do: to run a program, or to give the text of a value that
an earlier run gave. A request *avoids* certain tasks when it never gets to one of them, and it *passes*
a state when it gets to some task in that state. Both are said by way of variants of the evaluator: what
would be done instead of a task makes no difference if that task never comes up.

The states that any use of interpreters can lead to are those that are `Reached` from a new one by
requests, one after another, and those that such requests pass. A law that holds of all programs holds
in all of them: `Law.reached` is the induction over requests, and `Law.passes` goes into a single one.
-/

namespace ScriptLang

open Eval

/-- The state that an evaluation ends in, with a value or without. -/
def Eval.after {α : Type} (x : Eval α) (host : Host) (s : State) : State :=
  match x host s with
  | .ok _ t => t
  | .error _ t => t

open Classical in
/-- The task in a state. -/
noncomputable def Task.at (task : Task) (s : State) : Task → State → Bool :=
  fun task' s' => decide (task' = task ∧ s' = s)

open Classical in
theorem Task.eq_of_at {task task' : Task} {s s' : State} (h : task.at s task' s' = true) :
    task' = task ∧ s' = s :=
  of_decide_eq_true h

theorem Task.at_self (task : Task) (s : State) : task.at s task s = true := by simp [Task.at]

/-- What an interpreter is asked to do. -/
inductive Request where
  /-- Run a program. -/
  | run (b : Block)
  /-- Give the text of a value. -/
  | stringify (v : Value)

namespace Request

/-- The values that a request is about. -/
def values : Request → List Value
  | run _ => []
  | stringify v => [v]

/-- What is done about a request. -/
def eval : Request → Eval Value
  | run b => Eval.program b
  | stringify v => return .text (← evaluate.stringify v)

/-- What is done about a request in a variant of the evaluator. -/
def evalWith (x : Variant) : Request → Eval Value
  | run b => Eval.programWith x b
  | stringify v => return .text (← (evaluateWith x).stringify v)

/-- What a runner does about a request. -/
def evalBy (run : Runner) : Request → Eval Value
  | .run b => return (← run.statements globalScope .nil b.body).unwrap
  | stringify v => return .text (← run.stringify v)

/-- Whether a request never gets to one of certain tasks: whatever is done instead of them, the outcome
is the same. -/
def Avoids (diverts : Task → State → Bool) (r : Request) (host : Host) (s : State) : Prop :=
  ∀ instead : Runner, r.evalWith { diverts, instead } host s = r.eval host s

/-- Whether a request passes a state: it gets to some task in that state. -/
def Passes (r : Request) (host : Host) (s t : State) : Prop :=
  ∃ task : Task, ¬ r.Avoids (task.at t) host s

/-- What is done instead of no task at all makes no difference. -/
theorem avoids_none (r : Request) (host : Host) (s : State) :
    r.Avoids (fun _ _ => false) host s := by
  intro instead
  have hsame : evaluateWith { instead } = evaluate := evaluatorWith_none _ _
  cases r with
  | run b =>
    unfold evalWith Eval.programWith
    rw [hsame]
    rfl
  | stringify v =>
    unfold evalWith
    rw [hsame]
    rfl

/-- Whatever failure takes the place of the first statement of a program that is not cancelled is that of
the program. -/
theorem evalWith_start {span : Span} {st : Stmt} {rest : List Stmt} {host : Host}
    (hhost : host.cancelAfter = none) (s : State) {e : Failure} (he : e.isPlain = true) :
    (Request.run ⟨span, st :: rest⟩).evalWith
      { diverts := (Task.stmt st globalScope).at s, instead := fun _ => throw e } host s =
        .error e s := by
  have free : checkCancelled host s = .ok () s := by
    unfold checkCancelled isCancelled
    show (if (host.cancelAfter.any _) = true then _ else _ : Eval Unit) host s = _
    rw [hhost]
    rfl
  let x : Variant := { diverts := (Task.stmt st globalScope).at s, instead := fun _ => throw e }
  have hstep : evaluateWith x =
      Runner.diverted x ((evaluatorWith x (Store.depthLimit - 1)).stepWith x) := rfl
  have hinstead : (evaluateWith x).stmt st globalScope host s = .error e s := by
    rw [hstep]
    exact if_pos (Task.at_self _ _)
  have hfirst : catchLoop ((evaluateWith x).stmt st globalScope) host s = .error e s := by
    unfold catchLoop
    rw [hinstead]
    cases e with
    | loop => cases he
    | _ => rfl
  show ((evaluateWith x).statements globalScope .nil (st :: rest) >>= x.finish) host s = _
  rw [bind_apply, Runner.statements, bind_apply, free]
  dsimp only
  rw [bind_apply, hfirst]

/-- A program that is not cancelled passes the state it starts in. -/
theorem passes_start {span : Span} {st : Stmt} {rest : List Stmt} {host : Host}
    (hhost : host.cancelAfter = none) (s : State) :
    (Request.run ⟨span, st :: rest⟩).Passes host s s := by
  refine ⟨.stmt st globalScope, fun havoids => ?_⟩
  have fails (e : Failure) (he : e.isPlain = true) :
      (Request.run ⟨span, st :: rest⟩).eval host s = .error e s :=
    (havoids fun _ => throw e).symm.trans (evalWith_start hhost s he)
  cases (fails .stuck rfl).symm.trans (fails .crash rfl)

theorem avoids_of_eq {diverts : Task → State → Bool} {r : Request} {host : Host} {s : State}
    {outcome : EStateM.Result Failure State Value} (h : r.eval host s = outcome)
    (hd : ∀ instead : Runner, r.evalWith { diverts, instead } host s = outcome) :
    r.Avoids diverts host s :=
  fun instead => (hd instead).trans h.symm

end Request

/-- The states, and the values of earlier runs, that interpreters are left with after requests. All
that is asked of a request is `allowed`, and whatever is not in the store may change in between. -/
inductive Reached (allowed : Request → Host → State → Prop) : State → List Value → Prop
  /-- A new interpreter. -/
  | new (host : Host) (files : Files) (dir : Text) (clock : Nat) :
    Reached allowed (Interpreter.new host files dir clock).state []
  /-- A request that is met. -/
  | gives {s t vs v} (r : Request) (host : Host) : Reached allowed s vs → r.values ⊆ vs →
    allowed r host s → r.eval host s = .ok v t → Reached allowed t (v :: vs)
  /-- A request that fails. -/
  | fails {s t vs e} (r : Request) (host : Host) : Reached allowed s vs → r.values ⊆ vs →
    allowed r host s → r.eval host s = .error e t → Reached allowed t vs
  /-- A change of the surroundings. -/
  | outside {s t vs} : Reached allowed s vs → t.store = s.store → Reached allowed t vs

/-- Whatever becomes of a request, it leads to a reached state. -/
theorem Reached.after {allowed : Request → Host → State → Prop} {s : State} {vs : List Value}
    (h : Reached allowed s vs) {r : Request} {host : Host} (hr : r.values ⊆ vs)
    (hallowed : allowed r host s) : ∃ vs, Reached allowed (r.eval.after host s) vs := by
  unfold Eval.after
  cases heq : r.eval host s with
  | ok v t => exact ⟨v :: vs, .gives r host h hr hallowed heq⟩
  | error e t => exact ⟨vs, .fails r host h hr hallowed heq⟩

/-- Any use of interpreters. -/
abbrev anyUse : Request → Host → State → Prop := fun _ _ _ => True

/-! ### Interpreters and sessions -/

theorem Interpreter.run_eq_error {i : Interpreter} {b : Block} {e : Failure}
    (h : (i.run b).1 = .error e) : ∃ t, Eval.program b i.host i.state = .error e t := by
  unfold Interpreter.run Interpreter.perform at h
  cases hr : Eval.program b i.host i.state with
  | ok v t =>
    rw [hr] at h
    cases h
  | error e' t =>
    rw [hr] at h
    cases h
    exact ⟨t, rfl⟩

variable {allowed : Request → Host → State → Prop} {vs : List Value}

theorem Interpreter.reached_run {i : Interpreter} (h : Reached allowed i.state vs) (b : Block)
    (hb : allowed (.run b) i.host i.state) :
    ∃ vs, Reached allowed (i.run b).2.state vs ∧ ∀ v, (i.run b).1 = .ok v → v ∈ vs := by
  unfold Interpreter.run Interpreter.perform
  cases hr : Eval.program b i.host i.state with
  | ok v t =>
    refine ⟨v :: vs, .gives (.run b) i.host h (List.nil_subset _) hb hr, fun w hw => ?_⟩
    cases hw
    exact List.mem_cons_self
  | error e t =>
    refine ⟨vs, .outside (.fails (.run b) i.host h (List.nil_subset _) hb hr) ?_, nofun⟩
    dsimp only [Interpreter.reporting]
    split <;> rfl

theorem Interpreter.host_run (i : Interpreter) (b : Block) : (i.run b).2.host = i.host := by
  unfold Interpreter.run Interpreter.perform Interpreter.reporting
  cases Eval.program b i.host i.state with
  | ok v t => rfl
  | error e t =>
    dsimp only
    split <;> rfl

/-- An input of a session leaves the interpreter as it was, or as the run of a program leaves it in which
the checks find nothing. -/
theorem Session.interpreter_feed (session : Session) (line : Text) :
    ((session.feed line).2.interpreter = session.interpreter ∧
      ∀ v, (session.feed line).1 ≠ .value v) ∨
    ∃ b, Program.check b = [] ∧ (session.feed line).2.interpreter = (session.interpreter.run b).2 ∧
      ∀ v, (session.feed line).1 = .value v → (session.interpreter.run b).1 = .ok v := by
  have executed (b : Block) :
      ((session.reset.execute b).2.interpreter = session.interpreter ∧
        ∀ v, (session.reset.execute b).1 ≠ .value v) ∨
      ∃ b', Program.check b' = [] ∧
        (session.reset.execute b).2.interpreter = (session.interpreter.run b').2 ∧
        ∀ v, (session.reset.execute b).1 = .value v → (session.interpreter.run b').1 = .ok v := by
    unfold Session.execute
    dsimp only
    split
    · exact .inl ⟨rfl, nofun⟩
    · next hchecked =>
      have hchecked : Program.check b = [] := by simpa using hchecked
      refine .inr ⟨b, hchecked, ?_⟩
      split
      · next v i hr =>
        refine ⟨(congrArg Prod.snd hr).symm, fun w hw => ?_⟩
        cases hw
        exact congrArg Prod.fst hr
      · next e i hr => exact ⟨(congrArg Prod.snd hr).symm, nofun⟩
  unfold Session.feed
  generalize (if session.isPending then session.pending ++ "\n" ++ line else line) = source
  dsimp only
  split
  · exact .inl ⟨rfl, nofun⟩
  · split
    · exact .inl ⟨rfl, nofun⟩
    · exact .inl ⟨rfl, nofun⟩
    · exact executed _

theorem Session.host_feed (session : Session) (line : Text) :
    (session.feed line).2.interpreter.host = session.interpreter.host := by
  rcases session.interpreter_feed line with ⟨heq, -⟩ | ⟨b, -, heq, -⟩
  · rw [heq]
  · rw [heq, Interpreter.host_run]

/-- Sessions lead to nothing but reached states. -/
theorem Session.reached_feed {session : Session} (h : Reached allowed session.interpreter.state vs)
    (hallowed : ∀ b, Program.check b = [] →
      allowed (.run b) session.interpreter.host session.interpreter.state) (line : Text) :
    ∃ vs, Reached allowed (session.feed line).2.interpreter.state vs ∧
      ∀ v, (session.feed line).1 = .value v → v ∈ vs := by
  rcases session.interpreter_feed line with ⟨heq, hno⟩ | ⟨b, hb, heq, hvalue⟩
  · exact ⟨vs, heq ▸ h, fun v hv => absurd hv (hno v)⟩
  · obtain ⟨vs, hvs, hmem⟩ := Interpreter.reached_run h b (hallowed b hb)
    exact ⟨vs, heq ▸ hvs, fun v hv => hmem v (hvalue v hv)⟩

/-- A session after more inputs. -/
def Session.feeds (session : Session) (lines : List Text) : Session :=
  lines.foldl (fun session line => (session.feed line).2) session

theorem Interpreter.perform_note (i : Interpreter) (message : Text)
    (details : List (Text × LogValue)) :
    (i.perform (note message details)).2.host = i.host ∧
      (i.perform (note message details)).2.state.store = i.state.store := by
  have hmoved := (still_note message details i.host i.state).1
  unfold Interpreter.perform
  cases hr : note message details i.host i.state with
  | ok v t =>
    rw [hr] at hmoved
    exact ⟨rfl, hmoved.1.store⟩
  | error e t =>
    rw [hr] at hmoved
    exact ⟨rfl, hmoved.1.store⟩

theorem Program.check_of_accept {source file : Text} {b : Block}
    (h : Program.accept source file = .ok b) : Program.check b = [] := by
  unfold Program.accept at h
  split at h
  · cases h
  · split at h
    · next hb =>
      cases h
      exact List.isEmpty_iff.1 hb
    · cases h

/-- So do runs of program texts. -/
theorem Settings.reached_run (settings : Settings) (files : Files) (source file : Text)
    (hallowed : ∀ b s, Program.check b = [] → allowed (.run b) settings.host s) :
    ∃ vs, Reached allowed (settings.run files source file).2.state vs ∧
      ∀ v, (settings.run files source file).1 = .ok v → v ∈ vs := by
  have hnew : Reached allowed (settings.interpreter files (settings.dirFor file)).state [] :=
    .new settings.host files (settings.dirFor file) settings.clock
  unfold Settings.run
  cases haccept : Program.accept source file with
  | error ds => exact ⟨[], hnew, nofun⟩
  | ok b =>
    unfold Settings.runProgram
    dsimp only
    generalize hi : (settings.interpreter files (settings.dirFor file)).perform (note "running program"
      [("file", .text file), ("statements", .int b.body.length)]) = started
    obtain ⟨hhost, hstore⟩ := hi ▸ (settings.interpreter files (settings.dirFor file)).perform_note
      "running program" [("file", .text file), ("statements", .int b.body.length)]
    obtain ⟨_, i⟩ := started
    dsimp only at hhost hstore ⊢
    have hallowed : allowed (.run b) i.host i.state :=
      hhost ▸ hallowed b i.state (Program.check_of_accept haccept)
    obtain ⟨vs, hvs, hmem⟩ := Interpreter.reached_run (.outside hnew hstore) b hallowed
    generalize hr : i.run b = ended at hvs hmem ⊢
    obtain ⟨result, j⟩ := ended
    refine ⟨vs, ?_⟩
    cases result with
    | ok v => exact ⟨hvs, fun w hw => hmem w (by cases hw; rfl)⟩
    | error e =>
      cases e with
      | crash => exact ⟨hvs, nofun⟩
      | _ => exact ⟨.outside hvs (j.perform_note _ _).2, nofun⟩

/-! ### Laws over requests -/

/-- All names. -/
abbrev anyNames : ScopeId → Text → Prop := fun _ _ => True

namespace Law

variable {L : Law} {d : Task → State → Bool} {r : Request} {host : Host} {s t : State}

/-- The state that an evaluation in accordance with a law ends in. -/
theorem Outcome.after_eval {α : Type} {ε : Effect} {Q : Store → α → Prop} {x : Eval α}
    (h : L.Outcome ε s Q (x host s)) :
    L.le ε.binds s.store (x.after host s).store ∧ L.Inv (x.after host s).store := by
  unfold Eval.after
  cases hx : x host s <;>
    · rw [hx] at h
      exact ⟨h.1, h.2.2.1⟩

/-- Whether a law speaks about a request in a store. -/
def Fits (L : Law) (s : Store) : Request → Prop
  | .run b => L.TidyStmts false [] b.body ∧ L.ready s globalScope []
  | .stringify v => L.Good s v

theorem le_any {B : ScopeId → Text → Prop} {s t : Store} (h : L.le B s t) : L.le anyNames s t :=
  L.le_mono (fun _ _ _ => trivial) h

/-- Two runs for a request, the second one of any runner that keeps to the law. -/
theorem Pairing.requestBy (K : L.Pairing) {run' : Runner}
    (hrun : K.Carries (evaluateWith K.left) run') (h : L.Fits s.store r) :
    K.Sound programEffect s (r.evalWith K.left) (r.evalBy run') L.Good := by
  cases r with
  | run b => exact K.program hrun h.1 h.2
  | stringify v => exact .map (.quiet (.stringify hrun h)) fun _ _ _ _ => trivial

theorem Pairing.request (K : L.Pairing) (h : L.Fits s.store r)
    (henters : K.Enters := by exact fun _ _ _ _ => trivial)
    (hbodies : L.bodies := by exact trivial) :
    K.Sound programEffect s (r.evalWith K.left) (r.evalWith K.right) L.Good := by
  have hsound := K.requestBy (K.carries _ henters hbodies) h
  cases r <;> exact hsound

theorem Pairing.evalWith_right (K : L.Pairing) (h : K.stops = fun _ _ => false) :
    r.evalWith K.right = r.eval := by
  funext host s
  unfold Pairing.right
  rw [h]
  exact r.avoids_none host s _

/-- Runs that are stopped at certain tasks. -/
def stopping (L : Law) (d : Task → State → Bool)
    (hd : ∀ {task s}, L.forbids task s → d task s = true) : L.Pairing where
  stops := d
  parts := fun _ _ => True
  parts_step := fun _ _ _ _ => trivial
  parts_located := fun _ => Ending.unmoved
  parts_caught := Ending.unmoved
  parts_stop := fun _ _ => trivial
  allowed := fun h hf => h (hd hf)

/-- A request that avoids what a law forbids is carried out in accordance with the law. -/
theorem outcome (hd : ∀ {task s}, L.forbids task s → d task s = true) (hr : L.Fits s.store r)
    (hs : L.Inv s.store) (havoids : r.Avoids d host s)
    (hhost : L.admits host := by exact trivial) (hbodies : L.bodies := by exact trivial) :
    L.Outcome programEffect s L.Good (r.eval host s) := by
  have h := ((L.stopping d hd).request hr (fun _ _ _ _ => trivial) hbodies hs trivial).1 host hhost
  rwa [show r.evalWith (L.stopping d hd).right host s = r.eval host s from havoids _] at h

/-- Two runs of which the first may leave the other one, as a variant does things otherwise. From then on
`Q` holds of the stores of the second one, unless that is stopped with certain words. -/
def departing (L : Law) (d : Task → State → Bool)
    (hd : ∀ {task s}, L.forbids task s → d task s = true) (left : Variant) (stopped : Text)
    (Q : Store → Prop) (hQ : ∀ {B s t}, L.le B s t → Q s → Q t)
    (hdiverts : ∀ {task} {s : State}, L.Inv s.store → L.GoodTask s.store task →
      left.diverts task s = true → Q s.store)
    (hfinish : ∀ v, (v = .breakSignal → L.escapes false .leave) →
      (v = .continueSignal → L.escapes false .next) → left.finish v = pure v.unwrap)
    (henter : ∀ {host} {s : State} {scope names}, (∀ e ∈ (s.store.scope scope).values,
      e.1 ∈ names ∧ L.stored (s.store.read e.2)) → left.enter scope names host s = .ok () s) :
    L.Pairing where
  left := left
  stops := d
  stopped := stopped
  parts := fun _ r => r.failure = some (.cancelled stopped) ∨ Q r.store
  parts_step := by
    rintro l r l' r' (h | h) - hfailed hgoes
    · exact .inl (hfailed (by rw [h]; exact nofun) ▸ h)
    · by_cases hr : r.failure = none
      · obtain ⟨⟨B, hle⟩, -⟩ := hgoes hr
        exact .inr (hQ hle h)
      · exact .inr (hfailed hr ▸ h)
  parts_located := by
    refine fun span => ⟨id, Or.imp_left fun h => ?_⟩
    rw [Option.some.inj h]
    rfl
  parts_caught := ⟨id, Or.imp_left fun h => nomatch h⟩
  parts_stop := fun _ _ => .inl rfl
  parts_divert := fun hs htask _ hdivert _ _ _ hle _ => .inr (hQ hle (hdiverts hs htask hdivert))
  allowed := fun h hf => h (hd hf)
  finish := hfinish
  enter := henter

/-- There are words with which a run was not stopped. -/
theorem exists_words (x : EStateM.Result Failure State Value) :
    ∃ stopped, (Ending.of x).failure ≠ some (.cancelled stopped) := by
  by_cases h : (Ending.of x).failure = some (.cancelled [])
  · exact ⟨[0], by rw [h]; exact nofun⟩
  · exact ⟨[], h⟩

section

variable {left : Variant} {Q : Store → Prop} (hd : ∀ {task s}, L.forbids task s → d task s = true)
  (hQ : ∀ {B s t}, L.le B s t → Q s → Q t)
  (hdiverts : ∀ {task} {s : State}, L.Inv s.store → L.GoodTask s.store task →
    left.diverts task s = true → Q s.store)
  (hfinish : ∀ v, (v = .breakSignal → L.escapes false .leave) →
    (v = .continueSignal → L.escapes false .next) → left.finish v = pure v.unwrap)
  (henter : ∀ {host} {s : State} {scope names}, (∀ e ∈ (s.store.scope scope).values,
    e.1 ∈ names ∧ L.stored (s.store.read e.2)) → left.enter scope names host s = .ok () s)

/-- Of two runs that may part, the second one is the run that is asked about. -/
theorem departs {stopped : Text} {ε : Effect} {P : Store → Value → Prop} {x y z : Eval Value}
    (hsound : (L.departing d hd left stopped Q hQ hdiverts hfinish henter).Sound ε s x y P)
    (hs : L.Inv s.store) (hy : y host s = z host s)
    (hstopped : (Ending.of (z host s)).failure ≠ some (.cancelled stopped)) (hhost : L.admits host) :
    x host s = z host s ∨ Q (z.after host s).store := by
  have hagree := (hsound hs trivial).2 host host ⟨rfl, hhost⟩
  rw [hy] at hagree
  rcases hagree with ⟨heq, -⟩ | h | h
  · exact .inl heq
  · exact absurd h hstopped
  · refine .inr ?_
    unfold Eval.after
    cases hz : z host s <;>
      · rw [hz] at h
        exact h

end

/-- A request that avoids what a law forbids has the same outcome in a variant, or else gets to a point
where the variant does something otherwise. -/
theorem eq_or_departs (hd : ∀ {task s}, L.forbids task s → d task s = true)
    (hr : L.Fits s.store r) (hs : L.Inv s.store) (havoids : r.Avoids d host s) (left : Variant)
    {Q : Store → Prop} (hQ : ∀ {B s t}, L.le B s t → Q s → Q t)
    (hdiverts : ∀ {task} {s : State}, L.Inv s.store → L.GoodTask s.store task →
      left.diverts task s = true → Q s.store)
    (hfinish : ∀ v, (v = .breakSignal → L.escapes false .leave) →
      (v = .continueSignal → L.escapes false .next) → left.finish v = pure v.unwrap)
    (henter : ∀ {host} {s : State} {scope names}, (∀ e ∈ (s.store.scope scope).values,
      e.1 ∈ names ∧ L.stored (s.store.read e.2)) → left.enter scope names host s = .ok () s)
    (hhost : L.admits host := by exact trivial) (hbodies : L.bodies := by exact trivial) :
    r.evalWith left host s = r.eval host s ∨ Q (r.eval.after host s).store := by
  obtain ⟨stopped, hstopped⟩ := exists_words (r.eval host s)
  let K := L.departing d hd left stopped Q hQ hdiverts hfinish henter
  exact departs hd hQ hdiverts hfinish henter (K.request hr (fun _ _ _ _ => trivial) hbodies) hs
    (havoids _) hstopped hhost

theorem inv_of_passes (hd : ∀ {task s}, L.forbids task s → d task s = true)
    (hr : L.Fits s.store r) (hs : L.Inv s.store) (havoids : r.Avoids d host s)
    (hpasses : r.Passes host s t) (hhost : L.admits host := by exact trivial)
    (hbodies : L.bodies := by exact trivial) :
    L.Inv t.store ∧ L.le anyNames t.store (r.eval.after host s).store := by
  obtain ⟨task, hno⟩ := hpasses
  obtain ⟨instead, hne⟩ := Classical.not_forall.1 hno
  refine (eq_or_departs hd hr hs havoids { diverts := task.at t, instead }
    (Q := fun u => L.Inv t.store ∧ L.le anyNames t.store u)
    (fun hle h => ⟨h.1, L.le_trans h.2 (le_any hle)⟩) (fun hs' _ hdivert => ?_)
    (fun _ _ _ => rfl) (fun _ => rfl) hhost hbodies).resolve_left hne
  obtain ⟨-, rfl⟩ := Task.eq_of_at hdivert
  exact ⟨hs', L.le_refl⟩

/-- The law of stores that come after one. -/
def since (L : Law) (s₀ : Store) : Law :=
  { L with
    keeps := fun t => L.keeps t ∧ L.le anyNames s₀ t
    heap := fun hc hs hf => ⟨(L.heap hc hs hf).1, fun h =>
      ⟨(L.heap hc hs hf (B := noNames)).2 h.1, L.le_trans h.2 (L.heap hc hs hf).1⟩⟩
    newCell := fun v h hv =>
      have h' := L.newCell v h.1 hv
      ⟨h'.1, ⟨h'.2.1, L.le_trans h.2 (le_any h'.1)⟩, h'.2.2⟩
    write := fun h hc hr hv hallows =>
      have h' := L.write h.1 hc hr hv hallows
      ⟨h'.1, h'.2, L.le_trans h.2 (le_any h'.1)⟩
    newScope := fun parent h =>
      have h' := L.newScope parent h.1
      ⟨h'.1, ⟨h'.2.1, L.le_trans h.2 (le_any h'.1)⟩, h'.2.2⟩
    bind := fun h hready hname hv ht =>
      have h' := L.bind h.1 hready hname hv ht
      ⟨h'.1, ⟨h'.2.1, L.le_trans h.2 (le_any h'.1)⟩, h'.2.2⟩
    bind_fails := fun h => L.bind_fails h.1
    remove := fun h hr hb hallowed =>
      have h' := L.remove h.1 hr hb hallowed
      ⟨h'.1, h'.2, L.le_trans h.2 (le_any h'.1)⟩
    ref := fun h => L.ref h.1
    annotate := fun h => L.annotate h.1
    allows_stepped := fun h => L.allows_stepped h.1 }

theorem good_since {s₀ st : Store} {v : Value} : (L.since s₀).Good st v ↔ L.Good st v := by
  induction v with
  | object _ type => cases type <;> exact Iff.rfl
  | reference _ c => cases c <;> exact Iff.rfl
  | typed _ _ ih => exact and_congr_right fun _ => ih
  | pair _ _ iha ihb => exact and_congr iha ihb
  | returnSignal _ ih => exact and_congr_right fun _ => ih
  | _ => exact Iff.rfl

/-- What a law says of the states that a request passes: they are in accordance with it, come after the
first one and before the last one. -/
theorem passes (hd : ∀ {task s}, L.forbids task s → d task s = true)
    (hr : L.Fits s.store r) (hs : L.Inv s.store) (havoids : r.Avoids d host s)
    (hpasses : r.Passes host s t) (hhost : L.admits host := by exact trivial)
    (hbodies : L.bodies := by exact trivial) :
    L.Inv t.store ∧ L.le anyNames s.store t.store ∧
      L.le anyNames t.store (r.eval.after host s).store := by
  obtain ⟨ht, hle⟩ := inv_of_passes hd hr hs havoids hpasses hhost hbodies
  have hs₀ : (L.since s.store).Inv s.store := ⟨⟨hs.keeps, L.le_refl⟩,
    fun v hv => good_since.2 (hs.cells v hv), fun v hv => (hs.heap v hv).imp_left good_since.2⟩
  have hr₀ : (L.since s.store).Fits s.store r := by
    cases r with
    | run b => exact hr
    | stringify v => exact good_since.2 hr
  have ht₀ := (inv_of_passes (L := L.since s.store) hd hr₀ hs₀ havoids hpasses
    hhost hbodies).1
  exact ⟨ht, ht₀.keeps.2, hle⟩

/-! ### Laws that hold of all programs -/

theorem Universal.fits (hall : L.Universal) {st : Store} (hr : ∀ v ∈ r.values, L.Good st v) :
    L.Fits st r := by
  cases r with
  | run b => exact ⟨⟨hall.clean _, hall.follow⟩, hall.ready⟩
  | stringify v => exact hr v List.mem_cons_self

theorem inv_new (hnew : L.keeps { scopes := #[{}] }) : L.Inv { scopes := #[{}] } := by
  refine ⟨hnew, fun v hv => absurd hv (Array.not_mem_empty v), fun v hv => ?_⟩
  cases hv with
  | slot h => exact absurd h (Array.not_mem_empty _)
  | field h => exact absurd h (Array.not_mem_empty _)
  | member h => exact absurd h (Array.not_mem_empty _)

variable {vs : List Value}

/-- All reached states are in accordance with a law if every request that is allowed is carried out in
accordance with it. -/
theorem reached_of (hnew : L.keeps { scopes := #[{}] })
    (hout : ∀ {r host s}, allowed r host s → (∀ v ∈ r.values, L.Good s.store v) → L.Inv s.store →
      L.Outcome programEffect s L.Good (r.eval host s)) (h : Reached allowed s vs) :
    L.Inv s.store ∧ ∀ v ∈ vs, L.Good s.store v := by
  induction h with
  | new => exact ⟨inv_new hnew, fun v hv => absurd hv List.not_mem_nil⟩
  | gives r host _ hr hok heq ih =>
    have ho := hout hok (fun v hv => ih.2 v (hr hv)) ih.1
    rw [heq] at ho
    obtain ⟨hle, -, hinv, hv⟩ := ho
    refine ⟨hinv, fun w hw => ?_⟩
    rcases List.mem_cons.1 hw with rfl | hw
    · exact hv
    · exact (ih.2 w hw).mono hle
  | fails r host _ hr hok heq ih =>
    have ho := hout hok (fun v hv => ih.2 v (hr hv)) ih.1
    rw [heq] at ho
    exact ⟨ho.2.2.1, fun w hw => (ih.2 w hw).mono ho.1⟩
  | outside _ heq ih => exact heq ▸ ih

/-- All reached states are in accordance with a law that holds of all programs. -/
theorem reached (hall : L.Universal) (hnew : L.keeps { scopes := #[{}] })
    (hd : ∀ {task s}, L.forbids task s → d task s = true)
    (hallowed : ∀ {r host s}, allowed r host s → r.Avoids d host s) (h : Reached allowed s vs)
    (hhost : ∀ {r host s}, allowed r host s → L.admits host := by exact fun _ => trivial)
    (hbodies : L.bodies := by exact trivial) :
    L.Inv s.store ∧ ∀ v ∈ vs, L.Good s.store v :=
  reached_of hnew (fun hok hv hs => outcome hd (hall.fits hv) hs (hallowed hok) (hhost hok) hbodies) h

/-! ### Single tasks

What a law that forbids nothing says of single tasks, from any state in accordance with it. -/

/-- Two runs in which nothing is done otherwise. -/
def plain (L : Law) (hfree : ∀ task s, ¬ L.forbids task s) : L.Pairing where
  allowed := fun _ => hfree _ _

variable {n : Nat}

theorem plain_carries (hfree : ∀ task s, ¬ L.forbids task s) (hbodies : L.bodies := by exact trivial) :
    (L.plain hfree).Carries (evaluator n) (evaluator n) := by
  have h := (L.plain hfree).carries n (fun _ _ _ _ => trivial) hbodies
  rwa [(L.plain hfree).evaluator_right rfl, show (L.plain hfree).left = {} from rfl,
    evaluatorWith_usual] at h

theorem Universal.outcome_expr (hall : L.Universal) (hfree : ∀ task s, ¬ L.forbids task s)
    (hs : L.Inv s.store) (e : Expr) (scope : ScopeId) (host : Host)
    (hhost : L.admits host := by exact trivial) (hbodies : L.bodies := by exact trivial) :
    L.Outcome (L.effect true) s L.Good ((evaluator n).expr e scope host s) :=
  ((plain_carries hfree hbodies).expr (hall.tidyExpr true e) (hall.ready : L.ready _ _ []) hs
    trivial).1 host hhost

theorem Universal.outcome_stmt (hall : L.Universal) (hfree : ∀ task s, ¬ L.forbids task s)
    (hs : L.Inv s.store) (st : Stmt) (scope : ScopeId) (host : Host)
    (hhost : L.admits host := by exact trivial) (hbodies : L.bodies := by exact trivial) :
    L.Outcome (L.stmtEffect true scope st) s
      (fun t v => L.Done true t v ∧ L.ready t scope (Check.declare [] (Check.declaredName st)))
      ((evaluator n).stmt st scope host s) :=
  ((plain_carries hfree hbodies).stmt (hall.tidyStmt st) hall.ready hs trivial).1 host hhost

theorem outcome_call (hfree : ∀ task s, ¬ L.forbids task s)
    (hs : L.Inv s.store) {f : Value} {args : List Value} (hf : L.Good s.store f)
    (hargs : ∀ a ∈ args, L.Good s.store a) (host : Host)
    (hhost : L.admits host := by exact trivial) (hbodies : L.bodies := by exact trivial) :
    L.Outcome .quiet s L.Good ((evaluator n).call f args host s) :=
  ((plain_carries hfree hbodies).call hf hargs hs trivial).1 host hhost

/-! ### The bound on depth

What the evaluator does depends on the bound on the depth of tasks inside of tasks in one way only: a run
that gets to it is stuck there. Every other run is the same under every larger bound. -/

/-- Two runs of which the second one may get stuck where the first one goes on. -/
def deepening (L : Law) (hfree : ∀ task s, ¬ L.forbids task s) : L.Pairing where
  parts := fun _ r => r.failure = some .stuck
  parts_step := by
    intro l r l' r' h _ hfailed _
    rwa [hfailed (by rw [h]; exact nofun)]
  parts_located := by
    refine fun span => ⟨id, fun h => ?_⟩
    cases h
    rfl
  parts_caught := ⟨id, nofun⟩
  allowed := fun _ => hfree _ _

/-- A run that is stuck from the start. -/
theorem deepening_stuck {α : Type} (hfree : ∀ task s, ¬ L.forbids task s) (x : Eval α)
    {Q : Store → α → Prop} : (L.deepening hfree).Sound ε s x (MonadExcept.throw Failure.stuck) Q :=
  fun hs _ => ⟨fun _ _ => ⟨L.le_refl, .refl, hs, ends_plain rfl⟩, fun _ _ _ => .inr rfl⟩

/-- It is the same with evaluators that stop with a failure at certain tasks. -/
theorem deepening_stopping (hfree : ∀ task s, ¬ L.forbids task s) (diverts : Task → State → Bool)
    {e : Failure} (he : e.isPlain = true) {n m : Nat} (h : n ≤ m) (hbodies : L.bodies) :
    (L.deepening hfree).Carries (evaluatorWith { diverts, instead := fun _ => throw e } m)
      (evaluatorWith { diverts, instead := fun _ => throw e } n) := by
  let x : Variant := { diverts, instead := fun _ => throw e }
  have unfold (k : Nat) : evaluatorWith x (k + 1) = Runner.diverted x (evaluatorWith x k).step :=
    congrArg (Runner.diverted x) (Runner.stepWith_usual _)
  induction n generalizing m with
  | zero => exact ⟨fun _ _ => deepening_stuck hfree _, fun _ _ => deepening_stuck hfree _,
      fun _ _ => deepening_stuck hfree _⟩
  | succ n ih =>
    obtain ⟨m, rfl⟩ := Nat.exists_eq_succ_of_ne_zero (Nat.ne_zero_of_lt h)
    have hrun := ih (Nat.le_of_succ_le_succ h)
    have stops {ε : Effect} {task : Task} {s : State} {Q : Store → Value → Prop}
        (hstep : (L.deepening hfree).Sound ε s ((evaluatorWith x m).step task)
          ((evaluatorWith x n).step task) Q) :
        (L.deepening hfree).Sound ε s (evaluatorWith x (m + 1) task) (evaluatorWith x (n + 1) task) Q := by
      rw [unfold, unfold]
      by_cases hdiverts : diverts task s = true
      · exact .congr (fun _ => if_pos hdiverts) (fun _ => if_pos hdiverts) (.throw he)
      · exact hstep.congr (fun _ => if_neg hdiverts) fun _ => if_neg hdiverts
    have hleft : (evaluatorWith x m).stepWith (L.deepening hfree).left = (evaluatorWith x m).step :=
      Runner.stepWith_usual _
    have hright : (evaluatorWith x n).stepWith (L.deepening hfree).right = (evaluatorWith x n).step :=
      (L.deepening hfree).stepWith_right _
    refine ⟨fun {inLoop e scope names s} he hready => stops ?_,
      fun {inLoop names st scope s} hst hready => stops ?_,
      fun hf hargs => stops (.call hbodies hrun hf hargs)⟩
    · have hstep := Pairing.Sound.stepExpr hrun (.instantiate hbodies hrun) he hready (hfree _ _)
      rwa [hleft, hright] at hstep
    · have hstep := Pairing.Sound.stepStmt hrun hst hready (hfree _ _) fun _ _ _ _ _ => trivial
      rwa [hleft, hright] at hstep

theorem deepening_carries (hfree : ∀ task s, ¬ L.forbids task s) {n m : Nat} (h : n ≤ m)
    (hbodies : L.bodies := by exact trivial) :
    (L.deepening hfree).Carries (evaluator m) (evaluator n) := by
  have hrun := deepening_stopping (e := .stuck) hfree (fun _ _ => false) rfl h hbodies
  rwa [evaluatorWith_none, evaluatorWith_none] at hrun

end Law

end ScriptLang
