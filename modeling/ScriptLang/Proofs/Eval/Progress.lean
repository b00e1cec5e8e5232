import Mathlib.Data.Finset.Card
import ScriptLang.Proofs.Eval.Frame

/-!
# Imports in progress

The state keeps the files whose import is in progress and the directory for relative imports. Both are
the same again after every task, however it ends, and what is kept is exact: an evaluator with an account
of its own, which grows by a file for the tasks inside of the import of that file and is the same again
after it, never finds that the state says otherwise. No file is ever twice in progress, so imports are
nested no deeper than there are files. Between the inputs of a session nothing is in progress, and
no import that stands in a later input is refused because of an earlier one.
-/

namespace ScriptLang

open Eval

/-! ### An account of the imports in progress -/

/-- The files whose import is in progress for the tasks inside of a task: those before it and, for
an import from a file, that file. -/
def Task.inside (files : List Text) (s : State) : Task → List Text
  | .stmt (.importing _ _ _ path) _ =>
    if path.isEmpty then files else (s.importTarget? path).toList ++ files
  | _ => files

theorem Task.inside_eq {files : List Text} {s : State} {st : Stmt} {scope : ScopeId}
    (h : ¬ st.ImportsFile) : (Task.stmt st scope).inside files s = files := by
  cases st with
  | importing span name wildcard path =>
    cases path with
    | nil => rfl
    | cons => exact absurd (List.cons_ne_nil _ _) h
  | _ => rfl

/-- The evaluator with an account of the files whose import is in progress, the innermost first. When a
task is met while the state says otherwise than the account, `otherwise` is done instead. -/
def evaluatorTracking (otherwise : Runner) : Nat → List Text → Runner
  | 0, _ => fun _ => throw .stuck
  | n + 1, files => fun task host s =>
    if s.importing = files then
      (evaluatorTracking otherwise n (task.inside files s)).step task host s
    else otherwise task host s

namespace Eval

variable {α β : Type} {host : Host} {s : State}

/-- One evaluation after another, of which the first leaves the store and the imports in progress as
they are. -/
theorem Still.bind_eq {x : Eval α} {f g : α → Eval β} {P : Store → α → Prop} (hx : Still x P)
    (h : ∀ a t, t.importing = s.importing → f a host t = g a host t) :
    (x >>= f) host s = (x >>= g) host s := by
  have hmoved := (hx host s).1
  rw [bind_apply, bind_apply]
  cases hr : x host s with
  | ok a t =>
    rw [hr] at hmoved
    exact h a t hmoved.1.importing
  | error e t => rfl

theorem duringImport_eq {file : Text} {x y : Eval α} (hfile : file ∉ s.importing)
    (h : ∀ t : State, t.importing = file :: s.importing → x host t = y host t) :
    duringImport file x host s = duringImport file y host s := by
  unfold duringImport
  rw [h _ (List.insert_of_not_mem hfile)]

theorem located_eq {span : Span} {x y : Eval α} (h : x host s = y host s) :
    located span x host s = located span y host s := by
  unfold located
  rw [h]

end Eval

namespace Law

variable {otherwise : Runner} {n : Nat} {files : List Text} {host : Host} {s t : State} {α : Type}
variable {ε : Effect} {Q : Store → α → Prop}

/-- Two runs that are compared while certain files are in progress. -/
def during (files : List Text) : frame.Pairing where
  stands := fun importing => importing = files
  allowed := fun _ h => h

theorem during_agrees {x y : Eval α} (h : (during files).Sound ε s x y Q) (hs : s.importing = files) :
    x host s = y host s :=
  ((h (inv_frame _) hs).2 host host ⟨rfl, trivial⟩).elim And.left False.elim

/-- Two runs that are the same while certain files are in progress. -/
theorem sound_during {x y : Eval α} (h : (frame.plain fun _ _ h => h).Sound ε s y y Q)
    (heq : s.importing = files → ∀ host, x host s = y host s) : (during files).Sound ε s x y Q := by
  refine fun hs hfiles => ⟨(h hs trivial).1, fun host host' hh => .inl ⟨?_, hh⟩⟩
  rw [heq hfiles, hh.1]

theorem carries_during (h : ∀ task host s, s.importing = files →
      evaluatorTracking otherwise n files task host s = evaluator n task host s) :
    (during files).Carries (evaluatorTracking otherwise n files) (evaluator n) := by
  have hplain : (frame.plain fun _ _ h => h).Carries (evaluator n) (evaluator n) :=
    plain_carries fun _ _ h => h
  exact ⟨fun he hready => sound_during (hplain.expr he hready) fun hs host => h _ host _ hs,
    fun hst hready => sound_during (hplain.stmt hst hready) fun hs host => h _ host _ hs,
    fun hf hargs => sound_during (hplain.call hf hargs) fun hs host => h _ host _ hs⟩

/-- The import of a file, with the account of its own. -/
theorem importFile_tracking (h : ∀ files task host s, s.importing = files →
      evaluatorTracking otherwise n files task host s = evaluator n task host s)
    {path name : Text} {wildcard : Bool} {scope : ScopeId} (hs : s.importing = files) :
    (evaluatorTracking otherwise n ((s.importTarget? path).toList ++ files)).importFile name wildcard
        path scope host s =
      (evaluator n).importFile name wildcard path scope host s := by
  rw [Runner.importFile_eq, Runner.importFile_eq, bind_apply, bind_apply]
  rcases resolveImport_cases path s with ⟨file, hfile, hrun⟩ | ⟨e, -, hrun⟩
  · rw [hrun, hfile]
    show (if s.importing.contains file then _ else _ : Eval Unit) host s =
      (if s.importing.contains file then _ else _ : Eval Unit) host s
    split
    · rfl
    · next hnew =>
      refine (still_loadFile file).bind_eq fun b t ht => ?_
      refine (still_note _ _).bind_eq fun _ u hu => duringImport_eq ?_ fun u' hu' => ?_
      · rw [hu, ht]
        simpa using hnew
      have hrun := carries_during (h (file :: files))
      refine during_agrees (Pairing.Sound.takeFrom (ε := ⟨anyNames, fun _ => True⟩) hrun
        universal_frame.not_tracks path ⟨universal_frame.clean _, universal_frame.follow⟩
        (fun _ _ => trivial) fun _ _ => trivial) ?_
      rw [hu', hu, ht, hs]
  · rw [hrun]

/-- One task, with the account of its own. -/
theorem step_tracking (h : ∀ files task host s, s.importing = files →
      evaluatorTracking otherwise n files task host s = evaluator n task host s)
    (task : Task) (hs : s.importing = files) :
    (evaluatorTracking otherwise n (task.inside files s)).step task host s =
      (evaluator n).step task host s := by
  have hrun := carries_during (h files)
  have byRule {task : Task} {ε : Effect} {Q : Store → Value → Prop}
      (h : (during files).Sound ε s
        ((evaluatorTracking otherwise n files).stepWith (during files).left task)
        ((evaluator n).stepWith (during files).right task) Q) :
      (evaluatorTracking otherwise n files).step task host s = (evaluator n).step task host s := by
    rw [show (during files).left = {} from rfl, Runner.stepWith_usual,
      (during files).stepWith_right] at h
    exact during_agrees h hs
  cases task with
  | expr e scope =>
    exact byRule (.stepExpr hrun (Pairing.Sound.instantiate trivial hrun)
      (universal_frame.tidyExpr false e) (show frame.ready _ _ [] from trivial) id)
  | stmt st scope =>
    by_cases hst : st.ImportsFile
    · cases st with
      | importing span name wildcard path =>
        have hpath : path.isEmpty = false := by
          cases path with
          | nil => exact absurd rfl hst
          | cons => rfl
        refine located_eq ?_
        unfold Runner.execStmt Runner.importInto Task.inside
        simp only [hpath, Bool.false_eq_true, if_false]
        rw [bind_apply, bind_apply, importFile_tracking h hs]
      | _ => exact hst.elim
    · rw [Task.inside_eq hst]
      exact byRule (.stepStmt hrun (universal_frame.tidyStmt st : frame.TidyStmt false [] st) trivial
        id fun h => absurd h hst)
  | call f args =>
    exact byRule (.call trivial hrun (good_frame _ f) fun a _ => good_frame _ a)

end Law

/-- What the state says is in progress is what the account says. -/
theorem evaluatorTracking_eq (otherwise : Runner) (n : Nat) (files : List Text) (task : Task)
    (host : Host) (s : State) (hs : s.importing = files) :
    evaluatorTracking otherwise n files task host s = evaluator n task host s := by
  induction n generalizing files task host s with
  | zero => rfl
  | succ n ih =>
    unfold evaluatorTracking evaluator
    rw [if_pos hs]
    exact Law.step_tracking ih task hs

/-- So it is all along a list of statements. -/
theorem statements_tracking (otherwise : Runner) (n : Nat) (ss : List Stmt) (scope : ScopeId)
    (host : Host) (s : State) :
    (evaluatorTracking otherwise n s.importing).statements scope .nil ss host s =
      (evaluator n).statements scope .nil ss host s := by
  have hrun := Law.carries_during (n := n) (evaluatorTracking_eq otherwise n s.importing)
  have htidy : Law.frame.TidyStmts false [] ss :=
    ⟨Law.universal_frame.clean _, Law.universal_frame.follow⟩
  exact Law.during_agrees (Law.Pairing.Sound.statements (ε := ⟨anyNames, fun _ => False⟩) hrun
    (fun _ => trivial) htidy trivial trivial) rfl

/-! ### No file is twice in progress -/

namespace Law

variable {r : Request} {host : Host} {s t : State} {n : Nat}

/-- Two runs of which the first does something else at a task in a state. -/
noncomputable def passing (task : Task) (t : State) (instead : Runner) : frame.Pairing where
  left := { diverts := task.at t, instead }
  stands := List.Nodup
  parts := fun _ _ => t.importing.Nodup
  parts_step := fun h _ _ _ => h
  parts_located := fun _ => Ending.unmoved
  parts_caught := Ending.unmoved
  parts_divert := by
    intro task' s _ _ hstands hdivert B l r _ _
    obtain ⟨-, rfl⟩ := Task.eq_of_at hdivert
    exact hstands
  allowed := fun _ h => h
  enter := fun _ => rfl

theorem enters_passing {task : Task} {instead : Runner} : (passing task t instead).Enters :=
  fun _ _ hfiles hfile => List.nodup_cons.2 ⟨hfile, hfiles⟩

theorem nodup_of_passes (hs : s.importing.Nodup) (h : r.Passes host s t) : t.importing.Nodup := by
  obtain ⟨task, hno⟩ := h
  obtain ⟨instead, hne⟩ := Classical.not_forall.1 hno
  have hfits : frame.Fits s.store r := universal_frame.fits fun v _ => good_frame s.store v
  have hagree := (((passing task t instead).request hfits enters_passing trivial) (inv_frame _)
    hs).2 host host ⟨rfl, trivial⟩
  rw [(passing task t instead).evalWith_right rfl] at hagree
  rcases hagree with ⟨heq, -⟩ | h
  · exact absurd heq hne
  · exact h

/-! ### After a task, a run and an input -/

theorem Outcome.onward {α : Type} {ε : Effect} {Q : Store → α → Prop} {x : Eval α}
    (h : frame.Outcome ε s Q (x host s)) : s.Onward (x.after host s) := by
  unfold Eval.after
  cases hx : x host s <;>
    · rw [hx] at h
      exact h.2.1

theorem onward_task (task : Task) (host : Host) (s : State) :
    s.Onward ((evaluator n task).after host s) := by
  have hfree : ∀ task s, ¬ frame.forbids task s := fun _ _ h => h
  cases task with
  | expr e scope => exact (universal_frame.outcome_expr hfree (inv_frame _) e scope host).onward
  | stmt st scope => exact (universal_frame.outcome_stmt hfree (inv_frame _) st scope host).onward
  | call f args =>
    exact (outcome_call hfree (inv_frame _) (good_frame _ f) (fun a _ => good_frame _ a) host).onward

end Law

/-- A program leaves what is in progress as it was. -/
theorem Interpreter.onward_run (i : Interpreter) (b : Block) : i.state.Onward (i.run b).2.state := by
  have hrun : i.state.Onward ((Eval.program b).after i.host i.state) :=
    (Law.outcome (L := Law.frame) (d := fun _ _ => false) (r := .run b) (fun h => h.elim)
      (Law.universal_frame.fits fun v _ => Law.good_frame _ v) (Law.inv_frame _)
      (Request.avoids_none _ _ _)).onward
  unfold Interpreter.run Interpreter.perform
  unfold Eval.after at hrun
  cases hr : Eval.program b i.host i.state with
  | ok v t =>
    rw [hr] at hrun
    exact hrun
  | error e t =>
    rw [hr] at hrun
    dsimp only [Interpreter.reporting]
    split <;> exact ⟨hrun.writes, hrun.importing, hrun.dir⟩

/-- So does an input of a session. -/
theorem Session.onward_feed (session : Session) (line : Text) :
    session.interpreter.state.Onward (session.feed line).2.interpreter.state := by
  rcases session.interpreter_feed line with ⟨heq, -⟩ | ⟨b, -, heq, -⟩
  · exact heq ▸ .refl
  · exact heq ▸ session.interpreter.onward_run b

theorem Session.onward_feeds (session : Session) (lines : List Text) :
    session.interpreter.state.Onward (session.feeds lines).interpreter.state := by
  induction lines generalizing session with
  | nil => exact .refl
  | cons line lines ih => exact (session.onward_feed line).trans (ih _)

/-- When nothing is in progress, an import is not looked for among the imports in progress. -/
theorem Runner.importFile_of_idle (run : Runner) {name path : Text} {wildcard : Bool}
    {scope : ScopeId} {host : Host} {s : State} (hs : s.importing = []) :
    run.importFile name wildcard path scope host s =
      (resolveImport path >>= run.enterFile name wildcard path scope) host s := by
  rw [Runner.importFile_eq, bind_apply, bind_apply]
  rcases resolveImport_cases path s with ⟨file, -, hrun⟩ | ⟨e, -, hrun⟩
  · rw [hrun]
    show (if s.importing.contains file then _ else _ : Eval Unit) host s = _
    rw [hs]
    rfl
  · rw [hrun]

/-- The bookkeeping of imports is exact. After every task the files in progress and the directory are what
they were before it, however it ended; throughout, the files in progress are those that an account says
are in progress; no file is twice among them, so there are no more of them than files; and between the
inputs of a session there are none, so that an import in a later input is never taken for a cycle. -/
theorem imports_in_progress (n : Nat) :
    (∀ (task : Task) (host : Host) (s : State),
      ((evaluator n task).after host s).importing = s.importing ∧
        ((evaluator n task).after host s).dir = s.dir) ∧
    (∀ (otherwise : Runner) (task : Task) (host : Host) (s : State),
      evaluatorTracking otherwise n s.importing task host s = evaluator n task host s) ∧
    (∀ (otherwise : Runner) (ss : List Stmt) (scope : ScopeId) (host : Host) (s : State),
      (evaluatorTracking otherwise n s.importing).statements scope .nil ss host s =
        (evaluator n).statements scope .nil ss host s) ∧
    (∀ {r host s t}, s.importing.Nodup → Request.Passes r host s t →
      t.importing.Nodup ∧ ∀ known : Finset Text, (∀ file ∈ t.importing, file ∈ known) →
        t.importing.length ≤ known.card) ∧
    ∀ (settings : Settings) (files : Files) (lines : List Text),
      let start := Session.new settings files
      let state := (start.feeds lines).interpreter.state
      state.importing = [] ∧ state.dir = start.interpreter.state.dir ∧
        ∀ (run : Runner) (name : Text) (wildcard : Bool) (path : Text) (scope : ScopeId) (host : Host),
          run.importFile name wildcard path scope host state =
            (resolveImport path >>= run.enterFile name wildcard path scope) host state := by
  refine ⟨fun task host s => ?_, fun otherwise task host s => evaluatorTracking_eq _ _ _ _ _ _ rfl,
    fun otherwise ss scope host s => statements_tracking otherwise n ss scope host s, fun hs ht => ?_,
    fun settings files lines => ?_⟩
  · have h := Law.onward_task (n := n) task host s
    exact ⟨h.importing, h.dir⟩
  · have hnodup := Law.nodup_of_passes hs ht
    refine ⟨hnodup, fun known hknown => ?_⟩
    rw [← List.toFinset_card_of_nodup hnodup]
    exact Finset.card_le_card fun file hfile => hknown file (List.mem_toFinset.1 hfile)
  · have h := (Session.new settings files).onward_feeds lines
    exact ⟨h.importing, h.dir, fun run name wildcard path scope host =>
      run.importFile_of_idle h.importing⟩

/-- A state in which the import of a file is in progress, and in it that of another one. -/
def importingTwo : State :=
  { (Interpreter.new {} {} [] 0).state with importing := ["/b.em", "/a.em"] }

/-- A run that starts while two files are in progress passes a state in which two are. -/
theorem importingTwo_in_progress :
    importingTwo.importing.Nodup ∧
      (Request.run ⟨{}, [.breakLoop {}]⟩).Passes {} importingTwo importingTwo ∧
      importingTwo.importing.length ≤ importingTwo.importing.toFinset.card := by
  have hnodup : importingTwo.importing.Nodup := by decide
  have hpasses : (Request.run ⟨{}, [.breakLoop {}]⟩).Passes {} importingTwo importingTwo :=
    Request.passes_start rfl _
  exact ⟨hnodup, hpasses, ((imports_in_progress 0).2.2.2.1 hnodup hpasses).2 _
    fun _ hfile => List.mem_toFinset.2 hfile⟩

end ScriptLang
