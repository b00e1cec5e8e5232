import ScriptLang.Proofs.Eval.Signals

/-!
# Loop control in imported files

An imported file is not checked, and its declarations are not run as a list of statements, so loop
control in it that stands in no loop leaves the import as a failure and ends a loop or a list of
statements of the importer. Where the checks find none in the files that are imported, nothing of the
kind happens: an import ends with nil, and what stands behind it comes next, or it fails for good.

The files that were imported before do not matter. Their functions may hold such loop control, but it
gets out of no call, as signals are contained. So here a law is used that asks nothing of the functions
that are called, and what is known of calls comes from the law of signals.
-/

namespace ScriptLang

open Eval

/-- Whether a path names a file in which the checks find loop control outside of a loop. -/
def State.findsLoopControl (s : State) (path : Text) : Bool :=
  ((s.importTarget? path).bind s.fileProgram?).any fun b =>
    (Program.check b).any fun d => d.code == .loopControl

/-- Whether a task is to import from a file in which the checks find loop control outside of a loop. -/
def Task.importsLoopControl : Task → State → Bool
  | .stmt (.importing _ _ _ path) _, s => !path.isEmpty && s.findsLoopControl path
  | _, _ => false

/-- Whether a task never gets to one of certain tasks: whatever is done instead of them, the outcome is
the same. -/
def Task.Avoids (diverts : Task → State → Bool) (n : Nat) (task : Task) (host : Host) (s : State) :
    Prop :=
  ∀ instead : Runner, evaluatorWith { diverts, instead } n task host s = evaluator n task host s

namespace Law

theorem clean_looped {b : Block} (h : ∀ d ∈ Program.check b, d.code ≠ .loopControl) :
    looped.Clean (Check.stmts false [] b.body) := by
  intro f hf hm
  refine h f.diagnostic (List.mem_map_of_mem hf) ?_
  rcases hm with hm | hm <;>
    · unfold Finding.diagnostic
      rw [hm]
      rfl

/-- The law of programs without loop control outside of loops, in which functions may have it. -/
def imported : Law :=
  { looped with
    bodies := False
    forbids := fun task s => task.importsLoopControl s = true
    ref := fun _ _ _ _ _ => trivial
    allows_assigned := fun _ _ _ _ => trivial
    files := by
      intro span name wildcard path scope s hpath _ hallowed
      have hpath : path.isEmpty = false := by simpa using hpath
      refine ⟨id, fun file b hfile hb => ⟨clean_looped fun d hd hcode => hallowed ?_, nofun⟩⟩
      show (!path.isEmpty && s.findsLoopControl path) = true
      unfold State.findsLoopControl
      rw [hpath, hfile, Option.bind_some, hb]
      exact List.any_eq_true.2 ⟨d, hd, beq_iff_eq.2 hcode⟩ }

theorem good_imported {s : Store} {v : Value} : imported.Good s v ↔ signalless.Good s v := by
  have hfunction (f : FunctionDecl) : imported.TidyFunction f ↔ signalless.TidyFunction f :=
    iff_of_true (fun h => h.elim) (universal_signalless.tidyFunction f)
  have hstruct (t : StructType) : imported.GoodStruct t ↔ signalless.GoodStruct t :=
    iff_of_true ⟨fun _ _ h => h.elim, fun _ _ h => h.elim⟩ (universal_signalless.goodStruct t)
  induction v with
  | object _ type =>
    cases type with
    | none => exact Iff.rfl
    | some t => exact hstruct t
  | struct t => exact hstruct t
  | function _ f _ => exact hfunction f
  | method _ _ t f => exact and_congr (hstruct t) (hfunction f)
  | reference _ c => cases c <;> exact Iff.rfl
  | typed _ _ ih => exact and_congr_right fun _ => ih
  | pair _ _ iha ihb => exact and_congr iha ihb
  | returnSignal _ ih => exact and_congr_right fun _ => ih
  | _ => exact Iff.rfl

theorem inv_imported {s : Store} : imported.Inv s ↔ signalless.Inv s :=
  ⟨fun h => ⟨trivial, fun v hv => good_imported.1 (h.cells v hv),
      fun v hv => ⟨good_imported.1 (h.heap v hv).1, trivial⟩⟩,
    fun h => ⟨trivial, fun v hv => good_imported.2 (h.cells v hv),
      fun v hv => ⟨good_imported.2 (h.heap v hv).1, trivial⟩⟩⟩

/-- Runs that are stopped at the import of a file in which the checks find loop control. -/
def watched : imported.Pairing := imported.stopping Task.importsLoopControl id

/-- The same runs under the law of signals. -/
def contained : signalless.Pairing := signalless.stopping Task.importsLoopControl fun h => h.elim

theorem tidy_import {span : Span} {name path : Text} {wildcard : Bool} :
    imported.TidyStmt false [] (.importing span name wildcard path) := by
  have hclean : Check.stmt false [] (.importing span name wildcard path) = [] := by
    cases wildcard <;> simp [Check.stmt, Check.declared]
  refine ⟨fun f hf => ?_, fun r hr => absurd hr List.not_mem_nil⟩
  rw [hclean] at hf
  exact absurd hf List.not_mem_nil

variable {s : State} {n : Nat}

/-- What the law of signals says of calls is all that has to be known of them. -/
theorem watched_of_contained {x y : Eval Value}
    (h : contained.Sound .quiet s x y signalless.Good) :
    watched.Sound .quiet s x y imported.Good := by
  refine fun hs _ => ⟨fun host _ => ?_, fun _ _ _ => .inr trivial⟩
  have hcontained := (h (inv_imported.1 hs) trivial).1 host trivial
  cases hr : y host s with
  | ok v t =>
    rw [hr] at hcontained
    exact ⟨trivial, hcontained.2.1, inv_imported.2 hcontained.2.2.1, good_imported.2 hcontained.2.2.2⟩
  | error e t =>
    rw [hr] at hcontained
    refine ⟨trivial, hcontained.2.1, inv_imported.2 hcontained.2.2.1, ?_⟩
    cases e with
    | loop c => exact hcontained.2.2.2
    | _ => trivial

theorem carries_watched (n : Nat) :
    watched.Carries (evaluatorWith {} n) (evaluatorWith watched.right n) := by
  induction n with
  | zero => exact ⟨fun _ _ => .throw rfl, fun _ _ => .throw rfl, fun _ _ => .throw rfl⟩
  | succ n ih =>
    have hbuilds : watched.Builds (evaluatorWith {} n) (evaluatorWith watched.right n) :=
      fun _ hargs => watched_of_contained (Pairing.Sound.instantiate trivial (contained.carries n)
        (universal_signalless.goodStruct _) fun a ha => good_imported.1 (hargs a ha))
    exact ⟨fun he hready => .diverted trivial fun h => .stepExpr ih hbuilds he hready h,
      fun hst hready => .diverted trivial fun h => .stepStmt ih hst hready h fun _ _ _ _ _ => trivial,
      fun hf hargs => watched_of_contained ((contained.carries (n + 1)).call (good_imported.1 hf)
        fun a ha => good_imported.1 (hargs a ha))⟩

end Law

/-! ### How an import ends -/

/-- How an import may end. -/
inductive Eval.EndsImport : EStateM.Result Failure State Value → Prop
  /-- The import is done. -/
  | done (t : State) : EndsImport (.ok .nil t)
  /-- It fails with an error of the program, which has a code. -/
  | fault (f : Fault) (t : State) : EndsImport (.error (.fault f) t)
  /-- The run was cancelled. -/
  | cancelled (what : Text) (t : State) : EndsImport (.error (.cancelled what) t)
  /-- The process ended. -/
  | crash (t : State) : EndsImport (.error .crash t)
  /-- The import does not end. -/
  | stuck (t : State) : EndsImport (.error .stuck t)

/-- Whether an evaluation ends with loop control. -/
def Eval.endsLoop : EStateM.Result Failure State Value → Bool
  | .error (.loop _) _ => true
  | _ => false

theorem Eval.not_endsLoop {r : EStateM.Result Failure State Value} (h : EndsImport r) :
    endsLoop r = false := by
  cases h <;> rfl

section

variable {n : Nat} {span : Span} {name path : Text} {wildcard : Bool} {scope : ScopeId} {host : Host}
variable {s t : State}

theorem import_value {v : Value}
    (h : (evaluator n).stmt (.importing span name wildcard path) scope host s = .ok v t) : v = .nil := by
  cases n with
  | zero => cases h
  | succ n =>
    have h : located span (do
        (evaluator n).importInto name wildcard path scope
        return Value.nil) host s = .ok v t := h
    unfold located at h
    rw [bind_apply] at h
    cases hr : (evaluator n).importInto name wildcard path scope host s with
    | ok u t' =>
      rw [hr] at h
      cases h
      rfl
    | error e t' =>
      rw [hr] at h
      cases h

theorem endsImport (hs : s.store.SignalFree)
    (havoids : (Task.stmt (.importing span name wildcard path) scope).Avoids Task.importsLoopControl n
      host s) :
    EndsImport ((evaluator n).stmt (.importing span name wildcard path) scope host s) := by
  have htidy : Law.imported.TidyStmt false [] (.importing span name wildcard path) :=
    Law.tidy_import
  have hready : Law.imported.ready s.store scope [] := trivial
  have hends := ((Law.carries_watched n).stmt htidy hready
    (Law.inv_imported.2 (Law.inv_signalless.2 hs)) trivial).1 host trivial
  have hsame : (evaluatorWith Law.watched.right n).stmt (.importing span name wildcard path) scope host
      s = (evaluator n).stmt (.importing span name wildcard path) scope host s := havoids _
  rw [hsame] at hends
  cases hr : (evaluator n).stmt (.importing span name wildcard path) scope host s with
  | ok v t =>
    obtain rfl := import_value hr
    exact .done t
  | error e t =>
    rw [hr] at hends
    cases e with
    | loop c => exact absurd hends.2.2.2 (Law.not_escapes_looped c)
    | fault f => exact .fault f t
    | cancelled what => exact .cancelled what t
    | crash => exact .crash t
    | stuck => exact .stuck t

theorem Eval.checkCancelled_ok (h : checkCancelled host s = .ok () t) : t = s := by
  have h : (if host.cancels s.writes = true then throw (.cancelled "evaluation stopped") else pure () :
    Eval Unit) host s = .ok () t := h
  split at h <;> cases h
  rfl

/-- A statement that ends as imports do is followed by the rest of the list, or fails for good. -/
theorem statements_of_endsImport {run : Runner} {st : Stmt} {result : Value} {rest : List Stmt}
    (h : EndsImport (run.stmt st scope host s)) :
    run.statements scope result (st :: rest) host s =
      (do checkCancelled; let _ ← run.stmt st scope; run.statements scope .nil rest) host s := by
  rw [Runner.statements, bind_apply, bind_apply]
  cases hc : checkCancelled host s with
  | error e t => rfl
  | ok _ t =>
    obtain rfl := checkCancelled_ok hc
    dsimp only
    rw [bind_apply, bind_apply]
    unfold catchLoop
    generalize run.stmt st scope host t = r at h ⊢
    cases h <;> rfl

end

/-- An import of which the checks would approve ends without loop control. In every state that is reached
or passed, an import that never gets to a file in which the checks find loop control outside of a loop
ends with nil or fails for good, and in a list of statements the next one follows it or its failure is
that of the list. -/
theorem imports_end_without_loop_control (n : Nat) {s t : State} {vs : List Value}
    (hs : Reached anyUse s vs)
    (ht : t = s ∨ ∃ r host, Request.values r ⊆ vs ∧ r.Passes host s t)
    (span : Span) (name : Text) (wildcard : Bool) (path : Text) (scope : ScopeId) (host : Host)
    (havoids : (Task.stmt (.importing span name wildcard path) scope).Avoids Task.importsLoopControl n
      host t) :
    EndsImport ((evaluator n).stmt (.importing span name wildcard path) scope host t) ∧
      ∀ (result : Value) (rest : List Stmt),
        (evaluator n).statements scope result (.importing span name wildcard path :: rest) host t =
          (do
            checkCancelled
            let _ ← (evaluator n).stmt (.importing span name wildcard path) scope
            (evaluator n).statements scope .nil rest) host t := by
  have hfree : t.store.SignalFree := by
    rcases ht with rfl | ⟨r, host, hr, ht⟩
    · exact (Law.reached_signalFree hs).1
    · exact Law.passed_signalFree hs hr ht
  have hends := endsImport hfree havoids
  exact ⟨hends, fun _ _ => statements_of_endsImport hends⟩

/-- A state in which a file was kept that declares a constant. -/
def keptFile : State :=
  { (Interpreter.new {} {} [] 0).state with
    parsed := [("/a.em", ⟨{}, [.declare {} "x" true none none]⟩)] }

/-- A file without loop control is imported. -/
theorem keptFile_imported :
    Reached anyUse keptFile [] ∧
      (Task.stmt (.importing {} [] true "/a.em") globalScope).Avoids Task.importsLoopControl 2 {}
        keptFile ∧
      EndsImport ((evaluator 2).stmt (.importing {} [] true "/a.em") globalScope {} keptFile) := by
  have hreached : Reached anyUse keptFile [] := .outside (.new {} {} [] 0) rfl
  have havoids : (Task.stmt (.importing {} [] true "/a.em") globalScope).Avoids
      Task.importsLoopControl 2 {} keptFile := fun _ => rfl
  exact ⟨hreached, havoids,
    (imports_end_without_loop_control 2 hreached (.inl rfl) _ _ _ _ _ _ havoids).1⟩

/-- A directory with a file that declares a variable by a choice that leaves a loop. -/
def leavingFile : Files :=
  { root := .dir [("lib.em", .file "let x = match 1 { 1 => { break; } };")] }

/-- A program that imports from the file between two writes. -/
def writingTwice : Text := "println(\"a\"); import * from \"lib.em\"; println(\"b\");"

/-- Not every import ends without loop control: the file is imported although the checks find that it
leaves a loop outside of one, and the import ends the whole program, which seems to end well but never
gets to its second write. -/
theorem import_ends_program :
    (¬∀ {s : State} {vs : List Value}, Reached anyUse s vs → ∀ (n : Nat) (span : Span) (name : Text)
      (wildcard : Bool) (path : Text) (scope : ScopeId) (host : Host),
      EndsImport ((evaluator n).stmt (.importing span name wildcard path) scope host s)) ∧
    (match (Settings.run {} leavingFile writingTwice []).1 with
      | .ok .nil => true
      | _ => false) = true ∧
    (Settings.run {} leavingFile writingTwice []).2.state.writes.toList = [("a\n" : Text)] := by
  refine ⟨fun h => ?_, by decide +kernel, by decide +kernel⟩
  have hleaves : endsLoop ((evaluator 9).stmt (.importing {} [] true "lib.em") globalScope {}
      (Interpreter.new {} leavingFile [] 0).state) = true := by decide +kernel
  have hends := not_endsLoop (h (.new {} leavingFile [] 0) 9 {} [] true "lib.em" globalScope {})
  exact Bool.false_ne_true (hends.symm.trans hleaves)

end ScriptLang
