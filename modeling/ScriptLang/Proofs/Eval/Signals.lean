import ScriptLang.Proofs.Eval.Runs

/-!
# Signals are contained

The signals of loop control and of a function's end are values, but no program gets hold of them: in
every state that can be reached no cell and no place on the heap holds one, an expression never gives
one, and neither does a call, which also does not fail with loop control. So what is executed in a
callee never ends or advances a loop of its caller.

A program in which the checks before a run find no loop control outside of a loop never ends a body with
loop control: neither a function, a method or a constructor that it calls, nor the program itself. The
checks do not look into imported files, so this is about runs that import none.
-/

namespace ScriptLang

open Eval

/-- Whether a value neither is a signal nor holds one. -/
def Value.signalFree : Value → Bool
  | typed v _ => v.signalFree
  | pair a b => a.signalFree && b.signalFree
  | breakSignal | continueSignal | returnSignal _ => false
  | _ => true

/-- Stores that hold no signals. -/
structure Store.SignalFree (s : Store) : Prop where
  /-- Variables and the targets of references. -/
  cells : ∀ v ∈ s.cells, v.signalFree = true
  /-- Elements of arrays, fields of objects and what is in collections. -/
  heap : ∀ v, s.Heap v → v.signalFree = true

namespace Law

/-- The law that signals are not stored. -/
def signalless : Law where
  toPrograms := .all
  le := fun _ _ _ => True
  signals := False
  le_refl := trivial
  le_trans := fun _ _ => trivial
  le_mono := fun _ _ => trivial
  le_fresh := fun _ _ _ => trivial
  heap := fun _ _ _ => ⟨trivial, id⟩
  newCell := fun _ _ _ => ⟨trivial, trivial, trivial⟩
  write := fun _ _ _ _ _ => ⟨trivial, trivial⟩
  newScope := fun _ _ => ⟨trivial, trivial, trivial⟩
  bind := fun _ _ _ _ _ => ⟨trivial, trivial, trivial⟩
  remove := fun _ _ _ _ => ⟨trivial, trivial⟩

theorem universal_signalless : signalless.Universal := rfl

theorem good_signalless {s : Store} {v : Value} : signalless.Good s v ↔ v.signalFree = true := by
  have hfunction := universal_signalless.tidyFunction
  have hstruct := universal_signalless.goodStruct
  induction v with
  | object _ type =>
    cases type with
    | none => exact iff_of_true trivial rfl
    | some t => exact iff_of_true (hstruct t) rfl
  | struct t => exact iff_of_true (hstruct t) rfl
  | function _ f _ => exact iff_of_true (hfunction f) rfl
  | method _ _ t f => exact iff_of_true ⟨hstruct t, hfunction f⟩ rfl
  | reference _ c => cases c <;> exact iff_of_true trivial rfl
  | typed _ _ ih => exact (and_iff_right trivial).trans ih
  | pair _ _ iha ihb =>
    rw [Value.signalFree, Bool.and_eq_true]
    exact and_congr iha ihb
  | breakSignal => exact iff_of_false id nofun
  | continueSignal => exact iff_of_false id nofun
  | returnSignal => exact iff_of_false (fun h => h.1) nofun
  | _ => exact iff_of_true trivial rfl

theorem inv_signalless {s : Store} : signalless.Inv s ↔ s.SignalFree :=
  ⟨fun h => ⟨fun v hv => good_signalless.1 (h.cells v hv),
      fun v hv => good_signalless.1 (h.heap v hv).1⟩,
    fun h => ⟨trivial, fun v hv => good_signalless.2 (h.cells v hv),
      fun v hv => ⟨good_signalless.2 (h.heap v hv), trivial⟩⟩⟩

end Law

/-- The end of an evaluation of which nothing but a value gets out. -/
def Eval.Contained (leaves : LoopControl → Prop) : EStateM.Result Failure State Value → Prop
  | .ok v t => v.signalFree = true ∧ t.store.SignalFree
  | .error e t => (∀ c, e = .loop c → leaves c) ∧ t.store.SignalFree

namespace Law

theorem Outcome.contained {ε : Effect} {s : State} {r : EStateM.Result Failure State Value}
    (h : signalless.Outcome ε s signalless.Good r) : Contained ε.leaves r := by
  cases r with
  | ok v t => exact ⟨good_signalless.1 h.2.2.2, inv_signalless.1 h.2.2.1⟩
  | error e t =>
    refine ⟨?_, inv_signalless.1 h.2.2.1⟩
    rintro c rfl
    exact h.2.2.2

variable {n : Nat}

theorem expr_contained {s : State} (hs : s.store.SignalFree) (e : Expr) (scope : ScopeId) (host : Host) :
    Contained (fun _ => True) ((evaluator n).expr e scope host s) := by
  have h := (universal_signalless.outcome_expr (n := n) (fun _ _ h => h) (inv_signalless.2 hs) e
    scope host).contained
  cases hr : (evaluator n).expr e scope host s with
  | ok v t =>
    rw [hr] at h
    exact h
  | error e t =>
    rw [hr] at h
    exact ⟨fun _ _ => trivial, h.2⟩

theorem call_contained {s : State} {f : Value} {args : List Value} (hs : s.store.SignalFree)
    (hf : f.signalFree = true) (hargs : ∀ a ∈ args, a.signalFree = true) (host : Host) :
    Contained (fun _ => False) ((evaluator n).call f args host s) :=
  (outcome_call (L := signalless) (fun _ _ h => h) (inv_signalless.2 hs) (good_signalless.2 hf)
    (fun a ha => good_signalless.2 (hargs a ha)) host).contained

variable {s t : State} {vs : List Value} {r : Request} {host : Host}

theorem reached_signalFree (h : Reached anyUse s vs) :
    s.store.SignalFree ∧ ∀ v ∈ vs, v.signalFree = true := by
  have h := reached universal_signalless trivial (d := fun _ _ => false) (fun h => h.elim)
    (fun {r host s} _ => r.avoids_none host s) h
  exact ⟨inv_signalless.1 h.1, fun v hv => good_signalless.1 (h.2 v hv)⟩

theorem passed_signalFree (h : Reached anyUse s vs) (hr : r.values ⊆ vs) (ht : r.Passes host s t) :
    t.store.SignalFree := by
  have h := reached_signalFree h
  refine inv_signalless.1 (passes (L := signalless) (d := fun _ _ => false) (fun h => h.elim)
    (universal_signalless.fits fun v hv => good_signalless.2 (h.2 v (hr hv)))
    (inv_signalless.2 h.1) (r.avoids_none host s) ht).1

end Law

/-- Signals are contained: no state that can be reached holds any; from a store without signals an
expression gives no value with one, and neither does a call of such a value, which does not fail with
loop control either. -/
theorem evaluator_contains_signals (n : Nat) :
    (∀ {s vs}, Reached anyUse s vs → s.store.SignalFree ∧ (∀ v ∈ vs, v.signalFree = true) ∧
      ∀ {r host t}, r.values ⊆ vs → Request.Passes r host s t → t.store.SignalFree) ∧
    (∀ (e : Expr) (scope : ScopeId) (host : Host) (s : State), s.store.SignalFree →
      Contained (fun _ => True) ((evaluator n).expr e scope host s)) ∧
    ∀ (f : Value) (args : List Value) (host : Host) (s : State), s.store.SignalFree →
      f.signalFree = true → (∀ a ∈ args, a.signalFree = true) →
      Contained (fun _ => False) ((evaluator n).call f args host s) := by
  refine ⟨fun h => ?_, fun e scope host s hs => Law.expr_contained hs e scope host,
    fun f args host s hs hf hargs => Law.call_contained hs hf hargs host⟩
  have hfree := Law.reached_signalFree h
  exact ⟨hfree.1, hfree.2, fun hr ht => Law.passed_signalFree h hr ht⟩

/-- A function that leaves a loop which is not its own. -/
def leavingFunction : Value :=
  .function 1 ⟨{}, "f", [], none, ⟨{}, [.breakLoop {}]⟩⟩ globalScope

/-- A call of a function that leaves a loop gives nil, and the loop control goes no further. -/
theorem leaving_call_contained :
    ∃ t, (evaluator 2).call leavingFunction [] {} (Interpreter.new {} {} [] 0).state = .ok .nil t ∧
      (Interpreter.new {} {} [] 0).state.store.SignalFree ∧ leavingFunction.signalFree = true ∧
      Contained (fun _ => False)
        ((evaluator 2).call leavingFunction [] {} (Interpreter.new {} {} [] 0).state) := by
  have h := ((evaluator_contains_signals 2).1 (.new {} {} [] 0)).1
  exact ⟨_, rfl, h, rfl,
    (evaluator_contains_signals 2).2.2 _ _ _ _ h rfl fun _ ha => absurd ha List.not_mem_nil⟩

/-- Whether a task is to import from a file. -/
def Task.importsFile : Task → State → Bool
  | .stmt (.importing _ _ _ path) _, _ => !path.isEmpty
  | _, _ => false

/-- What becomes of the value that a body ends with, when loop control is treated in another way. -/
def Eval.finishWith (otherwise : Value → Eval Value) : Value → Eval Value
  | .breakSignal => otherwise .breakSignal
  | .continueSignal => otherwise .continueSignal
  | v => return v.unwrap

namespace Law

/-- The law of programs without loop control outside of loops. -/
def looped : Law :=
  { signalless with
    toPrograms :=
      { Programs.all with
        excludes := fun m => m = .breakOutside ∨ m = .continueOutside
        twice := fun h => h.elim }
    forbids := fun task s => task.importsFile s = true
    remove := fun _ _ _ _ => ⟨trivial, trivial⟩
    ref := fun _ _ _ _ _ => trivial
    allows_assigned := fun _ _ _ _ => trivial
    files := by
      intro span name wildcard path scope s hpath _ hallowed
      refine absurd ?_ hallowed
      cases path with
      | nil => exact absurd rfl hpath
      | cons => rfl
    open_ := fun h => h.elim }

theorem not_escapes_looped (c : LoopControl) : ¬ looped.escapes false c := by
  cases c with
  | leave => exact fun h => h.elim Bool.false_ne_true fun h => h (.inl rfl)
  | next => exact fun h => h.elim Bool.false_ne_true fun h => h (.inr rfl)

theorem finishWith_eq (otherwise : Value → Eval Value) (v : Value)
    (hleave : v = .breakSignal → looped.escapes false .leave)
    (hnext : v = .continueSignal → looped.escapes false .next) :
    finishWith otherwise v = pure v.unwrap := by
  cases v with
  | breakSignal => exact absurd (hleave rfl) (not_escapes_looped _)
  | continueSignal => exact absurd (hnext rfl) (not_escapes_looped _)
  | _ => rfl

end Law

/-- In a run of a checked program that imports no file, no body ever ends with loop control: whatever
would be done about it makes no difference. -/
theorem Program.bodies_end_without_loop_control {b : Block}
    (hchecked : ∀ d ∈ Program.check b, d.code ≠ .loopControl) {host : Host} {files : Files}
    {dir : Text} {clock : Nat}
    (himports : (Request.run b).Avoids Task.importsFile host
      (Interpreter.new host files dir clock).state) (otherwise : Value → Eval Value) :
    Eval.programWith { finish := finishWith otherwise } b host
        (Interpreter.new host files dir clock).state =
      Eval.program b host (Interpreter.new host files dir clock).state := by
  have htidy : Law.looped.TidyStmts false [] b.body := by
    refine ⟨fun f hf hm => hchecked f.diagnostic (List.mem_map_of_mem hf) ?_,
      fun rule h => absurd h List.not_mem_nil⟩
    rcases hm with hm | hm <;>
      · unfold Finding.diagnostic
        rw [hm]
        rfl
  exact (Law.eq_or_departs (L := Law.looped) (d := Task.importsFile) (r := .run b) (fun h => h)
    ⟨htidy, trivial⟩ (Law.inv_new trivial) himports { finish := finishWith otherwise }
    (Q := fun _ => False) (fun _ h => h) (fun _ _ => nofun) (Law.finishWith_eq otherwise)
    fun _ => rfl).resolve_right id

/-- A program with a loop that is left at once. -/
def leftLoop : Block :=
  ⟨{}, [.whileLoop {} (.bool {} true) ⟨{}, [.breakLoop {}]⟩, .expr {} (.string {} "done")]⟩

theorem leftLoop_avoids_imports :
    (Request.run leftLoop).Avoids Task.importsFile {} (Interpreter.new {} {} [] 0).state :=
  have hrun : (Request.run leftLoop).eval {} (Interpreter.new {} {} [] 0).state =
    .ok (.text "done") { store := { scopes := #[{}, { parent := some 0 }] } } := rfl
  Request.avoids_of_eq hrun fun _ => rfl

theorem leftLoop_ends_without_loop_control :
    (∀ d ∈ Program.check leftLoop, d.code ≠ .loopControl) ∧
      (Request.run leftLoop).Avoids Task.importsFile {} (Interpreter.new {} {} [] 0).state ∧
      Eval.programWith { finish := finishWith fun _ => throw .crash } leftLoop {}
          (Interpreter.new {} {} [] 0).state =
        Eval.program leftLoop {} (Interpreter.new {} {} [] 0).state := by
  have hchecked : ∀ d ∈ Program.check leftLoop, d.code ≠ .loopControl := fun d hd => nomatch hd
  exact ⟨hchecked, leftLoop_avoids_imports,
    Program.bodies_end_without_loop_control hchecked leftLoop_avoids_imports _⟩

end ScriptLang
