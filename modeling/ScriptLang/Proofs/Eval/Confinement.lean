import ScriptLang.Proofs.Eval.Signals

/-!
# Modules are confined

The policy of the host decides which modules of the library are loaded: whatever the loading of another
module would do makes no difference to any evaluation. Other modules do not come in by another way
either. No function of theirs is ever in a cell, so no variable, closure or reference leads to one; none
is ever on the heap, in an array, an object or a collection; and no run gives one. This is a law that
asks of hosts that they have the policy, and it holds of imported files and of the inputs of a session as
it does of any program.
-/

namespace ScriptLang

open Eval

/-! ### Loading -/

/-- Import a module of the library, when modules are loaded in another way. -/
def Eval.importModuleBy (load : Module → Eval Value) (name : Text) (scope : ScopeId) : Eval Unit := do
  match Module.ofName? name with
  | none => fail .undefinedIdentifier ("unknown module '" ++ name ++ "'")
  | some m =>
    if !(← read).policy.allows name then
      failWithHint .moduleDenied
        ("module '" ++ name ++ "' is not allowed by the module policy")
        "add it to [modules] allow in ember.toml"
    else
      note "import module" [("module", .text name)]
      declareConstant scope name (← load m)

/-- Load a module that the policy admits, and do something else for any other. -/
def Eval.loadAllowed (otherwise : Module → Eval Value) (m : Module) : Eval Value := do
  if (← read).policy.allows m.name then m.load else otherwise m

/-- Whether a task is to import a module of the library. -/
def Task.importsModule : Task → State → Bool
  | .stmt (.importing _ _ _ path) _, _ => path.isEmpty
  | _, _ => false

/-- The variant of the evaluator in which modules are loaded in another way. -/
def loadingBy (load : Module → Eval Value) : Variant where
  diverts := Task.importsModule
  instead
    | .stmt (.importing span name _ _) scope =>
      located span (do importModuleBy load name scope; return .nil)
    | _ => throw .stuck

/-- No module is loaded that the policy does not admit. -/
theorem Eval.importModuleBy_allowed (otherwise : Module → Eval Value) :
    importModuleBy (loadAllowed otherwise) = importModule := by
  funext name scope host s
  unfold importModuleBy importModule
  cases hm : Module.ofName? name with
  | none => rfl
  | some m =>
    show (if (!host.policy.allows name) = true then _ else _ : Eval Unit) host s =
      (if (!host.policy.allows name) = true then _ else _ : Eval Unit) host s
    cases hallows : host.policy.allows name with
    | false => rfl
    | true =>
      have hload : ∀ t, loadAllowed otherwise m host t = m.load host t := fun t => by
        show (if host.policy.allows m.name = true then m.load else otherwise m) host t = _
        rw [Module.name_of_ofName? hm, if_pos hallows]
      show ((note _ _ : Eval Unit) >>= fun _ => loadAllowed otherwise m >>= _) host s =
        ((note _ _ : Eval Unit) >>= fun _ => m.load >>= _) host s
      rw [bind_apply, bind_apply]
      split
      · rw [bind_apply, bind_apply, hload]
      · rfl

/-- An import of a module is carried out by the rules. -/
theorem loadingBy_instead (otherwise : Module → Eval Value) (run : Runner) {task : Task} {s : State}
    (h : task.importsModule s = true) :
    (loadingBy (loadAllowed otherwise)).instead task = run.step task := by
  cases task with
  | stmt st scope =>
    cases st with
    | importing span name wildcard path =>
      unfold loadingBy Runner.step Runner.execStmt Runner.importInto
      dsimp only
      rw [importModuleBy_allowed, if_pos (show path.isEmpty = true from h)]
      rfl
    | _ => cases h
  | _ => cases h

theorem evaluatorWith_loadingBy (otherwise : Module → Eval Value) (n : Nat) :
    evaluatorWith (loadingBy (loadAllowed otherwise)) n = evaluator n := by
  induction n with
  | zero => rfl
  | succ n ih =>
    unfold evaluatorWith evaluator
    rw [ih]
    funext task host s
    unfold Runner.diverted
    split
    · next h => rw [loadingBy_instead otherwise (evaluator n) h]
    · exact congrArg (fun run => run task host s) (Runner.stepWith_usual (evaluator n))

theorem evalWith_loadingBy (otherwise : Module → Eval Value) (r : Request) :
    r.evalWith (loadingBy (loadAllowed otherwise)) = r.eval := by
  have hsame : evaluateWith (loadingBy (loadAllowed otherwise)) = evaluate :=
    evaluatorWith_loadingBy otherwise _
  cases r with
  | run b =>
    unfold Request.evalWith Eval.programWith
    rw [hsame]
    rfl
  | stringify v =>
    unfold Request.evalWith
    rw [hsame]
    rfl

/-! ### Where values lie -/

/-- Whether all modules that a function belongs to may be imported. -/
def Builtin.Admitted (allows : Text → Bool) (f : Builtin) : Prop :=
  ∀ (m : Module) (source : Nat), f ∈ m.functions source → allows m.name = true

/-- Whether a value neither is a function of a module that may not be imported nor holds one. -/
def Value.Confined (allows : Text → Bool) : Value → Prop
  | native _ f => f.Admitted allows
  | typed v _ => v.Confined allows
  | pair a b => a.Confined allows ∧ b.Confined allows
  | returnSignal v => v.Confined allows
  | _ => True

/-- Stores that hold no function of a module that may not be imported. -/
structure Store.Confined (allows : Text → Bool) (s : Store) : Prop where
  /-- Variables of all scopes, those of closures among them, and the targets of references. -/
  cells : ∀ v ∈ s.cells, v.Confined allows
  /-- Elements of arrays, fields of objects and what is in collections. -/
  heap : ∀ v, s.Heap v → v.Confined allows

/-- The functions that every program has belong to no module. -/
theorem Builtin.admitted_global {allows : Text → Bool} {name : Text} {f : Builtin}
    (h : Builtin.global? name = some f) : f.Admitted allows := by
  have hglobal : f ∈ Builtin.globals := List.mem_of_find?_eq_some h
  intro m source hf
  cases m <;> cases f <;> simp [Module.functions, Builtin.globals] at hf hglobal

/-- A function belongs to one module only. -/
theorem Module.eq_of_mem_functions {m m' : Module} {source source' : Nat} {f : Builtin}
    (h : f ∈ m.functions source) (h' : f ∈ m'.functions source') : m' = m := by
  cases f <;> cases m <;> simp [Module.functions] at h <;>
    cases m' <;> simp [Module.functions] at h' ⊢

namespace Law

/-- The law that only modules that the host admits are loaded. -/
def confined (allows : Text → Bool) : Law :=
  { signalless with
    signals := True
    native := fun f => f.Admitted allows
    admits := fun host => host.policy.allows = allows
    ref := fun _ _ _ _ _ => trivial
    native_global := fun h => Builtin.admitted_global h
    native_module := by
      intro host m source f hhost hm hf m' source' hf'
      rw [Module.eq_of_mem_functions hf hf', ← hhost]
      exact hm
    allows_assigned := fun _ _ _ _ => trivial
    open_ := fun _ _ h => h }

variable {allows : Text → Bool} {s t : State} {vs : List Value} {r : Request} {host : Host}

theorem universal_confined : (confined allows).Universal := rfl

theorem good_confined {s : Store} {v : Value} :
    (confined allows).Good s v ↔ v.Confined allows := by
  have huniversal : (confined allows).Universal := universal_confined
  have hfunction := huniversal.tidyFunction
  have hstruct := huniversal.goodStruct
  induction v with
  | object _ type =>
    cases type with
    | none => exact Iff.rfl
    | some t => exact iff_of_true (hstruct t) trivial
  | struct t => exact iff_of_true (hstruct t) trivial
  | function _ f _ => exact iff_of_true (hfunction f) trivial
  | method _ _ t f => exact iff_of_true ⟨hstruct t, hfunction f⟩ trivial
  | reference _ c => cases c <;> exact Iff.rfl
  | typed _ _ ih => exact (and_iff_right trivial).trans ih
  | pair _ _ iha ihb => exact and_congr iha ihb
  | returnSignal _ ih => exact (and_iff_right trivial).trans ih
  | _ => exact Iff.rfl

theorem inv_confined {s : Store} : (confined allows).Inv s ↔ s.Confined allows :=
  ⟨fun h => ⟨fun v hv => good_confined.1 (h.cells v hv), fun v hv => good_confined.1 (h.heap v hv).1⟩,
    fun h => ⟨trivial, fun v hv => good_confined.2 (h.cells v hv),
      fun v hv => ⟨good_confined.2 (h.heap v hv), trivial⟩⟩⟩

end Law

/-- Any use of interpreters whose hosts admit certain modules. -/
abbrev useUnder (allows : Text → Bool) : Request → Host → State → Prop :=
  fun _ host _ => host.policy.allows = allows

namespace Law

variable {allows : Text → Bool} {s t : State} {vs : List Value} {r : Request} {host : Host}

theorem reached_confined (h : Reached (useUnder allows) s vs) :
    s.store.Confined allows ∧ ∀ v ∈ vs, v.Confined allows := by
  have h := reached (L := confined allows) universal_confined trivial (d := fun _ _ => false)
    (fun h => h.elim) (fun {r host s} _ => r.avoids_none host s) h id
  exact ⟨inv_confined.1 h.1, fun v hv => good_confined.1 (h.2 v hv)⟩

theorem passed_confined (h : Reached (useUnder allows) s vs) (hr : r.values ⊆ vs)
    (hhost : host.policy.allows = allows) (ht : r.Passes host s t) : t.store.Confined allows := by
  have h := reached_confined h
  exact inv_confined.1 (passes (L := confined allows) (d := fun _ _ => false) (fun h => h.elim)
    (universal_confined.fits fun v hv => good_confined.2 (h.2 v (hr hv))) (inv_confined.2 h.1)
    (r.avoids_none host s) ht hhost).1

end Law

/-! ### Under settings -/

/-- Whether a module may be imported under settings; without a policy none may. -/
def Settings.allows (settings : Settings) (module : Text) : Bool :=
  settings.policy.any fun p => p.allows module

theorem Settings.host_allows (settings : Settings) : settings.host.policy.allows = settings.allows := by
  unfold Settings.host Settings.allows
  cases settings.policy <;> rfl

namespace Session

variable {allows : Text → Bool} {session : Session} {vs : List Value}

theorem reached_feeds (h : Reached (useUnder allows) session.interpreter.state vs)
    (hhost : session.interpreter.host.policy.allows = allows) (lines : List Text) :
    ∃ vs, Reached (useUnder allows) (session.feeds lines).interpreter.state vs ∧
      (session.feeds lines).interpreter.host.policy.allows = allows := by
  induction lines generalizing session vs with
  | nil => exact ⟨vs, h, hhost⟩
  | cons line lines ih =>
    obtain ⟨vs, hvs, -⟩ := reached_feed h (fun _ _ => hhost) line
    exact ih hvs (session.host_feed line ▸ hhost)

theorem reached_new (settings : Settings) (files : Files) :
    Reached (useUnder settings.allows) (new settings files).interpreter.state [] :=
  .new _ _ _ _

end Session

/-- Modules are confined. No evaluation loads a module that the policy of its host does not admit, so it
makes no difference what loading it would do. In every state that hosts with a policy lead to, and in
every state that their runs pass, no function of any other module lies in a cell or on the heap, and no
run gives one. So it is with the run of a program text and with the inputs of a session, under a policy or
without one. -/
theorem modules_confined :
    (∀ (otherwise : Module → Eval Value) (n : Nat),
      evaluatorWith (loadingBy (loadAllowed otherwise)) n = evaluator n) ∧
    (∀ (otherwise : Module → Eval Value) (r : Request),
      r.evalWith (loadingBy (loadAllowed otherwise)) = r.eval) ∧
    (∀ {allows s vs}, Reached (useUnder allows) s vs → s.store.Confined allows ∧
      (∀ v ∈ vs, v.Confined allows) ∧ ∀ {r host t}, r.values ⊆ vs → host.policy.allows = allows →
        Request.Passes r host s t → t.store.Confined allows) ∧
    ∀ (settings : Settings) (files : Files), settings.host.policy.allows = settings.allows ∧
      (∀ source file : Text,
        (settings.run files source file).2.state.store.Confined settings.allows ∧
          ∀ v, (settings.run files source file).1 = .ok v → v.Confined settings.allows) ∧
      ∀ lines : List Text,
        let session := (Session.new settings files).feeds lines
        session.interpreter.host.policy.allows = settings.allows ∧
          session.interpreter.state.store.Confined settings.allows ∧
          ∀ line v, (session.feed line).1 = .value v → v.Confined settings.allows := by
  refine ⟨evaluatorWith_loadingBy, evalWith_loadingBy, fun h => ?_, fun settings files =>
    ⟨settings.host_allows, fun source file => ?_, fun lines => ?_⟩⟩
  · exact ⟨(Law.reached_confined h).1, (Law.reached_confined h).2,
      fun hr hhost ht => Law.passed_confined h hr hhost ht⟩
  · have hallowed : ∀ b s, Program.check b = [] →
        useUnder settings.allows (.run b) settings.host s := fun _ _ _ => settings.host_allows
    obtain ⟨vs, hvs, hmem⟩ := settings.reached_run files source file hallowed
    have hconfined := Law.reached_confined hvs
    exact ⟨hconfined.1, fun v hv => hconfined.2 v (hmem v hv)⟩
  · obtain ⟨vs, hvs, hhost⟩ := Session.reached_feeds (Session.reached_new settings files)
      settings.host_allows lines
    refine ⟨hhost, (Law.reached_confined hvs).1, fun line v hv => ?_⟩
    obtain ⟨ws, hws, hmem⟩ := Session.reached_feed hvs (fun _ _ => hhost) line
    exact (Law.reached_confined hws).2 v (hmem v hv)

/-- A host that admits no module but `json`. -/
def jsonOnly : Host := { policy := Policy.ofLists ["json"] [] }

/-- A program that imports the module `json` and ends with one of its functions. -/
def importingJson : Block :=
  ⟨{}, [.importing {} "json" false [], .expr {} (.member {} (.ident {} "json") "parse")]⟩

theorem importingJson_confined :
    ∃ k t, (Request.run importingJson).eval jsonOnly (Interpreter.new jsonOnly {} [] 0).state =
        .ok (.native k .parseJson) t ∧ t.store.Confined jsonOnly.policy.allows ∧
      ¬ (Value.native k .readFile).Confined jsonOnly.policy.allows := by
  refine ⟨_, _, rfl, ?_, fun h => ?_⟩
  · exact (modules_confined.2.2.1 (.gives (.run importingJson) jsonOnly (.new jsonOnly {} [] 0)
      (List.nil_subset _) rfl rfl)).1
  · exact absurd (h .fs 0 List.mem_cons_self) (by decide)

end ScriptLang
