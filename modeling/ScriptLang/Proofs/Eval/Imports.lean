import ScriptLang.Proofs.Eval.Statements

/-!
# Imports in accordance with a law

The module of an import is bound as a constant. The declarations of a file are carried out in a scope
that nothing else can see, and what is imported from it is bound as constants of the importing scope.
A law that asks something of programs admits the import of a file only if the program in it is one that
the law accepts; which program that is can be told from the state in which the import begins.
-/

namespace ScriptLang

open Eval

theorem Module.name_of_ofName? {name : Text} {m : Module} (h : Module.ofName? name = some m) :
    m.name = name := by
  simpa using List.find?_some h

/-- Whether a statement imports from a file. -/
def Stmt.ImportsFile : Stmt → Prop
  | .importing _ _ _ path => path ≠ []
  | _ => False

namespace Eval

/-! ### Finding and reading a file -/

/-- A path is resolved in the same way by every host, and nothing changes. -/
theorem resolveImport_cases (path : Text) (s : State) :
    (∃ file, s.importTarget? path = some file ∧ ∀ host, resolveImport path host s = .ok file s) ∨
      ∃ f : Fault, f.code = .transfer ∧ ∀ host, resolveImport path host s = .error (.fault f) s := by
  unfold State.importTarget? resolveImport
  simp only [get_bind]
  generalize (if Path.isAbsolute path || s.dir.isEmpty then path else Path.join s.dir path) = p
  cases hfile : s.files.absolute p with
  | ok file => exact .inl ⟨file, rfl, fun _ => rfl⟩
  | error e =>
    exact .inr ⟨{ code := .transfer, message := "resolving " ++ p ++ ": " ++ e.lostDirectory }, rfl,
      fun _ => rfl⟩

theorem still_loadFile (path : Text) : Still (loadFile path) fun _ _ => True := by
  refine .bind .get fun st => ?_
  split
  · refine .bind (P := fun _ _ => True) (.modify (fun _ => ⟨rfl, rfl, rfl, rfl⟩) fun _ => trivial)
      fun _ => ?_
    exact .bind (still_note _ _) fun _ => .pure fun _ _ _ _ => trivial
  · split
    · exact .fail nofun
    · split
      · exact .fail nofun
      · refine .host (fun h => ?_) fun h h' hh => by rw [hh.cacheSize]
        refine .bind (P := fun _ _ => True) (.modify (fun _ => ⟨rfl, rfl, rfl, rfl⟩) fun _ => trivial)
          fun _ => .pure fun _ _ _ => trivial

theorem fileProgram_of_loadFile {file : Text} {host : Host} {s t : State} {b : Block}
    (h : loadFile file host s = .ok b t) : s.fileProgram? file = some b := by
  unfold State.fileProgram?
  unfold loadFile at h
  rw [get_bind] at h
  cases hkept : s.parsed.lookup file with
  | some b' =>
    have value {x : Eval Unit} (h : (do x; return b' : Eval Block) host s = .ok b t) : b' = b := by
      rw [bind_apply] at h
      split at h
      · cases h
        rfl
      · cases h
    rw [hkept] at h
    dsimp only at h
    rw [← bind_assoc] at h
    exact congrArg some (value h)
  | none =>
    rw [hkept] at h
    cases hread : s.files.read file with
    | error e =>
      rw [hread] at h
      cases h
    | ok source =>
      rw [hread] at h
      cases hparse : Program.parse source file with
      | error e =>
        simp only [hparse] at h
        cases h
      | ok b' =>
        simp only [hparse] at h
        cases h
        simp [Except.toOption, hparse]

/-- A variable that is made a constant at once is bound as a constant. -/
theorem define_constant {target : ScopeId} {name : Text} {v : Value} {s : State}
    (hid : target < s.store.scopes.size) (host : Host) :
    (do define target name v; naming (Naming.makeConstant target name) : Eval Unit) host s =
      Eval.tryScope (fun st => st.bind target name v true) host s := by
  rw [Eval.define_eq, Eval.makeConstant_eq, bind_apply]
  unfold Eval.tryScope
  cases hdef : s.store.bind target name v false with
  | error e =>
    have herror : s.store.bind target name v true = .error e := Store.bind_eq_error_of hdef
    simp only [hdef, herror]
  | ok t =>
    have hmade := Store.makeConstant_of_define hid hdef
    simp only [hdef, hmade]
    cases hbind : s.store.bind target name v true with
    | ok u => rfl
    | error e =>
      -- the variable could not have been bound either
      have herror : s.store.bind target name v false = .error e := Store.bind_eq_error_of hbind
      rw [hdef] at herror
      cases herror

end Eval

/-- What is imported from the program of a file. -/
def Runner.takeFrom (run : Runner) (name : Text) (wildcard : Bool) (path : Text) (scope : ScopeId)
    (b : Block) : Eval Unit := do
  let inner ← change fun s => s.newScope none
  run.declarations inner (if wildcard then none else some name) b.body
  if wildcard then
    for n in (← store).names inner do importName inner scope n
  else if (← store).hasLocal inner name then importName inner scope name
  else fail .undefinedIdentifier ("'" ++ name ++ "' is not declared in " ++ path)

/-- Import from a file that is not looked for among those in progress. -/
def Runner.enterFile (run : Runner) (name : Text) (wildcard : Bool) (path : Text) (scope : ScopeId)
    (file : Text) : Eval Unit := do
  let b ← loadFile file
  note "import" [("path", .text file), ("name", .text name), ("wildcard", .bool wildcard)]
  duringImport file (run.takeFrom name wildcard path scope b)

theorem Runner.importFile_eq (run : Runner) (name : Text) (wildcard : Bool) (path : Text)
    (scope : ScopeId) :
    run.importFile name wildcard path scope = (do
      let file ← resolveImport path
      if (← get).importing.contains file then
        failWithHint .importCycle ("import cycle through " ++ path)
          "move the shared declarations into a file both can import"
      else run.enterFile name wildcard path scope file) :=
  rfl

namespace Law

namespace Pairing.Sound

variable {L : Law} {K : L.Pairing} {ε : Effect} {s : State} {v w : Value} {run run' : Runner}
variable {inLoop : Bool} {scope : ScopeId} {names : List Text} {span : Span} {name : Text}

theorem importModule (hε : ε.binds scope name) (hready : L.ready s.store scope names)
    (hnew : L.tracks → Check.binds name = true → name ∉ names) :
    K.Sound ε s (Eval.importModule name scope) (Eval.importModule name scope) fun t _ =>
      L.ready t scope (Check.declare names name) := by
  have hname : ∀ m, Module.ofName? name = some m → name ≠ [] := by
    rintro m hm rfl
    cases hm
  unfold Eval.importModule
  split
  · exact fail nofun
  · next m hm =>
    refine host (fun h hadmits => ?_) fun h h' hh => by rw [hh.policy]
    split
    · exact failWithHint nofun
    · next hdenied =>
      have hallows : h.policy.allows m.name = true := by
        rw [Module.name_of_ofName? hm]
        simpa using hdenied
      refine bind_le (look (still_note _ _)) (Effect.quiet_le ε) fun _ t₁ h₁ _ _ => ?_
      refine bind_le (loadModule fun _ _ => L.native_module hadmits hallows) (Effect.quiet_le ε)
        fun v t₂ h₂ _ hv => ?_
      have hready := L.ready_mono (L.le_trans h₁ h₂) hready
      exact (bindName (Eval.declareConstant_eq ..) hε hready (fun _ => hname m hm) hnew hv).mono
        (Effect.le_refl ε) fun _ _ _ _ h => h.1

/-- The file that an import names. -/
theorem resolved {α : Type} {f g : Text → Eval α} {R : Store → α → Prop} {path : Text}
    (h : ∀ file, s.importTarget? path = some file → K.Sound ε s (f file) (g file) R) :
    K.Sound ε s (resolveImport path >>= f) (resolveImport path >>= g) R := by
  rcases resolveImport_cases path s with ⟨file, hfile, hrun⟩ | ⟨e, he, hrun⟩
  · refine (h file hfile).congr (fun host => ?_) fun host => ?_ <;> rw [bind_apply, hrun]
  · have failed : K.Sound ε s (MonadExcept.throw (Failure.fault e))
        (MonadExcept.throw (Failure.fault e)) R := throw (by simp [Failure.isPlain, he])
    refine failed.congr (fun host => ?_) fun host => ?_ <;> rw [bind_apply, hrun] <;> rfl

/-- A variable that is made a constant at once. -/
theorem bindConstant {target : ScopeId} (hε : ε.binds target name) (hany : ¬ L.tracks)
    (hv : L.Good s.store v) :
    K.Sound ε s
      (do define target name v; naming (Naming.makeConstant target name))
      (do define target name v; naming (Naming.makeConstant target name))
      fun _ _ => True := by
  have bound : ∀ constant, K.Sound ε s
      (Eval.tryScope fun st => st.bind target name v constant)
      (Eval.tryScope fun st => st.bind target name v constant) fun t _ =>
        L.ready t target (Check.declare [] name) ∧ s.store.bind target name v constant = .ok t :=
    fun constant => bindName rfl hε (L.ready_any hany) (fun h => absurd h hany)
      (fun h => absurd h hany) hv
  by_cases hid : target < s.store.scopes.size
  · exact congr (define_constant hid) (define_constant hid) (bound true).forget
  · have hid : s.store.scopes.size ≤ target := Nat.le_of_not_lt hid
    rw [Eval.define_eq, Eval.makeConstant_eq]
    refine bind (bound false) fun _ t _ _ ht => tryScope (fun u hu hmade => ?_) fun e _ he => ?_
    · have hsize : t.store.scopes.size ≤ target := Store.size_bind ht.2 ▸ hid
      obtain rfl := Store.makeConstant_of_size_le hsize hmade
      exact ⟨L.le_refl, hu, trivial⟩
    · exact L.fails_plain (by simpa [Failure.isPlain] using Store.makeConstant_eq_error he)

theorem importName {source target : ScopeId} (hε : ε.binds target name) (hany : ¬ L.tracks) :
    K.Sound ε s (Eval.importName source target name) (Eval.importName source target name)
      fun _ _ => True :=
  bind (lookup source name) fun _ _ _ _ h => bindConstant hε hany h.1

/-- The declarations of a file, in a scope of their own. -/
theorem declarations (hrun : K.Carries run run') (hany : ¬ L.tracks) (wanted : Option Text)
    (hε : ∀ n, ε.binds scope n) (hleaves : ∀ c, L.escapes false c → ε.leaves c) {ss : List Stmt}
    (h : L.TidyStmts false names ss) :
    K.Sound ε s (run.declarations scope wanted ss) (run'.declarations scope wanted ss)
      fun _ _ => True := by
  induction ss generalizing s names with
  | nil => exact pure trivial
  | cons st rest ih =>
    obtain ⟨hst, hrest⟩ := h.cons
    have stated : ∀ t : State, K.Sound ε t (run.stmt st scope) (run'.stmt st scope)
        fun _ _ => True := fun t =>
      (hrun.stmt hst (L.ready_any hany)).mono ⟨fun i n h => h.1 ▸ hε n, hleaves⟩
        fun _ _ _ _ _ => trivial
    unfold Runner.declarations
    dsimp only
    split
    · refine bind (stated s) fun _ t _ _ _ => ?_
      have rested : ∀ (found : Bool) (t : State), K.Sound ε t
          (if found then return () else run.declarations scope wanted rest)
          (if found then return () else run'.declarations scope wanted rest) fun _ _ => True := by
        intro found t
        split
        · exact pure trivial
        · exact ih hrest
      cases wanted with
      | none => exact bind (P := fun _ _ => True) (pure trivial) fun b t _ _ _ => rested b t
      | some name =>
        refine store fun _ => ?_
        exact bind (P := fun _ _ => True) (pure trivial) fun b t _ _ _ => rested b t
    · exact ih hrest

/-- What is imported from the program of a file. -/
theorem takeFrom (hrun : K.Carries run run') (hany : ¬ L.tracks) {wildcard : Bool} (path : Text)
    {b : Block} (hb : L.TidyStmts false [] b.body)
    (hε : ∀ n, wildcard = true ∨ n = name → ε.binds scope n)
    (hleaves : ∀ c, L.escapes false c → ε.leaves c) :
    K.Sound ε s (run.takeFrom name wildcard path scope b) (run'.takeFrom name wildcard path scope b)
      fun _ _ => True := by
  unfold Runner.takeFrom
  refine inScope (newScopeOf none) fun inner t _ _ _ => ?_
  refine bind (declarations hrun hany _ (by exact fun _ => .inl rfl) (by exact hleaves) hb)
    fun _ t _ _ _ => ?_
  split
  · next hw =>
    refine store fun _ => map (forIn (I := fun _ => True) trivial fun n _ t _ => ?_)
      fun _ _ _ _ => trivial
    exact map (importName (by exact .inr (hε n (.inl hw))) hany) fun _ _ _ _ => trivial
  · refine store fun _ => ?_
    split
    · exact importName (by exact .inr (hε name (.inr rfl))) hany
    · exact fail nofun

/-- An import from a file, by what is imported from its program. -/
theorem importFile_of (henters : K.Enters) {wildcard : Bool} {path : Text}
    (htake : ∀ file b, s.importTarget? path = some file → s.fileProgram? file = some b →
      ∀ t, K.Sound ε t (run.takeFrom name wildcard path scope b) (run'.takeFrom name wildcard path scope b)
        fun _ _ => True) :
    K.Sound ε s (run.importFile name wildcard path scope) (run'.importFile name wildcard path scope)
      fun _ _ => True := by
  rw [Runner.importFile_eq, Runner.importFile_eq]
  refine resolved fun file hfile => state ?_
  split
  · exact failWithHint nofun
  · next hnew =>
    unfold Runner.enterFile
    refine look_bind (still_loadFile file) fun b t ⟨h, t', hload⟩ _ ht => ?_
    refine look_bind (still_note _ _) fun _ u _ _ hu => ?_
    have hnew : file ∉ u.importing := by
      rw [hu, ht]
      exact fun h => hnew (List.contains_iff_mem.2 h)
    exact duringImport henters hnew fun _ _ _ => htake file b hfile (fileProgram_of_loadFile hload) _

theorem importFile (hrun : K.Carries run run') (henters : K.Enters) (hany : ¬ L.tracks)
    {wildcard : Bool} {path : Text}
    (htidy : ∀ file b, s.importTarget? path = some file → s.fileProgram? file = some b →
      L.TidyStmts false [] b.body)
    (hε : ∀ n, wildcard = true ∨ n = name → ε.binds scope n)
    (hleaves : ∀ c, L.escapes false c → ε.leaves c) :
    K.Sound ε s (run.importFile name wildcard path scope) (run'.importFile name wildcard path scope)
      fun _ _ => True :=
  importFile_of henters fun file b hfile hb _ => takeFrom hrun hany path (htidy file b hfile hb) hε hleaves

/-- An import leaves the scope ready for what comes after it. -/
theorem importInto (hrun : K.Carries run run') {wildcard : Bool} {path : Text}
    (henters : path ≠ [] → K.Enters)
    (h : L.TidyStmt inLoop names (.importing span name wildcard path))
    (hready : L.ready s.store scope names)
    (hallowed : ¬ L.forbids (.stmt (.importing span name wildcard path) scope) s) :
    K.Sound (L.stmtEffect inLoop scope (.importing span name wildcard path)) s
      (run.importInto name wildcard path scope) (run'.importInto name wildcard path scope)
      fun t _ => L.ready t scope
        (Check.declare names (Check.declaredName (.importing span name wildcard path))) := by
  unfold Runner.importInto
  split
  · next hpath =>
    -- all names of a module would be imported by an empty name
    have hname : L.tracks → wildcard = true → name = [] := by
      intro ht hw
      have hr := h.named ht
      subst hw
      exact List.isEmpty_iff.1 hr
    have hnew : L.tracks → Check.binds name = true → name ∉ names := by
      intro ht hb
      cases wildcard with
      | true =>
        rw [hname ht rfl] at hb
        cases hb
      | false => exact fresh_of_clean (h.importing rfl) ht hb
    refine (importModule (by exact ⟨rfl, .inr rfl⟩) hready hnew).mono (Effect.le_refl _)
      fun t _ _ _ ht => ?_
    by_cases htracks : L.tracks
    · cases wildcard with
      | true =>
        rw [hname htracks rfl] at ht ⊢
        exact ht
      | false => exact ht
    · exact L.ready_any htracks
  · next hpath =>
    have hpath : path ≠ [] := fun h => hpath (List.isEmpty_iff.2 h)
    obtain ⟨hany, htidy⟩ := L.files hpath h.rule hallowed
    exact (importFile hrun (henters hpath) hany htidy (by exact fun n hn => ⟨rfl, hn⟩)
      (by exact fun _ h => L.escapes_mono h)).mono (Effect.le_refl _)
        fun _ _ _ _ _ => L.ready_any hany

end Pairing.Sound

end Law

end ScriptLang
