import ScriptLang.Proofs.Eval.ComparedTasks
import ScriptLang.Proofs.Eval.Runs

/-!
# Runs of programs in a compartment

Statements and imports keep to the compartment and do the same in both runs, so the evaluator does for
all tasks, by induction on the depth of tasks inside of tasks (`Comparison.carries`). An import is the
only task at which the two hosts and the files kept after parsing matter: there both runs have to load
the same program, which is carried out in a scope that was made for it.
-/

namespace ScriptLang

open Eval

/-! ### Loading a file -/

namespace Files

/-- The program of a file, or the fault of an import of it. -/
def program (files : Files) (file : Text) : Except Fault Block :=
  match files.read file with
  | .error e => .error { code := .transfer, message := "reading " ++ file ++ ": " ++ e.message }
  | .ok source =>
    match Program.parse source file with
    | .error e => .error { code := .parseFailure, message := "parsing " ++ file ++ ": " ++ e.message }
    | .ok b => .ok b

variable {files : Files} {file : Text} {b : Block} {s : State}

theorem unplaced_program {f : Fault} (h : files.program file = .error f) : f.span = none := by
  unfold program at h
  split at h
  · cases h
    rfl
  · split at h
    · cases h
      rfl
    · cases h

/-- A program that was kept is found and used last. -/
theorem loadFile_kept (host : Host) (h : s.parsed.lookup file = some b) :
    ∃ log, loadFile file host s =
      .ok b { s with parsed := s.parsed.touch file, log } := by
  unfold loadFile
  simp only [get_bind, h]
  show ∃ log, (note "import cache hit" [("path", .text file)] >>= fun _ => pure b) host
    { s with parsed := s.parsed.touch file } = _
  rw [bind_apply, Comparison.Sound.note_eq]
  dsimp only
  unfold Law.Pairing.Sound.noted
  split <;> exact ⟨_, rfl⟩

/-- A program that was not kept is that of its file, and is kept from now on. -/
theorem loadFile_new (host : Host) (h : s.parsed.lookup file = none) :
    loadFile file host s = match s.files.program file with
      | .ok b => .ok b { s with parsed := s.parsed.add host.cacheSize file b }
      | .error f => .error (.fault f) s := by
  unfold loadFile program
  simp only [get_bind, h]
  cases s.files.read file with
  | error e => rfl
  | ok source =>
    dsimp only
    cases Program.parse source file <;> rfl

end Files

/-- Whether a request never gets to one of certain tasks: a run that would be stopped there, with certain
words, is not stopped. -/
def Request.Bypasses (diverts : Task → State → Bool) (r : Request) (host : Host) (s : State) : Prop :=
  ∃ word, (Ending.of (r.evalWith { diverts, instead := fun _ => throw (.cancelled word) }
    host s)).failure ≠ some (.cancelled word)

/-- Whether a request bypasses certain tasks, with no words at all. -/
def Request.bypasses (diverts : Task → State → Bool) (r : Request) (host : Host) (s : State) : Bool :=
  (Ending.of (r.evalWith { diverts, instead := fun _ => throw (.cancelled []) } host s)).failure !=
    some (.cancelled [])

theorem Request.bypasses_of_bypasses {diverts : Task → State → Bool} {r : Request} {host : Host}
    {s : State} (h : r.bypasses diverts host s = true) : r.Bypasses diverts host s :=
  ⟨[], bne_iff_ne.1 h⟩

/-- Whether a request is about code with spans that it may have, and about good values. -/
def Compartment.Fits (C : Compartment) (s : Store) : Request → Prop
  | .run b => Spans.Within C.spans (Spans.block b) ∧ C.Owns globalScope
  | .stringify v => C.Good s v

namespace Comparison

/-- The evaluator of the first run, which is stopped at some tasks. -/
def variant (C : Comparison) : Variant where
  diverts := C.diverts
  instead := fun _ => throw (.cancelled C.word)

variable {C : Comparison} {s : State} {v : Value} {run run' : Runner} {scope : ScopeId}

namespace Sound

/-! ### Loops, conditionals and declarations -/

theorem whileTurns (hrun : C.Carries run run') {cond : Expr} {body : Block}
    (hc : Spans.Within C.spans (Spans.expr cond)) (hb : Spans.Within C.spans (Spans.block body))
    (h : C.Owns scope) (n : Nat) :
    C.Sound s (run.whileTurns cond body scope n) (run'.whileTurns cond body scope n) C.Good := by
  induction n generalizing s with
  | zero => exact throw trivial
  | succ n ih =>
    unfold Runner.whileTurns
    refine bind checkCancelled fun _ t _ _ _ => bind (hrun.expr hc h) fun c t _ _ hcond => ?_
    refine bind (located (Spans.of_expr hc) (truthy hrun hcond)) fun b t _ _ _ => ?_
    split
    · refine bind (block hrun hb h) fun v t _ _ hv => ?_
      split
      · exact pure trivial
      · exact pure hv
      · exact ih
    · exact pure trivial

theorem execWhile (hrun : C.Carries run run') (span : Span) {cond : Expr} {body : Block}
    (hc : Spans.Within C.spans (Spans.expr cond)) (hb : Spans.Within C.spans (Spans.block body))
    (h : C.Owns scope) :
    C.Sound s (run.execWhile span cond body scope) (run'.execWhile span cond body scope) C.Good :=
  bind (note _ _) fun _ _ _ _ _ => thenNote _ _ (whileTurns hrun hc hb h _)

theorem foreachBody (hrun : C.Carries run run') {body : Block} {inner : ScopeId} {x y : Eval Value}
    (hb : Spans.Within C.spans (Spans.block body)) (h : C.Owns inner)
    (hrest : ∀ t : State, s.store.Grows t.store → C.Sound t x y C.Good) :
    C.Sound s
      (do
        match ← run.statements inner .nil body.body with
        | .breakSignal => return .nil
        | .returnSignal v => return .returnSignal v
        | _ => x)
      (do
        match ← run'.statements inner .nil body.body with
        | .breakSignal => return .nil
        | .returnSignal v => return .returnSignal v
        | _ => y) C.Good := by
  refine bind (statements hrun (Spans.within_block.1 hb).2 h trivial) fun v t ht _ hv => ?_
  split
  · exact pure trivial
  · exact pure hv
  · exact hrest t ht

theorem foreachTurns (hrun : C.Carries run run') (value index : Text) {items : Items} {body : Block}
    (hitems : C.GoodItems s.store items) (hb : Spans.Within C.spans (Spans.block body))
    (h : C.Owns scope) (n i : Nat) :
    C.Sound s (run.foreachTurns value index items body scope n i)
      (run'.foreachTurns value index items body scope n i) C.Good := by
  induction n generalizing s i with
  | zero => exact pure trivial
  | succ n ih =>
    unfold Runner.foreachTurns
    refine bind (newScope h) fun inner t ht _ hinner => ?_
    refine bind (getItem (lasting_goodItems ht hitems) i) fun v u hu _ hv => ?_
    refine bind (bindName (Eval.define_eq ..) hinner hv) fun _ u' hu' _ _ => ?_
    have hitems : C.GoodItems u'.store items :=
      lasting_goodItems ((ht.trans hu).trans hu') hitems
    have turned {w : State} (hw : u'.store.Grows w.store) :=
      foreachBody (s := w) hrun hb hinner fun z hz => ih (lasting_goodItems (hw.trans hz) hitems) (i + 1)
    split
    · exact turned (.refl _)
    · exact bind (bindName (v := .number _) (Eval.define_eq ..) hinner trivial) fun _ w hw _ _ =>
        turned hw

theorem execForeach (hrun : C.Carries run run') (span : Span) (value index : Text) {iterable : Expr}
    {body : Block} (hi : Spans.Within C.spans (Spans.expr iterable))
    (hb : Spans.Within C.spans (Spans.block body)) (h : C.Owns scope) :
    C.Sound s (run.execForeach span value index iterable body scope)
      (run'.execForeach span value index iterable body scope) C.Good := by
  unfold Runner.execForeach
  refine bind (hrun.expr hi h) fun v t _ _ hv => ?_
  refine bind (located (Spans.of_expr hi) (items hrun hv)) fun items t' _ _ hitems => ?_
  refine bind (note _ _) fun _ u hu _ _ => thenNote _ _ ?_
  exact foreachTurns hrun value index (lasting_goodItems hu hitems) hb h _ _

theorem execIf (hrun : C.Carries run run') {i : IfStmt} (hi : Spans.Within C.spans (Spans.cond i))
    (h : C.Owns scope) : C.Sound s (run.execIf i scope) (run'.execIf i scope) C.Good := by
  obtain ⟨-, hcond, hyes, hno⟩ := Spans.within_cond.1 hi
  unfold Runner.execIf
  refine bind (hrun.expr hcond h) fun c t _ _ hc => ?_
  refine bind (located (Spans.of_expr hcond) (truthy hrun hc)) fun b u _ _ _ => ?_
  split
  · exact block hrun hyes h
  · split
    · next b hb => exact hrun.stmt (hno _ hb) h
    · next c hc => exact hrun.stmt (hno _ hc) h
    · exact pure trivial

theorem execDeclare (hrun : C.Carries run run') (name : Text) (constant : Bool)
    (type : Option TypeExpr) {value : Option Expr}
    (hvalue : ∀ e, value = some e → Spans.Within C.spans (Spans.expr e)) (h : C.Owns scope) :
    C.Sound s (run.execDeclare name constant type value scope)
      (run'.execDeclare name constant type value scope) C.Good := by
  have declared : ∀ {t : State} {v : Value}, C.Good t.store v → C.Sound t
      (do
        let v ← Eval.annotated scope type v
        if constant then declareConstant scope name v else define scope name v
        return Value.nil)
      (do
        let v ← Eval.annotated scope type v
        if constant then declareConstant scope name v else define scope name v
        return Value.nil) C.Good := by
    intro t v hv
    refine bind (annotated scope type hv) fun w u _ _ hw => ?_
    split
    · exact map (bindName (Eval.declareConstant_eq ..) h hw) fun _ _ _ _ => trivial
    · exact map (bindName (Eval.define_eq ..) h hw) fun _ _ _ _ => trivial
  unfold Runner.execDeclare
  cases value with
  | none => exact declared trivial
  | some e => exact bind (hrun.expr (hvalue e rfl) h) fun _ _ _ _ hv => declared hv

/-- The struct that a declaration declares. -/
theorem goodStruct_declared (id : Nat) (name : Text) (fields : List Param)
    {methods : List FunctionDecl} (hm : ∀ m ∈ methods, C.GoodFunction m) (h : C.Owns scope) :
    C.GoodStruct (StructType.declared id name fields methods scope) where
  scope := h
  methods m hmem := hm m (List.mem_filter.1 (Law.distinct_subset _ hmem)).1
  ctor c hc := hm c (List.mem_reverse.1 (List.mem_of_find?_eq_some hc))

/-! ### Imports -/

theorem importModule (name : Text) (h : C.Owns scope) :
    C.Sound s (Eval.importModule name scope) (Eval.importModule name scope) fun _ _ => True := by
  unfold Eval.importModule
  split
  · exact fail _ _
  · refine host fun host host' hh => ?_
    rw [(C.agrees hh).policy]
    split
    · exact failWithHint _ _ _
    · exact bind (note _ _) fun _ _ _ _ _ => bind (loadModule _) fun _ _ _ _ hv =>
        bindName (Eval.declareConstant_eq ..) h hv

/-- The file that an import names. -/
theorem resolved {f g : Text → Eval Unit} {path : Text}
    (h : ∀ file, s.importTarget? path = some file → C.Sound s (f file) (g file) fun _ _ => True) :
    C.Sound s (resolveImport path >>= f) (resolveImport path >>= g) fun _ _ => True := by
  unfold State.importTarget? at h
  dsimp only at h
  unfold resolveImport
  simp only [bind_assoc]
  refine state fun _ _ => ?_
  dsimp only
  generalize s.files.absolute _ = found at h ⊢
  cases found with
  | ok file => exact h file rfl
  | error e => exact bind (P := fun _ _ => False) (fail _ _) fun _ _ _ _ h => h.elim

/-- A file is loaded that both runs load alike. -/
theorem loaded {file : Text}
    (h : ∀ {host host' : Host} {s' : State}, C.hosts host host' → s.Like C.kept s' →
      LoadsAlike C.spans C.kept s s' (loadFile file host s) (loadFile file host' s')) :
    C.Sound s (loadFile file) (loadFile file)
      fun _ b => Spans.Within C.spans (Spans.block b) := by
  intro hs host host' s' hh hl
  have hload := h hh hl
  generalize loadFile file host s = r at hload ⊢
  generalize loadFile file host' s' = r' at hload ⊢
  cases hload with
  | ok hkept hb =>
    obtain ⟨_, _, rfl, -⟩ := hl
    exact .ok ⟨_, _, rfl, hkept⟩ (.refl _) hs hb
  | error he => exact .error hl (.refl _) hs (fails_unplaced he)

theorem importName {source target : ScopeId} (name : Text) (hsource : C.Owns source)
    (htarget : C.Owns target) :
    C.Sound s (Eval.importName source target name) (Eval.importName source target name)
      fun _ _ => True := by
  refine bind (lookup name hsource) fun _ _ _ _ hv =>
    bind (bindName (Eval.define_eq ..) htarget hv) fun _ _ _ _ _ => ?_
  rw [Eval.makeConstant_eq]
  exact tryScope fun _ hs ht => hs.makeConstant htarget ht

/-- The declarations of a file. -/
theorem declarations (hrun : C.Carries run run') (wanted : Option Text) {ss : List Stmt}
    (hss : ∀ st ∈ ss, Spans.Within C.spans (Spans.stmt st)) (h : C.Owns scope) :
    C.Sound s (run.declarations scope wanted ss) (run'.declarations scope wanted ss)
      fun _ _ => True := by
  induction ss generalizing s with
  | nil => exact pure trivial
  | cons st rest ih =>
    obtain ⟨hst, hrest⟩ := List.forall_mem_cons.1 hss
    unfold Runner.declarations
    dsimp only
    split
    · refine bind (hrun.stmt hst h) fun _ t _ _ _ => ?_
      have rested : ∀ (found : Bool) (t : State), C.Sound t
          (if found then return () else run.declarations scope wanted rest)
          (if found then return () else run'.declarations scope wanted rest) fun _ _ => True := by
        intro found t
        split
        · exact pure trivial
        · exact ih hrest
      cases wanted with
      | none => exact rested false t
      | some name => exact store fun _ => rested _ t
    · exact ih hrest

/-- What is imported from the program of a file. -/
theorem takeFrom (hrun : C.Carries run run') (name : Text) (wildcard : Bool) (path : Text)
    {b : Block} (hb : Spans.Within C.spans (Spans.block b)) (h : C.Owns scope) :
    C.Sound s (run.takeFrom name wildcard path scope b) (run'.takeFrom name wildcard path scope b)
      fun _ _ => True := by
  unfold Runner.takeFrom
  refine bind (newScopeOf fun _ hp => nomatch hp) fun inner t _ _ hinner => ?_
  refine bind (declarations hrun _ (Spans.within_block.1 hb).2 hinner) fun _ t _ _ _ => ?_
  split
  · refine store fun _ => map (forIn fun n _ t => ?_) fun _ _ _ _ => trivial
    exact map (importName n hinner h) fun _ _ _ _ => trivial
  · refine store fun _ => ?_
    split
    · exact importName name hinner h
    · exact fail _ _

theorem importFile (hrun : C.Carries run run') {name : Text} {wildcard : Bool} {path : Text}
    {span : Span} (h : C.Owns scope)
    (hloads : C.diverts (.stmt (.importing span name wildcard path) scope) s = false) :
    C.Sound s (run.importFile name wildcard path scope) (run'.importFile name wildcard path scope)
      fun _ _ => True := by
  rw [Runner.importFile_eq, Runner.importFile_eq]
  refine resolved fun file hfile => state fun _ _ => ?_
  split
  · exact failWithHint _ _ _
  · unfold Runner.enterFile
    refine bind (loaded fun hh hl => C.loads hh hl hloads hfile) fun b t _ _ hb => ?_
    refine bind (note _ _) fun _ u _ _ _ => duringImport fun _ _ => ?_
    exact takeFrom hrun name wildcard path hb h

/-! ### Tasks -/

theorem execStmt (hrun : C.Carries run run') {st : Stmt}
    (hst : Spans.Within C.spans (Spans.stmt st)) (h : C.Owns scope)
    (hloads : C.diverts (.stmt st scope) s = false) :
    C.Sound s (run.execStmt st scope) (run'.execStmt st scope) C.Good := by
  unfold Runner.execStmt
  cases st with
  | expr _ e => exact hrun.expr (Spans.within_cons.1 hst).2 h
  | block b => exact block hrun hst h
  | declare _ name constant type value =>
    refine execDeclare hrun name constant type (fun e he => ?_) h
    subst he
    exact (Spans.within_cons.1 hst).2
  | function decl =>
    exact bind newNumber fun n _ _ _ _ =>
      map (bindName (v := .function n decl scope) (Eval.define_eq ..) h ⟨h, hst⟩) fun _ _ _ _ => trivial
  | cond i => exact execIf hrun hst h
  | whileLoop span cond body =>
    simp only [Spans.stmt, Spans.within_cons, Spans.within_append] at hst
    exact execWhile hrun span hst.2.1 hst.2.2 h
  | foreachLoop span value index iterable body =>
    simp only [Spans.stmt, Spans.within_cons, Spans.within_append] at hst
    exact execForeach hrun span value index hst.2.1 hst.2.2 h
  | importing span name wildcard path =>
    refine map (P := fun _ _ => True) ?_ fun _ _ _ _ => trivial
    unfold Runner.importInto
    split
    · exact importModule name h
    · exact importFile hrun h hloads
  | struct _ name fields methods =>
    have hm := Spans.within_functions.1 (Spans.within_cons.1 hst).2
    exact bind newNumber fun n _ _ _ _ =>
      map (bindName (v := .struct _) (Eval.define_eq ..) h (goodStruct_declared n name fields hm h))
        fun _ _ _ _ => trivial
  | enum _ name members =>
    refine bind (newObject fun e he => ?_) fun v _ _ _ hv =>
      map (bindName (Eval.declareConstant_eq ..) h hv) fun _ _ _ _ => trivial
    obtain ⟨m, -, rfl⟩ := List.mem_map.1 he
    trivial
  | choose _ m => exact evalMatch hrun (Spans.within_cons.1 hst).2 h
  | breakLoop => exact pure trivial
  | continueLoop => exact pure trivial
  | returning _ value =>
    cases value with
    | none => exact pure trivial
    | some e => exact map (hrun.expr (Spans.within_cons.1 hst).2 h) fun _ _ _ hv => hv

/-- A task at which the first run is stopped, or that is carried out by the rules in both. -/
theorem diverted {task : Task} {Q : Store → Value → Prop}
    (h : C.diverts task s = false → C.Sound s (run task) (run' task) Q) :
    C.Sound s (run.diverted C.variant task) (run' task) Q := by
  intro hs host host' s' hh hl
  unfold Runner.diverted
  split
  · next hd => exact .stopped ⟨hd, hs⟩
  · next hd => exact h (Bool.eq_false_iff.2 hd) hs hh hl

end Sound

/-! ### Runs -/

/-- The two evaluators do the same within the compartment. -/
theorem carries (C : Comparison) (n : Nat) : C.Carries (evaluatorWith C.variant n) (evaluator n) := by
  induction n with
  | zero => exact ⟨fun _ _ => .throw trivial, fun _ _ => .throw trivial, fun _ _ => .throw trivial⟩
  | succ n ih =>
    have hstep : evaluatorWith C.variant (n + 1) =
        Runner.diverted C.variant (evaluatorWith C.variant n).step :=
      congrArg (Runner.diverted C.variant) (Runner.stepWith_usual _)
    rw [hstep]
    refine ⟨fun he h => .diverted fun _ => ?_, fun hst h => .diverted fun hd => ?_,
      fun hf hargs => .diverted fun _ => .callValue ih hf hargs⟩
    · exact .located (Spans.of_expr he) (.evalExpr ih he h)
    · exact .located (Spans.of_stmt hst) (.execStmt ih hst h hd)

theorem request (C : Comparison) {r : Request} (h : C.Fits s.store r) :
    C.Sound s (r.evalWith C.variant) r.eval C.Good := by
  have hrun := C.carries Store.depthLimit
  cases r with
  | run b =>
    exact .map (.statements hrun (Spans.within_block.1 h.1).2 h.2 trivial) fun _ _ _ hv => hv.unwrap
  | stringify v => exact .map (.stringify hrun h) fun _ _ _ _ => trivial

/-- Unless the first run of a request is stopped, the two runs end in the same way, within the
compartment. -/
theorem ends_alike (C : Comparison) {r : Request} {h h' : Host} {s' : State} (hfits : C.Fits s.store r)
    (hs : C.Sealed s.store) (hh : C.hosts h h') (hl : s.Like C.kept s')
    (hword : (Ending.of (r.evalWith C.variant h s)).failure ≠ some (.cancelled C.word)) :
    ∃ t t', t.Like C.kept t' ∧ C.Sealed t.store ∧
      ((∃ v, r.evalWith C.variant h s = .ok v t ∧ r.eval h' s' = .ok v t' ∧ C.Good t.store v) ∨
        ∃ e, r.evalWith C.variant h s = .error e t ∧ r.eval h' s' = .error e t' ∧ C.Fails e) := by
  have hout := C.request hfits hs hh hl
  generalize r.evalWith C.variant h s = x at hout hword
  generalize r.eval h' s' = y at hout
  cases hout with
  | ok hl _ ht hv => exact ⟨_, _, hl, ht, .inl ⟨_, rfl, rfl, hv⟩⟩
  | error hl _ ht he => exact ⟨_, _, hl, ht, .inr ⟨_, rfl, rfl, he⟩⟩
  | stopped => exact absurd rfl hword

/-- A run compared with itself, until it gets to certain tasks; otherwise it imports only programs with
spans that they may have. -/
def single (C : Compartment) (diverts : Task → State → Bool) (word : Text)
    (himports : ∀ {span name wildcard path scope file b} {s : State},
      diverts (.stmt (.importing span name wildcard path) scope) s = false →
      s.importTarget? path = some file → s.parsed.lookup file = none → s.files.program file = .ok b →
      Spans.Within C.spans (Spans.block b)) : Comparison where
  toCompartment := C
  kept parsed parsed' := parsed = parsed' ∧ ∀ entry ∈ parsed, Spans.Within C.spans (Spans.block entry.2)
  diverts := diverts
  word := word
  loads := by
    rintro span name wildcard path scope file h _ s _ rfl ⟨_, log, rfl, rfl, hspans⟩ hgoes hfile
    cases hkept : s.parsed.lookup file with
    | some b =>
      obtain ⟨l, hload⟩ := Files.loadFile_kept h hkept
      obtain ⟨l', hload'⟩ := Files.loadFile_kept (s := { s with log }) h hkept
      have hb := hspans (file, b) (mem_of_lookup hkept)
      rw [hload']
      rw [hload]
      exact .ok ⟨rfl, fun e he => hspans e ((KeptFiles.laws 0).touched _ _ he)⟩ hb
    | none =>
      have hload := Files.loadFile_new h hkept
      have hload' := Files.loadFile_new (s := { s with log }) h hkept
      rw [hload']
      cases hprogram : s.files.program file with
      | ok b =>
        have hb := himports hgoes hfile hkept hprogram
        rw [hprogram] at hload
        rw [hload]
        refine .ok ⟨rfl, fun entry hentry => ?_⟩ hb
        rcases (KeptFiles.laws h.cacheSize).added hentry with hold | ⟨hnew, -⟩
        · exact hspans entry hold
        · exact hnew ▸ hb
      | error f =>
        rw [hprogram] at hload
        rw [hload]
        exact .error (Files.unplaced_program hprogram)

/-! ### Single runs -/

/-- A run compared with itself, in a compartment that asks nothing of spans. -/
def alone (C : Compartment) (hspans : ∀ span, C.spans span) : Comparison :=
  .single C (fun _ _ => false) [] fun _ _ _ _ span _ => hspans span

section

variable {C : Compartment} {hspans : ∀ span, C.spans span} {α : Type} {x : Eval α}
  {Q : Store → α → Prop} {host : Host} {t : State}

theorem alone_carries (C : Compartment) (hspans : ∀ span, C.spans span) (n : Nat) :
    (alone C hspans).Carries (evaluator n) (evaluator n) := by
  have h := (alone C hspans).carries n
  rwa [show evaluatorWith (alone C hspans).variant n = evaluator n from evaluatorWith_none _ n] at h

theorem alone_request (hspans : ∀ span, C.spans span) {r : Request} (h : C.Fits s.store r) :
    (alone C hspans).Sound s r.eval r.eval C.Good := by
  have hsame : r.evalWith (alone C hspans).variant = r.eval :=
    funext fun host => funext fun s => r.avoids_none host s _
  have hsound := (alone C hspans).request h
  rwa [hsame] at hsound

theorem Sound.alone (h : (alone C hspans).Sound s x x Q) (hs : C.Sealed s.store) (host : Host) :
    (alone C hspans).Outcome s.store Q (x host s) (x host s) :=
  h hs rfl ⟨s.parsed, s.log, rfl, rfl, fun _ _ span _ => hspans span⟩

/-- However a single run ends, its store is sealed. -/
theorem Sound.alone_after (h : (Comparison.alone C hspans).Sound s x x Q) (hs : C.Sealed s.store)
    (host : Host) : C.Sealed (x.after host s).store := by
  have hout := h.alone hs host
  unfold Eval.after
  generalize x host s = r at hout
  cases hout with
  | ok _ _ ht => exact ht
  | error _ _ ht => exact ht
  | stopped hd => cases hd.diverts

theorem Sound.alone_error {e : Failure} (h : (Comparison.alone C hspans).Sound s x x Q)
    (hs : C.Sealed s.store) (hx : x host s = .error e t) : s.store.Grows t.store ∧ C.Sealed t.store := by
  have hout := h.alone hs host
  rw [hx] at hout
  cases hout with
  | error _ hgrows ht => exact ⟨hgrows, ht⟩
  | stopped hd => cases hd.diverts

/-- What a single run gives is as it should be. -/
theorem Sound.alone_ok {a : α} (h : (Comparison.alone C hspans).Sound s x x Q)
    (hs : C.Sealed s.store) (hx : x host s = .ok a t) :
    s.store.Grows t.store ∧ C.Sealed t.store ∧ Q t.store a := by
  have hout := h.alone hs host
  rw [hx] at hout
  cases hout with
  | ok _ hgrows ht hq => exact ⟨hgrows, ht, hq⟩

end

end Comparison

end ScriptLang
