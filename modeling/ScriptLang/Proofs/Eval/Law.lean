import ScriptLang.Proofs.Eval.Variant
import ScriptLang.Proofs.Store.Fields
import ScriptLang.Proofs.Syntax.Node
import ScriptLang.Syntax.Check

/-!
# Laws of evaluation

A *law* says what all evaluation respects: an order in which stores follow one another, an invariant
of stores, what values can be like and where they can lie, and the failures that can occur. A law need
not hold of every program. It can ask that programs are free of certain mistakes and that their nodes
follow certain rules, and it can forbid certain tasks.

A *pairing* says how two runs from the same state are compared under a law. The second of them keeps to
the law all along; it is stopped when it gets to a forbidden task. The first one does the same as the
second, up to a point at which the two may part ways. What is known of them from then on depends on the
pairing.

* When the second run is stopped at certain tasks, the first one may go on without it.
* When something else is done in the first run than the rules say, the second one still keeps to the law.
* When the host cuts the first run off, it ends there, and the second one goes on.

The fields of `Law` and of `Law.Pairing` after the data are what has to be shown of them: one condition
for each way in which evaluation changes cells and scopes, and one for each way in which two runs can
part. All other changes are covered once and for all, because a law looks at cells and scopes only and
asks the same of all values wherever they are stored.
-/

namespace ScriptLang

open Eval

/-- What an evaluation may do besides giving a value. -/
structure Effect where
  /-- The names that it may bind in scopes that are there already. -/
  binds : ScopeId → Text → Prop := fun _ _ => False
  /-- The loop control that may leave it. -/
  leaves : LoopControl → Prop := fun _ => False

namespace Effect

/-- Nothing besides a value. -/
def quiet : Effect := {}

instance : LE Effect :=
  ⟨fun ε δ => (∀ id name, ε.binds id name → δ.binds id name) ∧ ∀ c, ε.leaves c → δ.leaves c⟩

theorem le_refl (ε : Effect) : ε ≤ ε := ⟨fun _ _ h => h, fun _ h => h⟩

theorem quiet_le (ε : Effect) : quiet ≤ ε := ⟨fun _ _ h => h.elim, fun _ h => h.elim⟩

end Effect

/-- No names. -/
abbrev noNames : ScopeId → Text → Prop := fun _ _ => False

/-- Whether a value may take the place of the content of a cell: what has an annotation keeps it, and
what has none is replaced by a value as it may lie on the heap. -/
def Value.Replaces (stored : Value → Prop) (new old : Value) : Prop :=
  match old with
  | .typed _ t => ∃ u, new = .typed u t
  | _ => stored new

/-- Whether the cell that a value refers to, with annotations or without, has a property. -/
def Value.RefersTo (p : CellId → Prop) : Value → Prop
  | .reference _ (some c) => p c
  | .typed v _ => v.RefersTo p
  | _ => True

/-- Whether all the cells that a value and its parts refer to have a property. -/
def Value.RefersOnlyTo (p : CellId → Prop) : Value → Prop
  | .reference _ (some c) => p c
  | .typed v _ => v.RefersOnlyTo p
  | .returnSignal v => v.RefersOnlyTo p
  | .pair a b => a.RefersOnlyTo p ∧ b.RefersOnlyTo p
  | _ => True

theorem Value.RefersOnlyTo.mono {p q : CellId → Prop} {v : Value} (h : v.RefersOnlyTo p)
    (hpq : ∀ c, p c → q c) : v.RefersOnlyTo q := by
  induction v with
  | reference _ c =>
    cases c with
    | none => trivial
    | some c => exact hpq c h
  | typed _ _ ih => exact ih h
  | returnSignal _ ih => exact ih h
  | pair _ _ iha ihb => exact ⟨iha h.1, ihb h.2⟩
  | _ => trivial

theorem Value.refersOnlyTo_true (v : Value) : v.RefersOnlyTo fun _ => True := by
  induction v with
  | reference _ c => cases c <;> trivial
  | typed _ _ ih => exact ih
  | returnSignal _ ih => exact ih
  | pair _ _ iha ihb => exact ⟨iha, ihb⟩
  | _ => trivial

/-- The file that an import names. -/
def State.importTarget? (s : State) (path : Text) : Option Text :=
  let path := if Path.isAbsolute path || s.dir.isEmpty then path else Path.join s.dir path
  (s.files.absolute path).toOption

/-- The program that a file holds, as it was kept or as it is read. -/
def State.fileProgram? (s : State) (file : Text) : Option Block :=
  match s.parsed.lookup file with
  | some b => some b
  | none => (s.files.read file).toOption.bind fun source => (Program.parse source file).toOption

/-- The programs that a law is about. -/
structure Programs where
  /-- The mistakes that programs are free of. -/
  excludes : Mistake → Prop := fun _ => False
  /-- The rules that the nodes of programs follow. -/
  rules : List NodeRule := []
  /-- Whether it matters which names a scope binds. -/
  tracks : Prop := False
  /-- Rules say nothing of statements that only hold others. -/
  mild : ∀ r ∈ rules, (∀ b, r.stmt (.block b) = true) ∧ (∀ c, r.stmt (.cond c) = true) ∧
    ∀ span e, r.stmt (.expr span e) = true := by exact fun _ h => absurd h List.not_mem_nil
  /-- Where names matter, programs have proper names. -/
  spells : tracks → .spellable ∈ rules := by exact fun h => h.elim
  twice : tracks → ∀ name, excludes (.nameTwice name) := by exact fun h => h.elim

namespace Programs

/-- All programs. -/
def all : Programs := {}

/-- Whether a program is one of those that a law is about. -/
def Accepts (p : Programs) (b : Block) : Prop :=
  (∀ f ∈ Check.stmts false [] b.body, ¬ p.excludes f.mistake) ∧
    ∀ r ∈ p.rules, Every.stmts r b.body = true

theorem accepts_all (b : Block) : all.Accepts b :=
  ⟨fun _ _ h => h, fun _ h => absurd h List.not_mem_nil⟩

theorem files_all {s : State} {path : Text} :
    ¬ all.tracks ∧ ∀ file b, s.importTarget? path = some file → s.fileProgram? file = some b →
      all.Accepts b :=
  ⟨fun h => h, fun _ b _ _ => accepts_all b⟩

end Programs

/-- A law of evaluation. -/
structure Law extends Programs where
  /-- Whether a store may follow another one, when scopes may have gained certain names. -/
  le : (ScopeId → Text → Prop) → Store → Store → Prop
  /-- The invariant. -/
  keeps : Store → Prop := fun _ => True
  /-- Whether a scope is ready for declarations after those of certain names. -/
  ready : Store → ScopeId → List Text → Prop := fun _ _ _ => True
  /-- Whether references may name a cell. -/
  cell : Store → CellId → Prop := fun _ _ => True
  /-- Whether a value may have an annotation. -/
  typed : Value → TypeExpr → Prop := fun _ _ => True
  /-- Whether a value may lie on the heap. -/
  stored : Value → Prop := fun _ => True
  /-- Whether signals may be stored. -/
  signals : Prop := True
  /-- Whether anything is asked of the functions of a program. -/
  bodies : Prop := True
  /-- The functions of the library that values may be. -/
  native : Builtin → Prop := fun _ => True
  /-- Whether a value may be written to a cell. -/
  allows : Store → CellId → Value → Prop := fun _ _ _ => True
  /-- The failures other than loop control that can occur. -/
  fails : Failure → Prop := fun _ => True
  /-- The tasks that the law does not hold of. -/
  forbids : Task → State → Prop := fun _ _ => False
  /-- The hosts that the law speaks about. -/
  admits : Host → Prop := fun _ => True
  le_refl : ∀ {B s}, le B s s
  le_trans : ∀ {B s t u}, le B s t → le B t u → le B s u
  le_mono : ∀ {B B' s t}, (∀ id name, B id name → B' id name) → le B s t → le B' s t
  /-- Names of a scope that was not there are not missed. -/
  le_fresh : ∀ {B s t u id}, le B s t → s.scopes.size ≤ id →
    le (fun i name => i = id ∨ B i name) t u → le B s u
  heap : ∀ {B s t}, t.cells = s.cells → t.scopes = s.scopes → s.ChecksFields t →
    le B s t ∧ (keeps s → keeps t)
  cell_mono : ∀ {B s t c}, le B s t → cell s c → cell t c := by intros; trivial
  ready_mono : ∀ {s t scope names}, le noNames s t → ready s scope names → ready t scope names := by
    exact fun _ h => h
  ready_any : ∀ {s scope names}, ¬ tracks → ready s scope names := by exact fun _ => trivial
  newCell : ∀ {s} (v : Value), keeps s → v.RefersTo (cell s) →
    le noNames s (s.newCell v).2 ∧ keeps (s.newCell v).2 ∧ cell (s.newCell v).2 s.cells.size
  write : ∀ {s c v}, keeps s →
    (cell s c ∨ ∃ owner name b, (s.scope owner).find? name = some b ∧ b.constant = false ∧
      c = b.cell) →
    v.Replaces stored (s.read c) → v.RefersTo (cell s) → allows s c v →
    le noNames s (s.write c v) ∧ keeps (s.write c v)
  newScope : ∀ {s} (parent : Option ScopeId), keeps s → le noNames s (s.newScope parent).2 ∧
    keeps (s.newScope parent).2 ∧ ready (s.newScope parent).2 s.scopes.size []
  bind : ∀ {s t scope names name v constant}, keeps s → ready s scope names →
    (tracks → name ≠ []) → v.RefersTo (cell s) → s.bind scope name v constant = .ok t →
    le (fun i n => i = scope ∧ n = name) s t ∧ keeps t ∧ ready t scope (Check.declare names name)
  bind_fails : ∀ {s scope names name v constant e}, keeps s → ready s scope names →
    (tracks → Check.binds name = true → name ∉ names) → (tracks → name ≠ []) →
    s.bind scope name v constant = .error e →
    fails (.fault { code := e.code, message := e.message }) := by intros; trivial
  /-- The removal of a variable takes its binding away, or else it is forbidden. -/
  remove : ∀ {s : State} {scope name owner b span nameSpan}, keeps s.store →
    s.store.resolve scope name = some (owner, b) → b.constant = false →
    ¬ forbids (.expr (.unary span .delete (.ident nameSpan name)) scope) s →
    le noNames s.store (s.store.without owner name) ∧ keeps (s.store.without owner name)
  /-- A reference to a variable is to a cell that references may name, or else it is forbidden. -/
  ref : ∀ {s : State} {scope name owner b callSpan nameSpan span f}, keeps s.store →
    s.store.resolve scope name = some (owner, b) → Builtin.global? f = some .ref →
    ¬ forbids (.expr (.call callSpan (.ident nameSpan f) [.ident span name]) scope) s →
    (∀ id c, s.store.read b.cell ≠ .reference id c) → cell s.store b.cell := by intros; trivial
  /-- What conforms to an annotation may have it. -/
  annotate : ∀ {s scope t v u}, keeps s → s.conforms? scope t v = some true → s.raw? v = some u →
    typed u t := by intros; trivial
  /-- The functions that every program has may be values. -/
  native_global : ∀ {name f}, Builtin.global? name = some f → native f := by intros; trivial
  /-- So may the functions of modules that may be imported. -/
  native_module : ∀ {host : Host} {m : Module} {source f}, admits host →
    host.policy.allows m.name = true → f ∈ m.functions source → native f := by intros; trivial
  /-- What is no reference may take the place of a number. -/
  allows_stepped : ∀ {s c v n}, keeps s → s.raw? (s.read c) = some (.number n) →
    v.RefersTo (fun _ => False) → allows s c v := by intros; trivial
  /-- An assignment may write everything, or else it is forbidden. -/
  allows_assigned : ∀ {span op target value scope s},
    ¬ forbids (.expr (.assign span op target value) scope) s → ∀ st c v, allows st c v := by
      intros; trivial
  stored_raw : ∀ {v : Value}, (∀ u t, v ≠ .typed u t) → stored v := by intros; trivial
  stored_inner : ∀ {v t}, typed v t → stored v := by intros; trivial
  fails_plain : ∀ {e : Failure}, e.isPlain = true → fails e := by intros; trivial
  fails_located : ∀ {e : Failure} (span : Span), fails e → fails (e.located span) := by
    intros; trivial
  /-- If files can be imported, a law is about the programs in them and not about names. -/
  files : ∀ {span name wildcard path scope s}, path ≠ [] →
    (∀ r ∈ rules, r.stmt (.importing span name wildcard path) = true) →
    ¬ forbids (.stmt (.importing span name wildcard path) scope) s →
    ¬ tracks ∧ ∀ file b, s.importTarget? path = some file → s.fileProgram? file = some b →
      toPrograms.Accepts b := by exact fun _ _ _ => Programs.files_all
  /-- So it does if signals may be stored. -/
  open_ : signals → (∀ m, ¬ excludes m) := by exact fun _ _ h => h

namespace Law

variable (L : Law)

/-! ### Tidy programs -/

/-- A law that holds of all programs. -/
def Universal : Prop := L.toPrograms = .all

/-- Findings that a law does not mind. -/
def Clean (fs : List Finding) : Prop := ∀ f ∈ fs, ¬ L.excludes f.mistake

/-- An expression that a law accepts. -/
def TidyExpr (inLoop : Bool) (e : Expr) : Prop :=
  L.Clean (Check.expr inLoop e) ∧ ∀ r ∈ L.rules, Every.expr r e = true

/-- A function that a law accepts. -/
def TidyFunction (f : FunctionDecl) : Prop :=
  L.bodies → L.Clean (Check.function f) ∧ ∀ r ∈ L.rules, Every.function r f = true

/-- A choice that a law accepts. -/
def TidyChoice (inLoop : Bool) (m : MatchExpr) : Prop :=
  L.Clean (Check.choice inLoop m) ∧ ∀ r ∈ L.rules, Every.choice r m = true

/-- Statements that a law accepts in a scope that declares `names`. -/
def TidyStmts (inLoop : Bool) (names : List Text) (ss : List Stmt) : Prop :=
  L.Clean (Check.stmts inLoop names ss) ∧ ∀ r ∈ L.rules, Every.stmts r ss = true

/-- A statement that a law accepts in a scope that declares `names`. -/
def TidyStmt (inLoop : Bool) (names : List Text) (s : Stmt) : Prop :=
  L.Clean (Check.stmt inLoop names s) ∧ ∀ r ∈ L.rules, Every.stmt r s = true

/-- The loop control that can leave a part of a program. -/
def escapes (inLoop : Bool) : LoopControl → Prop
  | .leave => inLoop = true ∨ ¬ L.excludes .breakOutside
  | .next => inLoop = true ∨ ¬ L.excludes .continueOutside

/-- What can leave a part of a program that is not in a loop can leave every part. -/
theorem escapes_mono {inLoop : Bool} {c : LoopControl} (h : L.escapes false c) :
    L.escapes inLoop c := by
  cases c with
  | leave => exact .inr (h.resolve_left Bool.false_ne_true)
  | next => exact .inr (h.resolve_left Bool.false_ne_true)

/-! ### Good values -/

/-- A struct whose functions a law accepts. -/
def GoodStruct (t : StructType) : Prop :=
  (∀ m ∈ t.methods, L.TidyFunction m) ∧ ∀ c ∈ t.ctor, L.TidyFunction c

/-- A value that has tidy functions and proper annotations only, and refers to cells that may be
referred to. -/
def Good (s : Store) : Value → Prop
  | .object _ (some t) => L.GoodStruct t
  | .struct t => L.GoodStruct t
  | .function _ f _ => L.TidyFunction f
  | .native _ f => L.native f
  | .method _ _ t f => L.GoodStruct t ∧ L.TidyFunction f
  | .reference _ (some c) => L.cell s c
  | .typed v t => L.typed v t ∧ Good s v
  | .pair a b => Good s a ∧ Good s b
  | .breakSignal | .continueSignal => L.signals
  | .returnSignal v => L.signals ∧ Good s v
  | _ => True

/-- A task whose values are good. -/
def GoodTask (s : Store) : Task → Prop
  | .call f args => L.Good s f ∧ ∀ v ∈ args, L.Good s v
  | _ => True

/-- A good value that may lie on the heap. -/
def Bare (s : Store) (v : Value) : Prop := L.Good s v ∧ L.stored v

/-- The value of a statement: a good one, one that is returned, or loop control that may leave it. -/
def Done (inLoop : Bool) (s : Store) : Value → Prop
  | .breakSignal => L.escapes inLoop .leave
  | .continueSignal => L.escapes inLoop .next
  | .returnSignal v => L.Good s v
  | v => L.Good s v

/-- Stores that are in accordance with a law. -/
structure Inv (s : Store) : Prop where
  /-- The invariant holds. -/
  keeps : L.keeps s
  /-- All cells hold good values. -/
  cells : ∀ v ∈ s.cells, L.Good s v
  /-- All values on the heap are good and may lie there. -/
  heap : ∀ v, s.Heap v → L.Bare s v

variable {L}

/-! ### Laws that hold of all programs -/

namespace Universal

theorem clean (h : L.Universal) (fs : List Finding) : L.Clean fs := by
  unfold Universal at h
  intro f _
  rw [h]
  exact id

theorem follow (h : L.Universal) {p : NodeRule → Prop} : ∀ r ∈ L.rules, p r := by
  unfold Universal at h
  rw [h]
  exact fun _ hr => absurd hr List.not_mem_nil

theorem not_tracks (h : L.Universal) : ¬ L.tracks := by
  unfold Universal at h
  rw [h]
  exact id

theorem tidyExpr (h : L.Universal) (inLoop : Bool) (e : Expr) : L.TidyExpr inLoop e :=
  ⟨h.clean _, h.follow⟩

theorem tidyStmt (h : L.Universal) {inLoop : Bool} {names : List Text} (st : Stmt) :
    L.TidyStmt inLoop names st :=
  ⟨h.clean _, h.follow⟩

theorem tidyFunction (h : L.Universal) (f : FunctionDecl) : L.TidyFunction f :=
  fun _ => ⟨h.clean _, h.follow⟩

theorem goodStruct (h : L.Universal) (t : StructType) : L.GoodStruct t :=
  ⟨fun m _ => h.tidyFunction m, fun c _ => h.tidyFunction c⟩

/-- Where nothing is asked of annotations, signals and library functions, a value is good if all that it
refers to may be referred to. -/
theorem good_iff (h : L.Universal) (htyped : ∀ {v t}, L.typed v t) (hsignals : L.signals)
    (hnative : ∀ {f}, L.native f) {s : Store} {v : Value} :
    L.Good s v ↔ v.RefersOnlyTo (L.cell s) := by
  induction v with
  | object _ type =>
    cases type with
    | none => exact Iff.rfl
    | some t => exact iff_of_true (h.goodStruct t) trivial
  | struct t => exact iff_of_true (h.goodStruct t) trivial
  | function _ f _ => exact iff_of_true (h.tidyFunction f) trivial
  | method _ _ t f => exact iff_of_true ⟨h.goodStruct t, h.tidyFunction f⟩ trivial
  | native => exact iff_of_true hnative trivial
  | reference _ c => cases c <;> exact Iff.rfl
  | typed _ _ ih => exact (and_iff_right htyped).trans ih
  | pair _ _ iha ihb => exact and_congr iha ihb
  | breakSignal => exact iff_of_true hsignals trivial
  | continueSignal => exact iff_of_true hsignals trivial
  | returnSignal _ ih => exact (and_iff_right hsignals).trans ih
  | _ => exact Iff.rfl

/-- All values are good where nothing is asked of cells either. -/
theorem good (h : L.Universal) (hcell : ∀ {s c}, L.cell s c) (htyped : ∀ {v t}, L.typed v t)
    (hsignals : L.signals) (hnative : ∀ {f}, L.native f) (s : Store) (v : Value) : L.Good s v :=
  (h.good_iff htyped hsignals hnative).2 (v.refersOnlyTo_true.mono fun _ _ => hcell)

theorem ready (h : L.Universal) {st : Store} {scope : ScopeId} {names : List Text} :
    L.ready st scope names :=
  L.ready_any h.not_tracks

end Universal

/-! ### Good values in later stores -/

theorem Good.mono {B : ScopeId → Text → Prop} {s t : Store} {v : Value} (h : L.Good s v)
    (hle : L.le B s t) : L.Good t v := by
  induction v with
  | object _ type => cases type <;> exact h
  | reference _ c =>
    cases c with
    | none => trivial
    | some c => exact L.cell_mono hle h
  | typed _ _ ih => exact ⟨h.1, ih h.2⟩
  | pair _ _ iha ihb => exact ⟨iha h.1, ihb h.2⟩
  | returnSignal _ ih => exact ⟨h.1, ih h.2⟩
  | _ => exact h

theorem Bare.mono {B : ScopeId → Text → Prop} {s t : Store} {v : Value} (h : L.Bare s v)
    (hle : L.le B s t) : L.Bare t v :=
  ⟨h.1.mono hle, h.2⟩

/-- References are to cells that may be referred to. -/
theorem Good.refersTo {s : Store} {v : Value} (h : L.Good s v) : v.RefersTo (L.cell s) := by
  induction v with
  | reference _ c =>
    cases c with
    | none => trivial
    | some c => exact h
  | typed _ _ ih => exact ih h.2
  | _ => trivial

/-- Values that are neither typed nor anything that a law speaks about. -/
theorem Bare.of {s : Store} {v : Value} (h : L.Good s v) (hv : ∀ u t, v ≠ .typed u t) :
    L.Bare s v :=
  ⟨h, L.stored_raw hv⟩

theorem bare_nil {s : Store} : L.Bare s .nil := .of trivial nofun

theorem Good.plain {s : Store} {v : Value} (h : L.Good s v) : L.Bare s v.plain := by
  cases v with
  | typed v t => exact ⟨h.2, L.stored_inner h.1⟩
  | _ => exact .of h nofun

theorem Good.untyped {s : Store} {v : Value} (h : L.Good s v) : L.Good s v.untyped := by
  induction v with
  | typed _ _ ih => exact ih h.2
  | _ => exact h

theorem Bare.of_raw {s : Store} {v : Value} (h : L.Good s v) (hv : v.isRaw = true) : L.Bare s v :=
  .of h fun u t e => by
    subst e
    cases hv

theorem Good.done {inLoop : Bool} {s : Store} {v : Value} (h : L.Good s v) : L.Done inLoop s v := by
  cases v with
  | breakSignal => exact .inr (L.open_ h _)
  | continueSignal => exact .inr (L.open_ h _)
  | returnSignal => exact h.2
  | _ => exact h

namespace Inv

variable {s : Store}

theorem read (hs : L.Inv s) (c : CellId) : L.Good s (s.read c) := by
  rcases s.mem_read c with h | h
  · rw [h]
    trivial
  · exact hs.cells _ h

theorem slot (hs : L.Inv s) (b i : Nat) : L.Bare s (s.slot b i) := by
  rcases s.heap_slot b i with h | h
  · rw [h]
    exact bare_nil
  · exact hs.heap _ h

/-- What a good value holds is good. -/
theorem rawWithin (hs : L.Inv s) {n : Nat} {v w : Value} (hv : L.Good s v)
    (h : s.rawWithin n v = some w) : L.Good s w := by
  induction n generalizing v with
  | zero =>
    unfold Store.rawWithin at h
    split at h
    · cases h
      trivial
    · cases h
    · cases h
      exact hv.untyped
  | succ n ih =>
    unfold Store.rawWithin at h
    split at h
    · cases h
      trivial
    · exact ih (hs.read _) h
    · cases h
      exact hv.untyped

theorem raw (hs : L.Inv s) {v w : Value} (hv : L.Good s v) (h : s.raw? v = some w) : L.Bare s w :=
  .of_raw (hs.rawWithin hv h) (Store.isRaw_of_raw? h)

theorem deref (hs : L.Inv s) {v : Value} (hv : L.Good s v) : L.Good s (s.deref v) := by
  unfold Store.deref
  split
  · exact hs.read _
  · exact hv

theorem lookup (hs : L.Inv s) {scope : ScopeId} {name : Text} {v : Value}
    (h : s.lookup scope name = .ok v) : L.Good s v := by
  rcases Store.lookup_eq_ok h with rfl | ⟨_, b, _, rfl⟩
  · trivial
  · exact hs.read _

end Inv

end Law

/-! ### Two runs -/

/-- How many writes a host still takes, as far as it matters: whether it refuses the next one. -/
def Host.refuses (h : Host) (writes : Array Text) : Bool := h.failAfter.any (· ≤ writes.size)

/-- Whether a host has cancelled the run after certain writes. -/
def Host.cancels (h : Host) (writes : Array Text) : Bool := h.cancelAfter.any (· ≤ writes.size)

/-- How an evaluation ended, apart from its value. -/
structure Ending where
  /-- The failure, if it failed. -/
  failure : Option Failure
  /-- The store. -/
  store : Store
  /-- What was written. -/
  writes : Array Text

/-- The ending of an evaluation with a result. -/
def Ending.of {α : Type} : EStateM.Result Failure State α → Ending
  | .ok _ t => ⟨none, t.store, t.writes⟩
  | .error e t => ⟨some e, t.store, t.writes⟩

/-- What all endings have in common stands before a step if and only if it stands after it. -/
theorem Ending.unmoved {P : Prop} : (P → P) ∧ (P → P) := ⟨id, id⟩

/-- How two runs are compared under a law. -/
structure Law.Pairing (L : Law) where
  /-- The first of the two variants of the evaluator. -/
  left : Variant := {}
  /-- The tasks at which the second run is stopped. -/
  stops : Task → State → Bool := fun _ _ => false
  /-- What a run that was stopped says. -/
  stopped : Text := []
  /-- The hosts of the two runs, when there are certain writes. -/
  hosts : Host → Host → Array Text → Prop := fun h h' _ => h = h' ∧ L.admits h'
  /-- What is known of the files whose import is in progress. -/
  stands : List Text → Prop := fun _ => True
  /-- How the two runs stand after they parted. -/
  parts : Ending → Ending → Prop := fun _ _ => False
  parts_step : ∀ {l r l' r'}, parts l r → (l.failure ≠ none → l' = l) →
    (r.failure ≠ none → r' = r) →
    (r.failure = none → (∃ B, L.le B r.store r'.store) ∧ r.writes.toList <+: r'.writes.toList) →
    parts l' r' := by exact fun h _ _ _ => h.elim
  parts_located : ∀ {e store writes other} (span : Span),
    (parts ⟨some e, store, writes⟩ other → parts ⟨some (e.located span), store, writes⟩ other) ∧
    (parts other ⟨some e, store, writes⟩ → parts other ⟨some (e.located span), store, writes⟩) := by
      exact fun _ => Ending.unmoved
  parts_caught : ∀ {c store writes other},
    (parts ⟨some (.loop c), store, writes⟩ other → parts ⟨none, store, writes⟩ other) ∧
    (parts other ⟨some (.loop c), store, writes⟩ → parts other ⟨none, store, writes⟩) := by
      exact Ending.unmoved
  /-- At a task at which the second run is stopped the two part. -/
  parts_stop : ∀ {task} {s : State}, stops task s = true → ∀ l,
    parts l ⟨some (.cancelled stopped), s.store, s.writes⟩ := by
      first
      | exact fun h _ => Bool.false_ne_true h
      | exact fun h => nomatch h
  /-- At a task that is carried out otherwise in the first run the two part. -/
  parts_divert : ∀ {task} {s : State}, L.Inv s.store → L.GoodTask s.store task →
    stands s.importing → left.diverts task s = true → ∀ {B l r}, L.le B s.store r.store →
      s.writes.toList <+: r.writes.toList → parts l r := by
        exact fun _ _ _ h => nomatch h
  hosts_alike : ∀ {h h' w}, hosts h h' w → Host.Alike h h' := by
    exact fun e => e.1 ▸ Host.Alike.refl _
  hosts_admits : ∀ {h h' w}, hosts h h' w → L.admits h' := by
    first
    | exact fun e => e.2
    | exact fun _ => trivial
  /-- Both hosts take a text, or neither, or the first refuses it and the two runs part. -/
  write : ∀ {h h' w}, hosts h h' w →
    (h.refuses w = h'.refuses w ∧ (h.refuses w = false → ∀ t, hosts h h' (w.push t))) ∨
    (h.refuses w = true ∧ h'.refuses w = false ∧ ∀ store t (f : Fault), f.code = .transfer →
      parts ⟨some (.fault f), store, w⟩ ⟨none, store, w.push t⟩) := by
        exact fun e => .inl ⟨e.1 ▸ rfl, fun _ _ => e⟩
  /-- Both hosts have cancelled, or neither, or the first has and the two runs part. -/
  cancel : ∀ {h h' w}, hosts h h' w → h.cancels w = h'.cancels w ∨
    (h.cancels w = true ∧ h'.cancels w = false ∧ ∀ store what,
      parts ⟨some (.cancelled what), store, w⟩ ⟨none, store, w⟩) := by exact fun e => .inl (e.1 ▸ rfl)
  /-- What is carried out is not forbidden. -/
  allowed : ∀ {task s}, stops task s ≠ true → ¬ L.forbids task s := by exact fun _ h => h
  /-- The value that a body ends with is what the rules say. -/
  finish : ∀ v, (v = .breakSignal → L.escapes false .leave) →
    (v = .continueSignal → L.escapes false .next) → left.finish v = pure v.unwrap := by
      exact fun v _ _ => Variant.finish_usual v
  /-- Nothing is done at the start of an iteration whose scope binds nothing but the variables of the
  loop, without annotations. -/
  enter : ∀ {host} {s : State} {scope names},
    (∀ e ∈ (s.store.scope scope).values, e.1 ∈ names ∧ L.stored (s.store.read e.2)) →
    left.enter scope names host s = .ok () s := by exact fun _ => Variant.enter_usual _ _ _ _

namespace Law.Pairing

variable {L : Law} (K : L.Pairing)

/-- What is known of the files whose import is in progress is still so when the import of another file
begins. -/
def Enters : Prop := ∀ ⦃files file⦄, K.stands files → file ∉ files → K.stands (file :: files)

/-- The second of the two variants of the evaluator. -/
def right : Variant where
  diverts := K.stops
  instead := fun _ => throw (.cancelled K.stopped)

end Law.Pairing

end ScriptLang
