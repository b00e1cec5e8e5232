import ScriptLang.Proofs.Eval.Work

/-!
# What evaluation binds

Expressions bind no name in any scope that is there already, and a statement binds at most the names that
it declares, in its own scope. The scope of the body of a loop is made anew for every iteration and binds
nothing but the variables of the loop when the body starts. All of this holds in every state whatever,
of values and failures alike: it is a law that asks nothing of stores and values. So it also says of every
run from any state how far it depends on the bound on depth (`evaluator_deepen`).

A name that is bound stays bound to its cell until it is deleted: nothing but the deletion of the name
takes a binding away, and nothing gives a name another cell (`Work.keeps_name`). So what is known of the
cell of a variable is known of the variable.
-/

namespace ScriptLang

open Eval

/-- Whether the scopes of a store bind no more in a later one than they did, apart from certain names. -/
def Store.BindsOnly (B : ScopeId → Text → Prop) (s t : Store) : Prop :=
  s.scopes.size ≤ t.scopes.size ∧ ∀ id < s.scopes.size, ∀ name,
    t.hasLocal id name = true → s.hasLocal id name = true ∨ B id name

namespace Store.BindsOnly

variable {B B' : ScopeId → Text → Prop} {s t u : Store} {id : ScopeId} {name : Text}

theorem refl : BindsOnly B s s := ⟨Nat.le_refl _, fun _ _ _ h => .inl h⟩

theorem trans (hst : BindsOnly B s t) (htu : BindsOnly B t u) : BindsOnly B s u :=
  ⟨Nat.le_trans hst.1 htu.1, fun id hid name h =>
    (htu.2 id (Nat.lt_of_lt_of_le hid hst.1) name h).elim (hst.2 id hid name) .inr⟩

theorem mono (h : ∀ id name, B id name → B' id name) (hst : BindsOnly B s t) : BindsOnly B' s t :=
  ⟨hst.1, fun id hid name hn => (hst.2 id hid name hn).imp_right (h id name)⟩

/-- Names of a scope that was not there are not missed. -/
theorem fresh (hst : BindsOnly B s t) (hid : s.scopes.size ≤ id)
    (htu : BindsOnly (fun i n => i = id ∨ B i n) t u) : BindsOnly B s u := by
  refine ⟨Nat.le_trans hst.1 htu.1, fun i hi n h => ?_⟩
  rcases htu.2 i (Nat.lt_of_lt_of_le hi hst.1) n h with h | rfl | h
  · exact hst.2 i hi n h
  · exact absurd hi (Nat.not_lt.2 hid)
  · exact .inr h

theorem of_scopes (h : t.scopes = s.scopes) : BindsOnly B s t := by
  refine ⟨Nat.le_of_eq (congrArg Array.size h).symm, fun id _ name hn => .inl ?_⟩
  unfold hasLocal at hn ⊢
  rwa [scope_of_scopes h] at hn

theorem newScope (parent : Option ScopeId) : BindsOnly noNames s (s.newScope parent).2 := by
  refine ⟨?_, fun id hid name hn => .inl ?_⟩
  · exact Nat.le_of_lt (by simp [Store.newScope])
  · unfold hasLocal at hn ⊢
    rwa [scope_newScope, if_neg (Nat.ne_of_lt hid)] at hn

/-- A change after which a scope binds no names but those it did and certain others. -/
theorem of_values (hsize : t.scopes.size = s.scopes.size)
    (h : ∀ id, ∀ e ∈ (t.scope id).values, e ∈ (s.scope id).values ∨ B id e.1) : BindsOnly B s t := by
  refine ⟨Nat.le_of_eq hsize.symm, fun id _ n hn => ?_⟩
  obtain ⟨e, he, rfl⟩ := List.mem_map.1 (Scope.binds_iff_mem.1 hn)
  exact (h id e he).imp_left fun he => Scope.binds_iff_mem.2 (List.mem_map.2 ⟨e, he, rfl⟩)

theorem bound {v : Value} {constant : Bool} :
    BindsOnly (fun i n => i = id ∧ n = name) s (s.bound id name v constant) := by
  refine of_values size_bound fun i e he => ?_
  rcases mem_values_bound he with ⟨rfl, rfl⟩ | he
  · exact .inr ⟨rfl, rfl⟩
  · exact .inl he

theorem without : BindsOnly B s (s.without id name) :=
  of_values size_without fun _ _ he => .inl (mem_values_without he)

end Store.BindsOnly

/-- The names that a file declares in what an import of everything carries out. -/
def Block.Exports (b : Block) (name : Text) : Prop :=
  ∃ st ∈ b.body, st.isImported = true ∧ st.declares name

/-- The names that a statement declares when it is run in a certain state. The import of everything from a
file declares those that the file declares; a file that imports everything from another one may pass on
any name. -/
def Stmt.DeclaresIn (s : State) : Stmt → Text → Prop
  | .importing _ name wildcard path, n =>
    if wildcard = true ∧ path ≠ [] then
      ∃ file b, s.importTarget? path = some file ∧ s.fileProgram? file = some b ∧ b.Exports n
    else n = name
  | st, n => st.declares n

namespace Law

/-- The law of what evaluation binds. -/
def frame : Law where
  toPrograms := .all
  le := Store.BindsOnly
  le_refl := .refl
  le_trans := .trans
  le_mono := .mono
  le_fresh := .fresh
  heap := fun _ hs _ => ⟨.of_scopes hs, id⟩
  newCell := fun _ _ _ => ⟨.of_scopes rfl, trivial, trivial⟩
  write := fun _ _ _ _ _ => ⟨.of_scopes rfl, trivial⟩
  newScope := fun parent _ => ⟨.newScope parent, trivial, trivial⟩
  bind := by
    intro s t scope names name v constant _ _ _ _ ht
    refine ⟨?_, trivial, trivial⟩
    rcases Store.bind_eq_ok ht with ⟨-, rfl⟩ | ⟨-, -, rfl⟩
    · exact .refl
    · exact .bound
  remove := fun _ _ _ _ => ⟨.without, trivial⟩

theorem universal_frame : frame.Universal := rfl

/-- All values are good. -/
theorem good_frame (s : Store) (v : Value) : frame.Good s v :=
  universal_frame.good trivial trivial trivial trivial s v

/-- All stores are in accordance with the law. -/
theorem inv_frame (s : Store) : frame.Inv s :=
  ⟨trivial, fun v _ => good_frame s v, fun v _ => ⟨good_frame s v, trivial⟩⟩

end Law

/-- What is done at the start of an iteration if its scope binds any other name than the variables of
the loop. -/
def Eval.unlessOnly (otherwise : Eval Unit) (scope : ScopeId) (names : List Text) : Eval Unit := do
  unless ((← store).scope scope).values.all fun e => names.contains e.1 do otherwise

namespace Law

variable {s : State}

/-- Two runs of which the first does something at the start of an iteration whose scope binds more than
the variables of the loop. -/
def entering (otherwise : Eval Unit) : frame.Pairing :=
  { frame.plain fun _ _ h => h with
    left := { enter := unlessOnly otherwise }
    enter := by
      intro host s scope names h
      have hall : ((s.store.scope scope).values.all fun e => names.contains e.1) = true :=
        List.all_eq_true.2 fun e he => List.contains_iff_mem.2 (h e he).1
      show (unless ((s.store.scope scope).values.all fun e => names.contains e.1) do otherwise :
        Eval Unit) host s = _
      rw [hall]
      rfl }

variable {n : Nat}

/-- Whatever would be done at the start of an iteration whose scope binds more is never done. -/
theorem entering_eq (otherwise : Eval Unit) :
    evaluatorWith { enter := unlessOnly otherwise } n = evaluator n := by
  have hcarries := (entering otherwise).carries n
  have hright := (entering otherwise).evaluator_right rfl n
  have agree {α : Type} {host : Host} {s : State} {x y : Eval α} {ε : Effect} {Q : Store → α → Prop}
      (h : (entering otherwise).Sound ε s x y Q) : x host s = y host s :=
    ((h (inv_frame _) trivial).2 host host ⟨rfl, trivial⟩).elim And.left False.elim
  rw [hright] at hcarries
  funext task host s
  cases task with
  | expr e scope =>
    exact agree (hcarries.expr (universal_frame.tidyExpr false e) (show frame.ready _ _ [] from trivial))
  | stmt st scope =>
    exact agree (hcarries.stmt (universal_frame.tidyStmt st : frame.TidyStmt false [] st) trivial)
  | call f args => exact agree (hcarries.call (good_frame _ f) fun a _ => good_frame _ a)

theorem expr_binds_only (e : Expr) (scope : ScopeId) (host : Host) (s : State) :
    s.store.BindsOnly noNames (((evaluator n).expr e scope).after host s).store :=
  (universal_frame.outcome_expr (fun _ _ h => h) (inv_frame _) e scope host).after_eval.1

/-- The comparison of a run with itself. -/
abbrev framing : frame.Pairing := frame.plain fun _ _ h => h

/-- The declarations of a file bind the names of those that an import carries out. -/
theorem declarations_framing {inner : ScopeId} {ss : List Stmt} {B : Text → Prop}
    (h : ∀ st ∈ ss, st.isImported = true → ∀ name, st.declares name → B name) :
    framing.Sound ⟨fun id name => id = inner ∧ B name, fun _ => True⟩ s
      ((evaluator n).declarations inner none ss) ((evaluator n).declarations inner none ss)
      fun _ _ => True := by
  induction ss generalizing s with
  | nil => exact .pure trivial
  | cons st rest ih =>
    obtain ⟨hst, hrest⟩ := List.forall_mem_cons.1 h
    unfold Runner.declarations
    dsimp only
    split
    · next himported =>
      have hstmt : framing.Sound ⟨fun id name => id = inner ∧ B name, fun _ => True⟩ s
          ((evaluator n).stmt st inner) ((evaluator n).stmt st inner) fun _ _ => True :=
        ((plain_carries fun _ _ h => h).stmt (universal_frame.tidyStmt st : frame.TidyStmt false [] st)
          trivial).mono ⟨fun _ name hname => ⟨hname.1, hst himported name hname.2⟩, fun _ _ => trivial⟩
          fun _ _ _ _ _ => trivial
      refine .bind hstmt fun _ t _ _ _ => .bind (P := fun _ _ => True) (.pure trivial) fun found u _ _ _ => ?_
      split
      · exact .pure trivial
      · exact ih hrest
    · exact ih hrest

/-- Everything that is imported from the program of a file is one of its names. -/
theorem takeFrom_framing (name path : Text) (scope : ScopeId) (b : Block) :
    framing.Sound ⟨fun id other => id = scope ∧ b.Exports other, fun _ => True⟩ s
      ((evaluator n).takeFrom name true path scope b) ((evaluator n).takeFrom name true path scope b)
      fun _ _ => True := by
  unfold Runner.takeFrom
  have hscope : framing.Sound ⟨fun id other => id = scope ∧ b.Exports other, fun _ => True⟩ s
      (Eval.change fun st => st.newScope none) (Eval.change fun st => st.newScope none) fun t id =>
        (id < t.scopes.size ∧ (t.scope id).values = []) ∧ s.store.scopes.size ≤ id := by
    refine .change (.newScope none) (fun _ => inv_frame _) fun _ => ⟨⟨?_, ?_⟩, Nat.le_refl _⟩
    · simp [Store.newScope]
    · rw [Store.scope_newScope]
      exact congrArg Scope.values (if_pos rfl)
  refine .inScope hscope fun inner t _ _ hnew => ?_
  obtain ⟨hinner, hempty⟩ := hnew
  have hdeclared : framing.Sound ⟨fun id other => id = inner ∧ b.Exports other, fun _ => True⟩ t
      ((evaluator n).declarations inner none b.body) ((evaluator n).declarations inner none b.body)
      fun _ _ => True :=
    declarations_framing fun st hst himported _ hname => ⟨st, hst, himported, hname⟩
  have hnames : framing.Sound
      ⟨fun id other => id = inner ∨ id = scope ∧ b.Exports other, fun _ => True⟩ t
      ((evaluator n).declarations inner none b.body) ((evaluator n).declarations inner none b.body)
      fun u _ => ∀ other ∈ u.names inner, b.Exports other := by
    refine hdeclared.mono ⟨fun _ _ h => .inl h.1, fun _ h => h⟩ fun u _ hle _ _ other hother => ?_
    have hlocal : u.hasLocal inner other = true := Scope.binds_iff_mem.2 (List.mem_mergeSort.1 hother)
    rcases hle.2 inner hinner other hlocal with hbefore | ⟨-, hexports⟩
    · have hmem := Scope.binds_iff_mem.1 hbefore
      rw [hempty] at hmem
      exact absurd hmem List.not_mem_nil
    · exact hexports
  refine .bind hnames fun _ u _ _ hexports => ?_
  refine .store fun _ => .map (.forIn (I := fun _ => True) trivial fun other hother v _ => ?_)
    fun _ _ _ _ => trivial
  exact .map (.importName (.inr ⟨rfl, hexports other hother⟩) id) fun _ _ _ _ => trivial

/-- An import of everything binds the name of a module or the names that a file declares. -/
theorem importInto_framing (span : Span) (name path : Text) (scope : ScopeId) :
    framing.Sound ⟨fun id other => id = scope ∧ (Stmt.importing span name true path).DeclaresIn s other,
        fun _ => True⟩ s
      ((evaluator n).importInto name true path scope) ((evaluator n).importInto name true path scope)
      fun _ _ => True := by
  unfold Runner.importInto
  split
  · next hpath =>
    have hpath : path = [] := List.isEmpty_iff.1 hpath
    have hname : (Stmt.importing span name true path).DeclaresIn s name := by
      simp [Stmt.DeclaresIn, hpath]
    have hready : frame.ready s.store scope [] := trivial
    exact .forget (.importModule ⟨rfl, hname⟩ hready fun h => h.elim)
  · next hpath =>
    have hpath : path ≠ [] := fun h => hpath (List.isEmpty_iff.2 h)
    refine .importFile_of (fun _ _ _ _ => trivial) fun file b hfile hb t => ?_
    refine (takeFrom_framing name path scope b).mono ⟨fun _ other h => ⟨h.1, ?_⟩, fun _ h => h⟩
      fun _ _ _ _ _ => trivial
    have hexports : ∃ file b, s.importTarget? path = some file ∧ s.fileProgram? file = some b ∧
        b.Exports other := ⟨file, b, hfile, hb, h.2⟩
    simpa [Stmt.DeclaresIn, hpath] using hexports

theorem stmt_binds_only (st : Stmt) (scope : ScopeId) (host : Host) (s : State) :
    s.store.BindsOnly (fun id name => id = scope ∧ st.DeclaresIn s name)
      (((evaluator n).stmt st scope).after host s).store := by
  have hdeclares : s.store.BindsOnly (fun id name => id = scope ∧ st.declares name)
      (((evaluator n).stmt st scope).after host s).store :=
    (universal_frame.outcome_stmt (fun _ _ h => h) (inv_frame _) st scope host).after_eval.1
  cases st with
  | importing span name wildcard path =>
    cases wildcard with
    | false =>
      exact hdeclares.mono fun _ _ h => ⟨h.1, by simpa [Stmt.DeclaresIn, Stmt.declares] using h.2⟩
    | true =>
      cases n with
      | zero => exact .refl
      | succ n =>
        have himport : framing.Sound _ s ((evaluator (n + 1)).stmt (.importing span name true path) scope)
            ((evaluator (n + 1)).stmt (.importing span name true path) scope) fun _ _ => True :=
          .located span (.map (importInto_framing span name path scope) fun _ _ _ _ => trivial)
        exact ((himport (inv_frame _) trivial).1 host trivial).after_eval.1
  | _ => exact hdeclares

end Law

/-- A larger bound makes no difference to a run that is not stuck. -/
theorem evaluator_deepen {n m : Nat} (h : n ≤ m) (task : Task) (host : Host) (s : State) :
    evaluator m task host s = evaluator n task host s ∨
      (Ending.of (evaluator n task host s)).failure = some .stuck := by
  have hfree : ∀ task s, ¬ Law.frame.forbids task s := fun _ _ => id
  have hrun := Law.deepening_carries (L := Law.frame) hfree h
  have hall := Law.universal_frame
  have hagree : (Law.frame.deepening hfree).Agree host host (evaluator m task host s)
      (evaluator n task host s) := by
    cases task with
    | expr e scope =>
      exact (hrun.expr (hall.tidyExpr true e) (hall.ready : Law.frame.ready _ _ []) (Law.inv_frame _)
        trivial).2 host host ⟨rfl, trivial⟩
    | stmt st scope =>
      exact (hrun.stmt (hall.tidyStmt st : Law.frame.TidyStmt true [] st) hall.ready (Law.inv_frame _)
        trivial).2 host host ⟨rfl, trivial⟩
    | call f args =>
      exact (hrun.call (Law.good_frame _ _) (fun a _ => Law.good_frame _ a) (Law.inv_frame _)
        trivial).2 host host ⟨rfl, trivial⟩
  exact hagree.imp_left And.left

/-! ### Names keep their cells -/

/-- Whether a task is to delete a name that a scope binds. -/
def Task.deletes (owner : ScopeId) (name : Text) : Task → State → Bool
  | .expr (.unary _ .delete (.ident _ n)) scope, s =>
    n == name && (s.store.resolve scope n).any fun p => p.1 == owner
  | _, _ => false

/-- Whether a scope that binds a name still binds it in a later store, to the same cell. -/
def Store.KeepsName (owner : ScopeId) (name : Text) (s t : Store) : Prop :=
  ∀ b, (s.scope owner).find? name = some b → (t.scope owner).find? name = some b

namespace Store.KeepsName

variable {owner id : ScopeId} {name other : Text} {s t u : Store} {v : Value} {constant : Bool}

theorem refl : KeepsName owner name s s := fun _ => id

theorem trans (hst : KeepsName owner name s t) (htu : KeepsName owner name t u) :
    KeepsName owner name s u :=
  fun b hb => htu b (hst b hb)

theorem of_scopes (h : t.scopes = s.scopes) : KeepsName owner name s t := by
  intro b hb
  rwa [scope_of_scopes h]

theorem bind (h : s.bind id other v constant = .ok t) : KeepsName owner name s t := by
  rcases bind_eq_ok h with ⟨-, rfl⟩ | ⟨-, hnew, rfl⟩
  · exact refl
  · exact fun _ hb => (find?_bound hnew).2 (.inr hb)

/-- The removal of another binding. -/
theorem without (h : ¬(owner = id ∧ name = other)) : KeepsName owner name s (s.without id other) :=
  fun _ hb => find?_without.2 ⟨h, hb⟩

end Store.KeepsName

namespace Law

variable {owner : ScopeId} {name : Text}

/-- The law of a name, which holds of all programs that do not delete it. -/
def holding (owner : ScopeId) (name : Text) : Law where
  toPrograms := .all
  le := fun _ => Store.KeepsName owner name
  forbids := fun task s => task.deletes owner name s = true
  le_refl := .refl
  le_trans := .trans
  le_mono := fun _ h => h
  le_fresh := fun hst _ htu => hst.trans htu
  heap := fun _ hs _ => ⟨.of_scopes hs, id⟩
  newCell := fun _ _ _ => ⟨.refl, trivial, trivial⟩
  write := fun _ _ _ _ _ => ⟨.refl, trivial⟩
  newScope := fun parent _ => ⟨fun _ => Store.find?_newScope_of parent, trivial, trivial⟩
  bind := fun _ _ _ _ ht => ⟨.bind ht, trivial, trivial⟩
  remove := by
    intro s scope removed id b span nameSpan _ hr _ hallowed
    refine ⟨.without ?_, trivial⟩
    rintro ⟨rfl, rfl⟩
    refine hallowed ?_
    simp [Task.deletes, hr]

theorem universal_holding : (holding owner name).Universal := rfl

/-- All values are good. -/
theorem good_holding (s : Store) (v : Value) : (holding owner name).Good s v :=
  universal_holding.good (L := holding owner name) trivial trivial trivial trivial s v

/-- All stores are in accordance with the law. -/
theorem inv_holding (s : Store) : (holding owner name).Inv s :=
  ⟨trivial, fun v _ => good_holding s v, fun v _ => ⟨good_holding s v, trivial⟩⟩

end Law

/-- A name keeps its cell as long as it is not deleted: whatever is done, in the states that are visited and
in the one at the end the scope binds it as it did, and as it did in any state in between. -/
theorem Work.keeps_name {w : Work} {n : Nat} {host : Host} {s : State} {owner : ScopeId} {name : Text}
    (havoids : w.Avoids (Task.deletes owner name) n host s) :
    s.store.KeepsName owner name ((w.eval n).after host s).store ∧
      ∀ {task t}, w.Visits n host s task t → s.store.KeepsName owner name t.store ∧
        t.store.KeepsName owner name ((w.eval n).after host s).store := by
  have hguides : (Law.holding owner name).Guides (Task.deletes owner name) w n host s :=
    Law.guides_of_avoids Law.universal_holding (fun h => h) havoids
  have hsince : ((Law.holding owner name).since s.store).Guides (Task.deletes owner name) w n host s :=
    Law.guides_of_avoids hguides.universal (fun h => h) havoids
  have hw : ∀ v ∈ w.values, (Law.holding owner name).Good s.store v := fun v _ => Law.good_holding _ v
  exact ⟨(hguides.after (Law.inv_holding _) hw).2, fun hvisits =>
    (hguides.visits hsince (Law.inv_holding _) hw hvisits).2⟩

/-- Scopes do not leak. Evaluating an expression binds no name in a scope that was there before; running
a statement binds none but those it declares, and these in its own scope, so blocks, conditionals, loops
and choices bind none, and the import of everything from a file binds those that the file declares; and when
the body of an iteration starts, its scope binds nothing but the variables of the loop, so it makes no
difference what would be done otherwise. -/
theorem evaluator_binds_only (n : Nat) :
    (∀ (e : Expr) (scope : ScopeId) (host : Host) (s : State),
      s.store.BindsOnly noNames (((evaluator n).expr e scope).after host s).store) ∧
    (∀ (st : Stmt) (scope : ScopeId) (host : Host) (s : State),
      s.store.BindsOnly (fun id name => id = scope ∧ st.DeclaresIn s name)
        (((evaluator n).stmt st scope).after host s).store) ∧
    ∀ otherwise : Eval Unit, evaluatorWith { enter := unlessOnly otherwise } n = evaluator n :=
  ⟨Law.expr_binds_only, Law.stmt_binds_only, Law.entering_eq⟩

end ScriptLang
