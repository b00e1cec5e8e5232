import ScriptLang.Proofs.Eval.Frame
import ScriptLang.Proofs.Syntax.Ensured

/-!
# Declarations that are checked

A program in which the checks before a run find no name declared twice, and that imports no file, never
fails for such a declaration, however often its loops and functions are run. The checks keep a list of
the names that a scope declares; every scope that a run makes binds at most the names of the list of its
part of the program, and a name that is not in the list can be bound.
-/

namespace ScriptLang

open Eval

/-- No import of a file. -/
def NodeRule.noFiles : NodeRule where
  stmt
    | .importing _ _ _ path => path.isEmpty
    | _ => true

/-- Whether a program contains no import of a file. -/
def Program.importsNoFile (p : Block) : Bool := Every.block .noFiles p

/-- Whether a failure is about a name that is declared twice. -/
def Failure.isDuplicate : Failure → Bool
  | .fault f => f.code == .duplicateIdentifier
  | _ => false

namespace Law

/-- Whether a scope is there and binds none but certain names. -/
def BoundIn (s : Store) (scope : ScopeId) (names : List Text) : Prop :=
  scope < s.scopes.size ∧ ∀ name, s.hasLocal scope name = true → name ∈ names

theorem BoundIn.mono {s t : Store} {scope : ScopeId} {names : List Text}
    (hle : Store.BindsOnly noNames s t) (h : BoundIn s scope names) : BoundIn t scope names :=
  ⟨Nat.lt_of_lt_of_le h.1 hle.1, fun name hn =>
    (hle.2 scope h.1 name hn).elim (h.2 name) False.elim⟩

theorem BoundIn.newScope {s : Store} {parent : Option ScopeId} :
    BoundIn (s.newScope parent).2 s.scopes.size [] := by
  refine ⟨by simp [Store.newScope], fun name hn => ?_⟩
  unfold Store.hasLocal at hn
  rw [Store.scope_newScope, if_pos rfl] at hn
  cases hn

theorem binds_eq_true {name : Text} (hname : name ≠ []) (hd : name ≠ discard) :
    Check.binds name = true := by
  unfold Check.binds
  cases name with
  | nil => exact absurd rfl hname
  | cons c name =>
    rw [show ((c :: name : Text) == "_") = false from beq_false_of_ne hd]
    rfl

theorem BoundIn.bind {s t : Store} {scope : ScopeId} {names : List Text} {name : Text} {v : Value}
    {constant : Bool} (h : BoundIn s scope names) (hname : name ≠ [])
    (ht : s.bind scope name v constant = .ok t) : BoundIn t scope (Check.declare names name) := by
  have hsize := Store.size_bind ht
  rcases Store.bind_eq_ok ht with ⟨rfl, rfl⟩ | ⟨hd, -, rfl⟩
  · exact h
  · refine ⟨hsize ▸ h.1, fun n hn => ?_⟩
    unfold Check.declare
    rw [if_pos (binds_eq_true hname hd)]
    obtain ⟨e, he, rfl⟩ := List.mem_map.1 (Scope.binds_iff_mem.1 hn)
    rcases Store.mem_values_bound he with ⟨-, rfl⟩ | he
    · exact List.mem_cons_self
    · exact List.mem_cons_of_mem _ (h.2 _ (Scope.binds_iff_mem.2 (List.mem_map.2 ⟨e, he, rfl⟩)))

/-- A name that is not in the list can be bound. -/
theorem BoundIn.bind_ne_error {s : Store} {scope : ScopeId} {names : List Text} {name : Text}
    {v : Value} {constant : Bool} {e : NameFault} (h : BoundIn s scope names) (hname : name ≠ [])
    (hnew : Check.binds name = true → name ∉ names) : s.bind scope name v constant ≠ .error e := by
  intro he
  obtain ⟨hd, hbinds, -⟩ := Store.bind_eq_error he
  exact hnew (binds_eq_true hname hd) (h.2 name hbinds)

/-- The law of programs that declare no name twice. -/
def declaring : Law where
  excludes := fun m => ∃ name, m = .nameTwice name
  rules := [.spellable, .noFiles]
  tracks := True
  le := Store.BindsOnly
  ready := BoundIn
  signals := False
  fails := fun e => e.isDuplicate = false
  le_refl := .refl
  le_trans := .trans
  le_mono := .mono
  le_fresh := .fresh
  heap := frame.heap
  ready_mono := BoundIn.mono
  ready_any := fun h => absurd trivial h
  newCell := frame.newCell
  write := frame.write
  newScope := fun parent _ => ⟨.newScope parent, trivial, .newScope⟩
  bind := fun hs hready hname hv ht =>
    ⟨(frame.bind hs (show frame.ready _ _ [] from trivial) (fun h => h.elim) hv ht).1, trivial,
      hready.bind (hname trivial) ht⟩
  bind_fails := fun _ hready hnew hname he =>
    absurd he (hready.bind_ne_error (hname trivial) (hnew trivial))
  remove := frame.remove
  fails_plain := by
    intro e h
    cases e with
    | fault f => simpa [Failure.isPlain, Failure.isDuplicate] using h
    | _ => rfl
  fails_located := by
    intro e span h
    cases e with
    | fault f => exact h
    | _ => rfl
  mild := by
    intro r hr
    rcases List.mem_cons.1 hr with rfl | hr
    · exact ⟨fun _ => rfl, fun _ => rfl, fun _ _ => rfl⟩
    · rcases List.mem_cons.1 hr with rfl | hr
      · exact ⟨fun _ => rfl, fun _ => rfl, fun _ _ => rfl⟩
      · exact absurd hr List.not_mem_nil
  spells := fun _ => List.mem_cons_self
  twice := fun _ name => ⟨name, rfl⟩
  files := by
    intro span name wildcard path scope s hpath hrules _
    have h := hrules .noFiles (List.mem_cons_of_mem _ List.mem_cons_self)
    cases path with
    | nil => exact absurd rfl hpath
    | cons => cases h
  open_ := fun h => h.elim

end Law

/-- A run of a checked program that imports no file does not fail for a name that is declared twice. -/
theorem Program.run_declares_once {source file : Text} {b : Block}
    (hparse : Program.parse source file = .ok b) (himports : Program.importsNoFile b = true)
    (hchecked : ∀ d ∈ Program.check b, d.code ≠ .duplicateIdentifier) (host : Host) (files : Files)
    (dir : Text) (clock : Nat) {e : Failure}
    (he : ((Interpreter.new host files dir clock).run b).1 = .error e) : e.isDuplicate = false := by
  obtain ⟨span, body⟩ := b
  have htidy : Law.declaring.TidyStmts false [] body := by
    refine ⟨fun f hf hm => hchecked f.diagnostic (List.mem_map_of_mem hf) ?_, fun rule hrule => ?_⟩
    · obtain ⟨name, hm⟩ := hm
      unfold Finding.diagnostic
      rw [hm]
      rfl
    · rcases List.mem_cons.1 hrule with rfl | hrule
      · exact Program.spellable_of_parse hparse
      · rcases List.mem_cons.1 hrule with rfl | hrule
        · exact himports
        · exact absurd hrule List.not_mem_nil
  have hready : Law.BoundIn { scopes := #[{}] } globalScope [] :=
    ⟨Nat.zero_lt_one, fun name hn => nomatch hn⟩
  have hout : Law.declaring.Outcome Law.programEffect (Interpreter.new host files dir clock).state
      Law.declaring.Good ((Request.run ⟨span, body⟩).eval host _) :=
    Law.outcome (d := fun _ _ => false) (fun h => h.elim) ⟨htidy, hready⟩ (Law.inv_new trivial)
      (Request.avoids_none _ _ _)
  obtain ⟨t, ht⟩ := Interpreter.run_eq_error he
  rw [show (Request.run ⟨span, body⟩).eval host _ = _ from ht] at hout
  cases e with
  | loop c => rfl
  | _ => exact hout.2.2.2

/-- A program whose function declares the same name in every call. -/
theorem Program.repeated_call_declares_once : ∃ b,
    Program.parse "fn f(x) \x7b let y = x; return y; \x7d f(1); f(2); let y = 3;" "main" = .ok b ∧
      Program.importsNoFile b = true ∧ (∀ d ∈ Program.check b, d.code ≠ .duplicateIdentifier) ∧
      ∀ e, ((Interpreter.new {} {} [] 0).run b).1 = .error e → e.isDuplicate = false := by
  obtain ⟨b, hparse, himports, hchecked⟩ : ∃ b, Program.parse
        "fn f(x) \x7b let y = x; return y; \x7d f(1); f(2); let y = 3;" "main" = .ok b ∧
      Program.importsNoFile b = true ∧ Program.check b = [] := ⟨_, rfl, rfl, rfl⟩
  have hclean : ∀ d ∈ Program.check b, d.code ≠ .duplicateIdentifier := by
    rw [hchecked]
    exact fun d hd => absurd hd List.not_mem_nil
  exact ⟨b, hparse, himports, hclean,
    fun e he => Program.run_declares_once hparse himports hclean {} {} [] 0 he⟩

end ScriptLang
