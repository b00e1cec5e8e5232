import ScriptLang.Eval.Stmt
import ScriptLang.Proofs.Eval.Asking
import ScriptLang.Proofs.Library.Sorting

/-!
# Failures that are passed on

Faults are placed by nodes. All that is done in between makes faults without a place and passes on the
failures of the tasks inside of it as they are: looking at values and changing them, calling functions and
methods, and the whole library. `Eval.Relays host P x` says this of the evaluation `x`: what it fails with
has no place yet, or else it has the property `P`, which all failures of tasks have.

This is said of evaluations from any state, so a rule for one evaluation after another need not know what
the first one gave. What does depend on the state is left to the nodes themselves: the conditions of
conditionals and loops are placed although they are no tasks.
-/

namespace ScriptLang

open Eval

/-- Evaluations that make faults without a place only, and pass on failures with a property. -/
def Eval.Relays {α : Type} (host : Host) (P : Failure → Prop) (x : Eval α) : Prop :=
  ∀ ⦃s e t⦄, x host s = .error e t → e.Unplaced ∨ P e

namespace Eval.Relays

variable {host : Host} {P : Failure → Prop} {α β γ : Type} {x y : Eval α} {f : α → Eval β}

/-- Evaluations that do not fail. -/
theorem of_ok (h : ∀ s, ∃ a t, x host s = .ok a t) : Relays host P x := by
  intro s e t he
  obtain ⟨a, u, ha⟩ := h s
  rw [ha] at he
  cases he

theorem pure (a : α) : Relays host P (Pure.pure a) := of_ok fun s => ⟨a, s, rfl⟩

theorem throw {e : Failure} (h : e.Unplaced) : Relays host P (MonadExcept.throw e : Eval α) := by
  intro s e' t he
  cases he
  exact .inl h

theorem fail (code : Code) (message : Text) : Relays host P (Eval.fail code message : Eval α) :=
  throw rfl

theorem failWithHint (code : Code) (message hint : Text) :
    Relays host P (Eval.failWithHint code message hint : Eval α) :=
  throw rfl

/-- A question to the store. -/
theorem ask (hx : Asks x) : Relays host P x := by
  obtain ⟨q, hq, hunplaced⟩ := hx
  intro s e t he
  rw [hq] at he
  cases hr : q s.store with
  | ok a =>
    rw [hr] at he
    cases he
  | error e' =>
    rw [hr] at he
    cases he
    exact .inl (hunplaced _ _ hr)

/-- One evaluation after another. -/
theorem bind (hx : Relays host P x) (hf : ∀ a, Relays host P (f a)) : Relays host P (x >>= f) := by
  intro s e t he
  rw [bind_apply] at he
  cases hr : x host s with
  | ok a u =>
    rw [hr] at he
    exact hf a he
  | error e' u =>
    rw [hr] at he
    cases he
    exact hx hr

theorem map {h : α → β} (hx : Relays host P x) : Relays host P (do return h (← x)) :=
  hx.bind fun _ => pure _

theorem ite {c : Prop} [Decidable c] (hx : Relays host P x) (hy : Relays host P y) :
    Relays host P (if c then x else y) := by
  split
  · exact hx
  · exact hy

theorem orStuck (a : Option α) : Relays host P (Eval.orStuck a) := ask (.orStuck a)

/-! ### The state and the host -/

theorem store : Relays host P Eval.store := of_ok fun s => ⟨_, s, rfl⟩

theorem get : Relays host P (MonadState.get : Eval State) := of_ok fun s => ⟨_, s, rfl⟩

theorem read : Relays host P (MonadReader.read : Eval Host) := of_ok fun s => ⟨_, s, rfl⟩

theorem modifyGet (h : State → α × State) : Relays host P (MonadStateOf.modifyGet h : Eval α) :=
  of_ok fun _ => ⟨_, _, rfl⟩

theorem change (h : Store → α × Store) : Relays host P (Eval.change h) := of_ok fun _ => ⟨_, _, rfl⟩

theorem update (h : Store → Store) : Relays host P (Eval.update h) := of_ok fun _ => ⟨_, _, rfl⟩

theorem newNumber : Relays host P Eval.newNumber := change _

theorem newScope (scope : ScopeId) : Relays host P (Eval.newScope scope) := change _

theorem newArray (vs : List Value) : Relays host P (Eval.newArray vs) := map (change _)

theorem grownArray (vs : List Value) : Relays host P (Eval.grownArray vs) := map (change _)

theorem newObject (fields : Fields) : Relays host P (Eval.newObject fields) := map (change _)

theorem naming (x : Naming α) : Relays host P (Eval.naming x) := by
  intro s e t he
  unfold Eval.naming at he
  dsimp only at he
  cases hr : x s.store with
  | ok a st =>
    rw [hr] at he
    cases he
  | error e' st =>
    rw [hr] at he
    cases he
    exact .inl rfl

theorem note (message : Text) (details : List (Text × LogValue)) :
    Relays host P (Eval.note message details) := by
  refine of_ok fun s => ?_
  show ∃ a t, (if host.logging = true then _ else _ : Eval Unit) host s = .ok a t
  split <;> exact ⟨_, _, rfl⟩

theorem isCancelled : Relays host P Eval.isCancelled := of_ok fun s => ⟨_, s, rfl⟩

theorem checkCancelled : Relays host P Eval.checkCancelled :=
  bind isCancelled fun _ => ite (throw trivial) (pure ())

theorem write (t : Text) : Relays host P (Eval.write t) := by
  refine of_ok fun s => ?_
  show ∃ a u, (if host.refuses s.writes = true then _ else _ : Eval Bool) host s = .ok a u
  split <;> exact ⟨_, _, rfl⟩

/-! ### Work around an evaluation -/

theorem catchLoop {x : Eval Value} (hx : Relays host P x) : Relays host P (Eval.catchLoop x) := by
  intro s e t he
  unfold Eval.catchLoop at he
  cases hr : x host s with
  | ok a u =>
    rw [hr] at he
    cases he
  | error e' u =>
    rw [hr] at he
    cases e' with
    | loop c => cases he
    | _ =>
      cases he
      exact hx hr

theorem duringImport (path : Text) (hx : Relays host P x) : Relays host P (Eval.duringImport path x) := by
  intro s e t he
  unfold Eval.duringImport at he
  generalize hr : x host _ = r at he
  cases r with
  | ok a u => cases he
  | error e' u =>
    cases he
    exact hx hr

/-! ### Lists -/

theorem mapM {g : γ → Eval α} (l : List γ) (h : ∀ c, Relays host P (g c)) : Relays host P (l.mapM g) := by
  induction l with
  | nil => exact pure _
  | cons c l ih =>
    rw [List.mapM_cons]
    exact bind (h c) fun _ => map ih

theorem forIn {g : γ → PUnit → Eval (ForInStep PUnit)} (l : List γ) (h : ∀ c, Relays host P (g c ⟨⟩)) :
    Relays host P (ForIn.forIn l ⟨⟩ g) := by
  induction l with
  | nil => exact pure _
  | cons c l ih =>
    rw [List.forIn_cons]
    refine bind (h c) fun r => ?_
    cases r with
    | done => exact pure _
    | yield => exact ih

theorem forM {g : γ → Eval PUnit} (l : List γ) (h : ∀ c, Relays host P (g c)) : Relays host P (l.forM g) := by
  induction l with
  | nil => exact pure _
  | cons c l ih => exact bind (h c) fun _ => ih

theorem filterM {g : γ → Eval Bool} (l : List γ) (h : ∀ c, Relays host P (g c)) :
    Relays host P (l.filterM g) := by
  have filtered : ∀ l kept : List γ, Relays host P (l.filterAuxM g kept) := by
    intro l
    induction l with
    | nil => exact fun kept => pure kept
    | cons c l ih => exact fun kept => bind (h c) fun _ => ih _
  exact map (filtered l [])

/-- Evaluations that relay failures, as a relation that sorting respects. -/
def relator (host : Host) (P : Failure → Prop) : Sorting.Relator Eval where
  rel x _ Q := Relays host P x ∧ ∀ s a t, x host s = .ok a t → Q a
  pure := by
    intro _ b _ hb
    refine ⟨pure b, fun s a t ha => ?_⟩
    cases ha
    exact hb
  bind := by
    intro _ _ x _ f _ R Q hx hf
    refine ⟨fun s e t he => ?_, fun s b t hb => ?_⟩
    · rw [bind_apply] at he
      cases hr : x host s with
      | ok a u =>
        rw [hr] at he
        exact (hf a (hx.2 s a u hr)).1 he
      | error e' u =>
        rw [hr] at he
        cases he
        exact hx.1 hr
    · obtain ⟨a, u, ha, hb⟩ := bind_eq_ok hb
      exact (hf a (hx.2 s a u ha)).2 u b t hb

/-! ### Properties and elements -/

variable (v w u : Value) (name : Text)

theorem raw : Relays host P (Eval.raw v) := ask (asks_raw v)

theorem lookup (scope : ScopeId) : Relays host P (Eval.lookup scope name) := ask (asks_lookup scope name)

theorem annotated (scope : ScopeId) (type : Option TypeExpr) :
    Relays host P (Eval.annotated scope type v) :=
  ask (asks_annotated v scope type)

theorem getMember : Relays host P (Eval.getMember v name) := by
  unfold Eval.getMember
  refine bind (raw v) fun w => ?_
  split
  · refine bind store fun st => ?_
    split
    · exact pure _
    · split
      · exact fail _ _
      · split
        · exact map newNumber
        · exact fail _ _
  · split
    · exact pure _
    · exact ite (pure _) (fail _ _)
  · split
    · exact map newNumber
    · exact fail _ _
  · exact fail _ _

theorem setMember : Relays host P (Eval.setMember v name w) := by
  unfold Eval.setMember
  refine bind (raw v) fun u => ?_
  split
  · refine bind store fun st => ?_
    split
    · exact bind (ask (asks_checkField w _ name)) fun _ => update _
    · exact update _
  · exact fail _ _

theorem deleteField : Relays host P (Eval.deleteField v name) := by
  unfold Eval.deleteField
  refine bind (raw v) fun w => ?_
  split
  · refine bind store fun st => ?_
    split
    · exact bind (update _) fun _ => pure _
    · exact fail _ _
  · exact fail _ _

theorem getIndex : Relays host P (Eval.getIndex v w) := by
  unfold Eval.getIndex
  refine bind (raw v) fun u => ?_
  split
  · exact bind (ask (asks_arrayIndex w _)) fun i => bind store fun _ => pure _
  · refine bind (ask (asks_wholeIndex w _)) fun i => ?_
    dsimp only
    split
    · exact pure _
    · exact fail _ _
  iterate 3
    · refine bind (raw w) fun k => ?_
      split
      · exact getMember _ _
      · exact fail _ _
  · exact fail _ _

theorem setIndex : Relays host P (Eval.setIndex v u w) := by
  unfold Eval.setIndex
  refine bind (raw v) fun o => ?_
  split
  · exact bind (ask (asks_arrayIndex u _)) fun i => update _
  · refine bind (raw u) fun k => ?_
    split
    · exact setMember _ _ _
    · exact fail _ _
  · exact fail _ _

theorem deleteIndex : Relays host P (Eval.deleteIndex v u) := by
  unfold Eval.deleteIndex
  refine bind (raw v) fun o => ?_
  split
  · refine bind (ask (asks_arrayIndex u _)) fun i => bind store fun _ => ?_
    exact bind (update _) fun _ => pure _
  · refine bind (raw u) fun k => ?_
    split
    · exact deleteField _ _
    · exact fail _ _

theorem getItem (items : Items) (i : Nat) : Relays host P (items.get i) := by
  cases items with
  | values vs => exact pure _
  | window w => exact bind store fun _ => pure _

/-! ### Methods that the language calls -/

section

variable {run : Runner} (hrun : ∀ task, Relays host P (run task))

include hrun

theorem hook : Relays host P (run.hook v name) := by
  unfold Runner.hook
  refine bind (raw v) fun w => ?_
  split
  · split
    · exact map (hrun _)
    · exact pure _
  · split
    · exact map (hrun _)
    · exact pure _
  · exact pure _

theorem truthyWithin (n : Nat) : Relays host P (run.truthyWithin n v) := by
  induction n generalizing v with
  | zero => exact throw trivial
  | succ n ih =>
    unfold Runner.truthyWithin
    refine bind (raw v) fun w => ?_
    split
    · split
      · split
        · exact bind (hrun _) fun r => ask (asks_isNonZero r)
        · exact pure _
      · exact pure _
    · exact bind (hrun _) fun r => ask (asks_isNonZero r)
    · refine bind (ih _) fun b => ?_
      split
      · exact ih _
      · exact pure _
    · exact bind store fun _ => orStuck _

theorem truthy : Relays host P (run.truthy v) := truthyWithin v hrun _

theorem len : Relays host P (run.len v) := by
  unfold Runner.len
  refine bind (raw v) fun w => ?_
  split
  · exact bind store fun _ => pure _
  · exact pure _
  · exact bind store fun _ => pure _
  · refine bind (hook w _ hrun) fun r => ?_
    split
    · exact fail _ _
    · refine bind (raw _) fun n => ?_
      split
      · exact pure _
      · exact fail _ _

theorem items : Relays host P (run.items v) := by
  unfold Runner.items
  refine bind (raw v) fun w => ?_
  split
  · exact bind store fun _ => pure _
  · exact pure _
  · exact bind store fun _ => pure _
  · refine bind (hook w _ hrun) fun r => ?_
    split
    · exact fail _ _
    · refine bind (raw _) fun n => ?_
      split
      · exact bind store fun _ => pure _
      · exact fail _ _

theorem ownText : Relays host P (run.ownText v) := by
  unfold Runner.ownText
  split
  iterate 2
    · refine bind (hook _ _ hrun) fun r => ?_
      split
      · exact bind (raw _) fun w => map (ask (asks_display w))
      · exact pure _
  · exact pure _

theorem render (n : Nat) (nested : Bool) :
    Relays host P ((Law.Pairing.Sound.renderer run).render n nested v) := by
  induction n generalizing v nested with
  | zero => exact throw trivial
  | succ n ih =>
    unfold Renderer.render
    refine bind (ownText v hrun) fun own => ?_
    split
    · exact pure _
    · cases v with
      | array a => exact bind store fun _ => map (mapM _ fun i => bind store fun _ => ih _ true)
      | object o type =>
        refine bind store fun _ => bind (mapM _ fun name => bind store fun _ => ?_) fun parts => ?_
        · split
          · exact map (ih _ true)
          · exact pure _
        · dsimp only
          split <;> exact pure _
      | reference id c => exact bind store fun _ => map (ih _ true)
      | typed w type => exact map (ih w nested)
      | pair a b => exact bind (ih a true) fun _ => map (ih b true)
      | returnSignal w => exact map (ih w true)
      | _ => exact pure _

theorem stringify : Relays host P (run.stringify v) := render v hrun _ false

/-! ### Operators -/

omit hrun in
theorem arithmetic (op : BinaryOp) : Relays host P (ScriptLang.arithmetic op v w) := by
  unfold ScriptLang.arithmetic
  split
  · split
    · exact pure _
    · split <;> exact fail _ _
  · exact fail _ _

theorem add : Relays host P (run.add v w) := by
  unfold Runner.add
  split
  · exact pure _
  · exact map (stringify _ hrun)
  · exact bind store fun _ => newArray _
  · exact fail _ _

theorem operate (op : BinaryOp) : Relays host P (run.operate op v w) := by
  unfold Runner.operate
  refine bind (raw v) fun a => bind (raw w) fun b => ?_
  split
  · exact bind store fun _ => map (orStuck _)
  · exact bind store fun _ => map (orStuck _)
  · exact add a b hrun
  iterate 4
    · split
      · exact pure _
      · exact fail _ _
  · exact arithmetic a b op

end

end Eval.Relays

end ScriptLang
