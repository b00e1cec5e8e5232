import ScriptLang.Eval.Expr
import ScriptLang.Proofs.Eval.Choices

/-!
# Evaluations that ask the store

`Eval.Asks x` says that the evaluation `x` is a question to the store: neither the host nor the rest of
the state matters to the answer, the state stays as it is, and a fault that arises has no place yet.
What the answer is like is said by `Eval.Still`, which is about what an evaluation leaves alone and not
about what it looks at.
-/

namespace ScriptLang

/-- Whether a failure has no place yet. -/
def Failure.Unplaced : Failure → Prop
  | .fault f => f.span = none
  | _ => True

namespace Eval

variable {α β : Type}

/-- The end of an evaluation that leaves the state as it is. -/
def answer (s : State) : Except Failure α → EStateM.Result Failure State α
  | .ok a => .ok a s
  | .error e => .error e s

/-- An evaluation that is a question to the store. -/
def Asks (x : Eval α) : Prop :=
  ∃ q : Store → Except Failure α,
    (∀ host s, x host s = answer s (q s.store)) ∧ ∀ s e, q s = .error e → e.Unplaced

namespace Asks

variable {x : Eval α} {f : α → Eval β}

theorem pure (a : α) : Asks (Pure.pure a) := ⟨fun _ => .ok a, fun _ _ => rfl, nofun⟩

theorem throw {e : Failure} (h : e.Unplaced) : Asks (MonadExcept.throw e : Eval α) := by
  refine ⟨fun _ => .error e, fun _ _ => rfl, fun _ e' he => ?_⟩
  cases he
  exact h

theorem fail (code : Code) (message : Text) : Asks (Eval.fail code message : Eval α) := throw rfl

theorem bind (hx : Asks x) (hf : ∀ a, Asks (f a)) : Asks (x >>= f) := by
  obtain ⟨q, hq, he⟩ := hx
  obtain ⟨p, hp⟩ := Classical.skolem.1 hf
  refine ⟨fun s => (q s).bind fun a => p a s, fun host s => ?_, fun s e h => ?_⟩
  · rw [bind_apply, hq]
    dsimp only
    cases q s.store with
    | ok a => exact (hp a).1 host s
    | error e => rfl
  · dsimp only at h
    cases hqs : q s with
    | ok a =>
      rw [hqs] at h
      exact (hp a).2 s e h
    | error e' =>
      rw [hqs] at h
      cases h
      exact he s _ hqs

theorem map {f : α → β} (hx : Asks x) : Asks (do return f (← x)) := hx.bind fun a => pure (f a)

/-- A look at the store. -/
theorem store {f : Store → Eval β} (hf : ∀ st, Asks (f st)) : Asks (Eval.store >>= f) :=
  bind ⟨.ok, fun _ _ => rfl, nofun⟩ hf

theorem ite {c : Prop} [Decidable c] {y : Eval α} (hx : Asks x) (hy : Asks y) :
    Asks (if c then x else y) := by
  split
  · exact hx
  · exact hy

theorem orStuck (a : Option α) : Asks (Eval.orStuck a) := by
  cases a with
  | none => exact throw trivial
  | some a => exact pure a

theorem named (r : Except NameFault α) : Asks (Eval.named r) := by
  cases r with
  | ok a => exact pure a
  | error e => exact fail _ _

theorem forIn {γ : Type} {l : List γ} {g : γ → PUnit → Eval (ForInStep PUnit)}
    (h : ∀ c, Asks (g c ⟨⟩)) : Asks (ForIn.forIn l ⟨⟩ g) := by
  induction l with
  | nil => exact pure _
  | cons c l ih =>
    rw [List.forIn_cons]
    refine bind (h c) fun r => ?_
    cases r with
    | done => exact pure _
    | yield => exact ih

end Asks

/-! ### Values -/

variable (v : Value)

theorem asks_raw : Asks (raw v) := .store fun _ => .orStuck _

theorem asks_display : Asks (display v) := .store fun _ => .orStuck _

theorem asks_typeName : Asks (typeName v) := (asks_raw v).map

theorem asks_lookup (scope : ScopeId) (name : Text) : Asks (lookup scope name) :=
  .store fun _ => .named _

theorem asks_isNil : Asks (Runner.isNil v) :=
  .bind (asks_raw v) fun w => by split <;> exact .pure _

theorem asks_isNonZero : Asks (Runner.isNonZero v) :=
  .bind (asks_raw v) fun w => by split <;> exact .pure _

theorem asks_checkType (scope : ScopeId) (type : TypeExpr) : Asks (checkType scope type v) := by
  unfold checkType
  refine .store fun st => .bind (.orStuck _) fun ok => ?_
  cases ok with
  | true => exact .pure _
  | false => exact .bind (asks_typeName v) fun _ => .fail _ _

theorem asks_annotated (scope : ScopeId) (type : Option TypeExpr) :
    Asks (annotated scope type v) := by
  unfold annotated
  split
  · exact .bind (asks_checkType v scope _) fun _ => (asks_raw v).map
  · exact .pure _

theorem asks_checkField (t : StructType) (name : Text) : Asks (checkField t name v) := by
  refine .bind (.forIn fun f => ?_) fun _ => .pure _
  split
  · split
    · exact .bind (asks_checkType v t.scope _) fun _ => .pure _
    · exact .pure _
  · exact .pure _

theorem asks_wholeIndex (what : Text) : Asks (wholeIndex what v) := by
  refine .bind (asks_raw v) fun w => ?_
  split
  · exact .ite (.pure _) (.bind (asks_display _) fun _ => .fail _ _)
  · exact .bind (asks_display _) fun _ => .fail _ _

theorem asks_arrayIndex (a : ArrayId) : Asks (arrayIndex a v) :=
  .bind (asks_wholeIndex v _) fun _ => .store fun _ => .ite (.pure _) (.fail _ _)

end Eval

open Eval

/-! ### Arguments of library functions -/

namespace Arguments

variable (a : Arguments) (i : Nat)

theorem asks_value : Asks (a.value i) := asks_raw _

theorem asks_mismatch {α : Type} (want : Text) : Asks (a.mismatch i want : Eval α) :=
  .bind (asks_typeName _) fun _ => .fail _ _

theorem asks_number : Asks (a.number i) :=
  .bind (a.asks_value i) fun v => by
    split
    · exact .pure _
    · exact a.asks_mismatch i _

theorem asks_integer : Asks (a.integer i) :=
  .bind (a.asks_number i) fun _ => .ite (.pure _) (a.asks_mismatch i _)

theorem asks_text : Asks (a.text i) :=
  .bind (a.asks_value i) fun v => by
    split
    · exact .pure _
    · exact a.asks_mismatch i _

theorem asks_array : Asks (a.array i) :=
  .bind (a.asks_value i) fun v => by
    split
    · exact .pure _
    · exact a.asks_mismatch i _

theorem asks_object : Asks (a.object i) :=
  .bind (a.asks_value i) fun v => by
    split
    · exact .pure _
    · exact a.asks_mismatch i _

end Arguments

namespace Library

/-- Numbers put together one by one; other values cannot be. -/
theorem asks_picked (pick : Float → Float → Float) (message : Text) (vs : List Value)
    (start : Float) : Asks (vs.foldlM (fun acc v => do
      match ← raw v with
      | .number n => return pick acc n
      | _ => fail .typeMismatch message) start) := by
  induction vs generalizing start with
  | nil => exact .pure _
  | cons v vs ih =>
    refine .bind (.bind (asks_raw v) fun w => ?_) fun acc => ih acc
    split
    · exact .pure _
    · exact .fail _ _

theorem asks_encode (v : Value) : Asks (encode v) := by
  refine .store fun st => ?_
  split
  · exact .pure _
  · exact .fail _ _
  · exact .throw trivial

theorem asks_allocated (t : Text) : Asks (allocated t) := .ite (.throw trivial) (.pure t)

theorem asks_fileResult {α : Type} (what : Text) (r : Except FileError α) :
    Asks (fileResult what r) := by
  cases r with
  | ok x => exact .pure x
  | error e => exact .fail _ _

theorem asks_fileContent (pretty : Bool) (v : Value) : Asks (fileContent pretty v) := by
  unfold fileContent
  split
  · exact .ite (.pure _) (.pure _)
  · exact (asks_encode _).map

theorem asks_listing (c : CollectionId) : Asks (listing c) := by
  refine .store fun st => ?_
  split
  · exact .orStuck _
  · exact .pure _
  · exact .ite (.throw trivial) (.pure _)

theorem asks_checkArity (f : Builtin) (got : Nat) : Asks (checkArity f got) := by
  unfold checkArity
  split
  · exact .fail _ _
  · exact .pure _

end Library

end ScriptLang
