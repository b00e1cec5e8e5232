import ScriptLang.Eval.Run
import ScriptLang.Proofs.Store.Names

/-!
# Evaluations that only look

Much of evaluation looks at the store and leaves it alone: taking a value without its annotations,
checking an annotation, reading an argument of a library function, making a note in the log.
`Eval.Still x P` says this of the evaluation `x`: it ends with the store it started with and a result
that satisfies `P`, or with a failure that is neither loop control nor about a name declared twice; it
writes nothing and leaves the imports in progress alone; and it does not depend on when its host stops
runs.
-/

namespace ScriptLang

/-- Two hosts that differ at most in when they stop runs and in whether they report failures. -/
structure Host.Alike (h h' : Host) : Prop where
  policy : h.policy = h'.policy
  cacheSize : h.cacheSize = h'.cacheSize
  logging : h.logging = h'.logging

theorem Host.Alike.refl (h : Host) : h.Alike h := ⟨rfl, rfl, rfl⟩

/-- Whether a failure is neither loop control nor about a name that is declared twice. -/
def Failure.isPlain : Failure → Bool
  | .fault f => f.code != .duplicateIdentifier
  | .loop _ => false
  | _ => true

namespace Eval

variable {α β : Type}

theorem bind_apply (x : Eval α) (f : α → Eval β) (host : Host) (s : State) :
    (x >>= f) host s = match x host s with
      | .ok a t => f a host t
      | .error e t => .error e t := by
  show EStateM.bind (x host) (fun a => f a host) s = _
  unfold EStateM.bind
  cases x host s <;> rfl

theorem bind_of_ok {x : Eval α} {f : α → Eval β} {host : Host} {s t : State} {a : α}
    (h : x host s = .ok a t) : (x >>= f) host s = f a host t := by rw [bind_apply, h]

theorem bind_eq_ok {x : Eval α} {f : α → Eval β} {host : Host} {s t : State} {b : β}
    (h : (x >>= f) host s = .ok b t) : ∃ a u, x host s = .ok a u ∧ f a host u = .ok b t := by
  rw [bind_apply] at h
  cases hx : x host s with
  | ok a u =>
    rw [hx] at h
    exact ⟨a, u, rfl, h⟩
  | error e u =>
    rw [hx] at h
    cases h

theorem raw_of_raw? {v w : Value} {s : State} (h : s.store.raw? v = some w) (host : Host) :
    raw v host s = .ok w s := by
  show orStuck (s.store.raw? v) host s = _
  rw [h]
  rfl

theorem raw_eq_ok {v w : Value} {host : Host} {s t : State} (h : raw v host s = .ok w t) :
    s.store.raw? v = some w ∧ t = s := by
  have h : orStuck (s.store.raw? v) host s = .ok w t := h
  cases hraw : s.store.raw? v with
  | none =>
    rw [hraw] at h
    cases h
  | some u =>
    rw [hraw] at h
    cases h
    exact ⟨rfl, rfl⟩

theorem get_bind (f : State → Eval α) (host : Host) (s : State) : (get >>= f) host s = f s host s :=
  rfl

/-- Two states with the same store, the same writes and the same imports in progress. -/
structure Same (s t : State) : Prop where
  store : t.store = s.store
  writes : t.writes = s.writes
  importing : t.importing = s.importing
  dir : t.dir = s.dir

namespace Same

variable {s t u : State}

theorem refl : Same s s := ⟨rfl, rfl, rfl, rfl⟩

theorem trans (hst : Same s t) (htu : Same t u) : Same s u :=
  ⟨htu.store.trans hst.store, htu.writes.trans hst.writes, htu.importing.trans hst.importing,
    htu.dir.trans hst.dir⟩

end Same

/-- The end of an evaluation that left the store as it was; its result satisfies `P`. -/
def Unmoved (s : State) (P : Store → α → Prop) : EStateM.Result Failure State α → Prop
  | .ok a t => Same s t ∧ P s.store a
  | .error e t => Same s t ∧ e.isPlain = true

/-- An evaluation that leaves the store as it is; its result satisfies `P`. -/
def Still (x : Eval α) (P : Store → α → Prop) : Prop :=
  ∀ h s, Unmoved s P (x h s) ∧ ∀ h', Host.Alike h h' → x h s = x h' s

namespace Still

variable {x : Eval α} {f : α → Eval β} {P : Store → α → Prop} {Q : Store → β → Prop}

/-- An evaluation that does not look at its host. -/
theorem of_state {x : State → EStateM.Result Failure State α} (h : ∀ s, Unmoved s P (x s)) :
    Still (fun _ s => x s) P :=
  fun _ s => ⟨h s, fun _ _ => rfl⟩

theorem pure {a : α} (h : ∀ s, P s a) : Still (Pure.pure a) P :=
  of_state (x := .ok a) fun s => ⟨.refl, h s.store⟩

theorem throw {e : Failure} (h : e.isPlain = true) : Still (MonadExcept.throw e) P :=
  of_state (x := .error e) fun _ => ⟨.refl, h⟩

theorem fail {code : Code} {message : Text} (h : code ≠ .duplicateIdentifier) :
    Still (fail code message) P :=
  .throw (by simpa [Failure.isPlain] using h)

theorem failWithHint {code : Code} {message hint : Text} (h : code ≠ .duplicateIdentifier) :
    Still (failWithHint code message hint) P :=
  .throw (by simpa [Failure.isPlain] using h)

theorem bind (hx : Still x P) (hf : ∀ a, Still (f a) fun s b => P s a → Q s b) :
    Still (x >>= f) Q := by
  intro h s
  have hmoved := (hx h s).1
  have hsame := (hx h s).2
  rw [bind_apply]
  cases hr : x h s with
  | ok a t =>
    rw [hr] at hmoved hsame
    obtain ⟨hst, hP⟩ := hmoved
    refine ⟨?_, fun h' hh => ?_⟩
    · have hf' := (hf a h t).1
      dsimp only
      cases hk : f a h t with
      | ok b u =>
        rw [hk] at hf'
        exact ⟨hst.trans hf'.1, hst.store ▸ hf'.2 (hst.store.symm ▸ hP)⟩
      | error e u =>
        rw [hk] at hf'
        exact ⟨hst.trans hf'.1, hf'.2⟩
    · rw [bind_apply, ← hsame h' hh]
      exact (hf a h t).2 h' hh
  | error e t =>
    rw [hr] at hmoved hsame
    refine ⟨hmoved, fun h' hh => ?_⟩
    rw [bind_apply, ← hsame h' hh]

theorem mono {R : Store → α → Prop} (hx : Still x P) (h : ∀ s a, P s a → R s a) : Still x R := by
  intro host s
  refine ⟨?_, (hx host s).2⟩
  have hmoved := (hx host s).1
  cases hr : x host s with
  | ok a t =>
    rw [hr] at hmoved
    exact ⟨hmoved.1, h s.store a hmoved.2⟩
  | error e t =>
    rw [hr] at hmoved
    exact hmoved

theorem store : Still store fun s a => a = s :=
  of_state (x := fun s => .ok s.store s) fun _ => ⟨.refl, rfl⟩

theorem get : Still MonadState.get fun s a => a.store = s :=
  of_state (x := fun s => .ok s s) fun _ => ⟨.refl, rfl⟩

/-- A look at the host, of which nothing but what alike hosts agree on is used. -/
theorem host {f : Host → Eval β} (hf : ∀ h, Still (f h) Q)
    (hsame : ∀ h h', Host.Alike h h' → f h = f h') : Still (MonadReader.read >>= f) Q := by
  refine fun h s => ⟨(hf h h s).1, fun h' hh => ?_⟩
  show f h h s = f h' h' s
  rw [← hsame h h' hh]
  exact (hf h h s).2 h' hh

/-- A change of the state apart from the store and the writes. -/
theorem modifyGet {f : State → α × State} (h : ∀ s, Same s (f s).2)
    (hP : ∀ s, P s.store (f s).1) : Still (modifyGet f) P :=
  of_state (x := fun s => .ok (f s).1 (f s).2) fun s => ⟨h s, hP s⟩

theorem modify {P : Store → PUnit → Prop} {f : State → State} (h : ∀ s, Same s (f s))
    (hP : ∀ s, P s ⟨⟩) : Still (modify f) P :=
  modifyGet h fun s => hP s.store

theorem ite {c : Prop} [Decidable c] {y : Eval α} (hx : Still x P) (hy : Still y P) :
    Still (if c then x else y) P := by
  split
  · exact hx
  · exact hy

theorem orStuck {o : Option α} : Still (orStuck o) fun _ a => o = some a := by
  cases o with
  | none => exact .throw rfl
  | some a => exact .pure fun _ => rfl

/-- What each pass over a list finds, if none of them ends it early. -/
theorem forIn_all {γ : Type} {l : List γ} {g : γ → PUnit → Eval (ForInStep PUnit)}
    {R : Store → γ → Prop} (h : ∀ c ∈ l, Still (g c ⟨⟩) fun s r => r = .yield ⟨⟩ ∧ R s c) :
    Still (ForIn.forIn l ⟨⟩ g) fun s _ => ∀ c ∈ l, R s c := by
  induction l with
  | nil => exact .pure fun _ _ hc => absurd hc List.not_mem_nil
  | cons c l ih =>
    rw [List.forIn_cons]
    refine .bind (h c List.mem_cons_self) fun r => ?_
    cases r with
    | done => exact .pure fun _ hr => nomatch hr.1
    | yield =>
      refine (ih fun c hc => h c (List.mem_cons_of_mem _ hc)).mono fun s _ hl hr d hd => ?_
      rcases List.mem_cons.1 hd with rfl | hd
      · exact hr.2
      · exact hl d hd

end Still

variable {v : Value}

/-- A question to the store. -/
theorem still_ask (q : Store → Option α) :
    Still (do Eval.orStuck (q (← Eval.store))) fun s a => q s = some a :=
  .bind .store fun _ => Still.orStuck.mono fun _ _ h hs => hs ▸ h

theorem still_raw (v : Value) : Still (raw v) fun s w => s.raw? v = some w := still_ask _

theorem still_display (v : Value) : Still (display v) fun _ _ => True :=
  (still_ask _).mono fun _ _ _ => trivial

theorem still_typeName (v : Value) : Still (typeName v) fun _ _ => True :=
  .bind (still_raw v) fun _ => .pure fun _ _ => trivial

/-- A question to the store about names. -/
theorem still_named (q : Store → Except NameFault α)
    (hq : ∀ s e, q s = .error e → e.code ≠ .duplicateIdentifier) :
    Still (do Eval.named (q (← Eval.store))) fun s a => q s = .ok a := by
  refine .bind .store fun s => ?_
  cases h : q s with
  | ok a => exact .pure fun _ hs => hs ▸ h
  | error e => exact .fail (hq s e h)

theorem still_lookup (scope : ScopeId) (name : Text) :
    Still (lookup scope name) fun s w => s.lookup scope name = .ok w :=
  still_named _ fun _ _ => Store.lookup_eq_error

theorem still_isNil (v : Value) : Still (Runner.isNil v) fun _ _ => True :=
  .bind (still_raw v) fun w => by
    split
    · exact .pure fun _ _ => trivial
    · exact .pure fun _ _ => trivial

theorem still_isNonZero (v : Value) : Still (Runner.isNonZero v) fun _ _ => True :=
  .bind (still_raw v) fun w => by
    split
    · exact .pure fun _ _ => trivial
    · exact .pure fun _ _ => trivial

/-! ### The outside -/

theorem still_note (message : Text) (details : List (Text × LogValue)) :
    Still (note message details) fun _ _ => True := by
  refine .host (fun h => ?_) fun h h' hh => by rw [hh.logging]
  split
  · exact .modify (fun _ => ⟨rfl, rfl, rfl, rfl⟩) fun _ => trivial
  · exact .pure fun _ => trivial

/-! ### Annotations -/

theorem still_checkType (scope : ScopeId) (type : TypeExpr) (v : Value) :
    Still (checkType scope type v) fun s _ => s.conforms? scope type v = some true := by
  unfold checkType
  refine .bind .store fun st => .bind .orStuck fun ok => ?_
  cases ok with
  | true => exact .pure fun _ h hst => hst ▸ h
  | false => exact .bind (still_typeName v) fun _ => .fail nofun

/-- The value to store is the given one without its annotation, or what it holds with a new one to
which it conforms. -/
theorem still_annotated (scope : ScopeId) (type : Option TypeExpr) (v : Value) :
    Still (annotated scope type v) fun s w => match type with
      | none => w = v.plain
      | some t => ∃ u, s.conforms? scope t v = some true ∧ s.raw? v = some u ∧ w = .typed u t := by
  unfold annotated
  split
  · next t =>
    refine .bind (still_checkType scope t v) fun _ => .bind (still_raw v) fun u => ?_
    exact .pure fun s hu hc => ⟨u, hc, hu, rfl⟩
  · exact .pure fun _ => rfl

/-! ### Elements -/

theorem still_wholeIndex (what : Text) (index : Value) :
    Still (wholeIndex what index) fun _ _ => True := by
  refine .bind (still_raw index) fun v => ?_
  split
  · split
    · exact .pure fun _ _ => trivial
    · exact .bind (still_display _) fun _ => .fail nofun
  · exact .bind (still_display _) fun _ => .fail nofun

theorem still_arrayIndex (a : ArrayId) (index : Value) :
    Still (arrayIndex a index) fun _ _ => True := by
  refine .bind (still_wholeIndex _ index) fun n => .bind .store fun s => ?_
  exact .ite (.pure fun _ _ _ => trivial) (.fail nofun)

end Eval

/-! ### Ranges -/

namespace Runner

open Eval

/-- To count up is to go on in steps of one. -/
theorem countUp_eq (last : Float) (fuel : Nat) (n : Float) (done : Array Value) :
    countUp last fuel n done = Library.countFrom 1 last fuel n done := by
  have hup : decide ((1 : Float) > 0) = true := by decide +kernel
  have hdown : decide ((1 : Float) < 0) = false := by decide +kernel
  induction fuel generalizing n done with
  | zero => rfl
  | succ fuel ih =>
    unfold countUp Library.countFrom
    rw [hup, hdown, Bool.true_and, Bool.false_and, Bool.or_false, ih]
    simp only [decide_eq_true_eq]

/-- A range of numbers is a progression with a step of one. -/
theorem evalRange_eq (run : Runner) (first last : Expr) (scope : ScopeId) :
    run.evalRange first last scope = (do
      let lo ← run.expr first scope
      let hi ← run.expr last scope
      let a ← raw lo
      let b ← raw hi
      match a, b with
      | .number x, .number y => Library.progression x y 1
      | _, _ => operandFault ".." a b) := by
  unfold evalRange
  simp only [countUp_eq]
  rfl

end Runner

end ScriptLang
