import ScriptLang.Eval.Stmt
import ScriptLang.Proofs.Eval.Asking
import ScriptLang.Proofs.Eval.Imports
import ScriptLang.Proofs.Library.Sorting
import ScriptLang.Proofs.Store.Compartment

/-!
# Runs in a compartment

Two runs of the same code from states that differ only in the files that are kept after parsing and in
the log do the same, as long as they load the same programs, and neither gets at anything outside of its
compartment. The judgement `Comparison.Sound` says both of two evaluations; this module has its rules,
one for each way in which evaluations are put together and one for each kind of change of the state.

A *comparison* says what is assumed: a compartment, how the two hosts and the two lists of kept files
are related, and that at an import both runs load the same program. The first run can be stopped at
tasks where that is not so. What is known of a single run is what is known of it and itself.

Unlike `Law.Pairing.Sound`, the judgement is about two states and not one, and about which things of the
store a value names and not only about what kind of value it is.
-/

namespace ScriptLang

open Eval

/-- Two hosts that allow the same and stop runs at the same points. -/
structure Host.Agrees (h h' : Host) : Prop where
  policy : h.policy = h'.policy
  cancelAfter : h.cancelAfter = h'.cancelAfter
  failAfter : h.failAfter = h'.failAfter

theorem Host.Agrees.refl (h : Host) : h.Agrees h := ⟨rfl, rfl, rfl⟩

/-- Two states that differ only in the log and in the files kept after parsing, which are related. -/
def State.Like (kept : KeptFiles → KeptFiles → Prop) (s s' : State) : Prop :=
  ∃ parsed log, s' = { s with parsed, log } ∧ kept s.parsed parsed

/-- Two attempts to load a file that give the same program, with spans as they may be, or fail in the
same way. -/
inductive LoadsAlike (spans : Span → Prop) (kept : KeptFiles → KeptFiles → Prop) (s s' : State) :
    EStateM.Result Failure State Block → EStateM.Result Failure State Block → Prop
  /-- The program is found. -/
  | ok {b parsed log parsed' log'} : kept parsed parsed' → Spans.Within spans (Spans.block b) →
    LoadsAlike spans kept s s' (.ok b { s with parsed, log })
      (.ok b { s' with parsed := parsed', log := log' })
  /-- There is none. -/
  | error {e} : e.Unplaced → LoadsAlike spans kept s s' (.error e s) (.error e s')

/-- A failure whose place, if it has one, has a property. -/
def Failure.Within (p : Span → Prop) : Failure → Prop
  | .fault f => ∀ span ∈ f.span, p span
  | _ => True

/-- What is assumed of two runs. -/
structure Comparison extends Compartment where
  /-- The two hosts. -/
  hosts : Host → Host → Prop := fun h h' => h = h'
  /-- The files that the two runs have kept. -/
  kept : KeptFiles → KeptFiles → Prop := fun p p' => p = p'
  /-- The tasks at which the first run is stopped. -/
  diverts : Task → State → Bool := fun _ _ => false
  /-- What a run that was stopped says. -/
  word : Text := []
  agrees : ∀ {h h'}, hosts h h' → h.Agrees h' := by exact fun e => e ▸ Host.Agrees.refl _
  /-- At an import the two load the same program. -/
  loads : ∀ {span name wildcard path scope file h h'} {s s' : State}, hosts h h' → s.Like kept s' →
    diverts (.stmt (.importing span name wildcard path) scope) s = false →
    s.importTarget? path = some file →
    LoadsAlike spans kept s s' (loadFile file h s) (loadFile file h' s')

namespace Comparison

variable (C : Comparison) {α β γ : Type}

/-- How an evaluation may fail: a fault that has a place has the span of a node. -/
def Fails (e : Failure) : Prop := e.Within C.spans

/-- Whether the first run is stopped at a task, which is met in a state whose store is sealed. -/
structure Stops (task : Task) (s : State) : Prop where
  diverts : C.diverts task s = true
  within : C.Sealed s.store

/-- How two runs may end: in the same way, within the compartment, or with the first one stopped. -/
inductive Outcome (s : Store) (Q : Store → α → Prop) :
    EStateM.Result Failure State α → EStateM.Result Failure State α → Prop
  /-- With the same value. -/
  | ok {a t t'} : t.Like C.kept t' → s.Grows t.store → C.Sealed t.store → Q t.store a →
    Outcome s Q (.ok a t) (.ok a t')
  /-- With the same failure. -/
  | error {e t t'} : t.Like C.kept t' → s.Grows t.store → C.Sealed t.store → C.Fails e →
    Outcome s Q (.error e t) (.error e t')
  /-- The first run was stopped. -/
  | stopped {task u t r} : C.Stops task u → Outcome s Q (.error (.cancelled C.word) t) r

/-- Two evaluations that do the same from states that are alike, within the compartment. -/
def Sound (s : State) (x y : Eval α) (Q : Store → α → Prop) : Prop :=
  C.Sealed s.store → ∀ ⦃h h' s'⦄, C.hosts h h' → s.Like C.kept s' →
    C.Outcome s.store Q (x h s) (y h' s')

/-- A condition on results that lasts as arrays are added. -/
def Lasting (Q : Store → α → Prop) : Prop := ∀ ⦃s t a⦄, s.Grows t → Q s a → Q t a

variable {C}
variable {s t : State} {P Q : Store → α → Prop} {R : Store → β → Prop}

theorem lasting_good : Lasting C.Good := fun _ _ _ hst h => h.mono hst

theorem lasting_true : Lasting fun _ (_ : α) => True := fun _ _ _ _ _ => trivial

theorem fails_unplaced {e : Failure} (h : e.Unplaced) : C.Fails e := by
  cases e with
  | fault f =>
    intro span hspan
    rw [h] at hspan
    cases hspan
  | _ => trivial

namespace Outcome

variable {r r' : EStateM.Result Failure State α} {u v : Store}

theorem after (h : C.Outcome v Q r r') (huv : u.Grows v) : C.Outcome u Q r r' := by
  cases h with
  | ok hl hg hs hq => exact .ok hl (huv.trans hg) hs hq
  | error hl hg hs he => exact .error hl (huv.trans hg) hs he
  | stopped hd => exact .stopped hd

theorem mono (h : C.Outcome u P r r') (hQ : ∀ t a, u.Grows t → C.Sealed t → P t a → Q t a) :
    C.Outcome u Q r r' := by
  cases h with
  | ok hl hg hs hp => exact .ok hl hg hs (hQ _ _ hg hs hp)
  | error hl hg hs he => exact .error hl hg hs he
  | stopped hd => exact .stopped hd

end Outcome

namespace Sound

variable {x y : Eval α} {f g : α → Eval β}

theorem of_sealed (h : C.Sealed s.store → C.Sound s x y Q) : C.Sound s x y Q := fun hs => h hs hs

theorem pure {a : α} (h : Q s.store a) : C.Sound s (Pure.pure a) (Pure.pure a) Q :=
  fun hs _ _ _ _ hl => .ok hl (.refl _) hs h

/-- A question to the store. -/
theorem ask (hx : Asks x) (hp : Still x P)
    (h : ∀ a, C.Sealed s.store → P s.store a → Q s.store a) : C.Sound s x x Q := by
  intro hs host host' s' _ hl
  obtain ⟨q, hq, he⟩ := hx
  have hstore : s'.store = s.store := by
    obtain ⟨p, l, rfl, -⟩ := hl
    rfl
  have hmoved := (hp host s).1
  rw [hq] at hmoved
  rw [hq, hq, hstore]
  cases hr : q s.store with
  | ok a =>
    rw [hr] at hmoved
    exact .ok hl (.refl _) hs (h a hs hmoved.2)
  | error e => exact .error hl (.refl _) hs (fails_unplaced (he _ _ hr))

/-- A question of whose answer nothing is asked. -/
theorem look (hx : Asks x) : C.Sound s x x fun _ _ => True := by
  intro hs host host' s' _ hl
  obtain ⟨q, hq, he⟩ := hx
  have hstore : s'.store = s.store := by
    obtain ⟨p, l, rfl, -⟩ := hl
    rfl
  rw [hq, hq, hstore]
  cases hr : q s.store with
  | ok a => exact .ok hl (.refl _) hs trivial
  | error e => exact .error hl (.refl _) hs (fails_unplaced (he _ _ hr))

theorem throw {e : Failure} (h : e.Unplaced) :
    C.Sound s (MonadExcept.throw e) (MonadExcept.throw e) Q :=
  fun hs _ _ _ _ hl => .error hl (.refl _) hs (fails_unplaced h)

theorem fail (code : Code) (message : Text) :
    C.Sound s (Eval.fail code message) (Eval.fail code message) Q :=
  throw rfl

theorem failWithHint (code : Code) (message hint : Text) :
    C.Sound s (Eval.failWithHint code message hint) (Eval.failWithHint code message hint) Q :=
  throw rfl

/-- One evaluation after another. -/
theorem bind (hx : C.Sound s x y P)
    (hf : ∀ a t, s.store.Grows t.store → C.Sealed t.store → P t.store a →
      C.Sound t (f a) (g a) R) :
    C.Sound s (x >>= f) (y >>= g) R := by
  intro hs h h' s' hh hl
  have hxy := hx hs hh hl
  rw [bind_apply, bind_apply]
  generalize x h s = r at hxy ⊢
  generalize y h' s' = r' at hxy ⊢
  cases hxy with
  | ok hl hg ht ha => exact (hf _ _ hg ht ha ht hh hl).after hg
  | error hl hg ht he => exact .error hl hg ht he
  | stopped hd => exact .stopped hd

theorem mono (hx : C.Sound s x y P)
    (h : ∀ t a, s.store.Grows t → C.Sealed t → P t a → Q t a) : C.Sound s x y Q :=
  fun hs _ _ _ hh hl => (hx hs hh hl).mono h

/-- Evaluations of whose results nothing more is asked. -/
theorem forget (hx : C.Sound s x y Q) : C.Sound s x y fun _ _ => True :=
  hx.mono fun _ _ _ _ _ => trivial

theorem map {h : α → β} (hx : C.Sound s x y P) (hR : ∀ t a, C.Sealed t → P t a → R t (h a)) :
    C.Sound s (do return h (← x)) (do return h (← y)) R :=
  bind hx fun a t _ ht ha => pure (hR t.store a ht ha)

/-- One of two evaluations, and then the same for both. -/
theorem ite_bind {c : Prop} [Decidable c] {x₁ y₁ x₂ y₂ : Eval α} (h₁ : C.Sound s x₁ y₁ P)
    (h₂ : C.Sound s x₂ y₂ P)
    (hf : ∀ a t, s.store.Grows t.store → C.Sealed t.store → P t.store a →
      C.Sound t (f a) (g a) R) :
    C.Sound s (if c then x₁ >>= f else x₂ >>= f) (if c then y₁ >>= g else y₂ >>= g) R := by
  split
  · exact bind h₁ hf
  · exact bind h₂ hf

/-- A look at the store. -/
theorem store {f g : Store → Eval β}
    (h : C.Sealed s.store → C.Sound s (f s.store) (g s.store) R) :
    C.Sound s (Eval.store >>= f) (Eval.store >>= g) R := by
  intro hs host host' s' hh hl
  have hstore : s'.store = s.store := by
    obtain ⟨p, l, rfl, -⟩ := hl
    rfl
  show C.Outcome s.store R (f s.store host s) (g s'.store host' s')
  rw [hstore]
  exact h hs hs hh hl

/-- A look at the state. -/
theorem state {f g : State → Eval β}
    (h : ∀ parsed log, C.Sound s (f s) (g { s with parsed, log }) R) :
    C.Sound s (MonadState.get >>= f) (MonadState.get >>= g) R := by
  intro hs host host' s' hh hl
  have hgiven := hl
  obtain ⟨p, l, rfl, -⟩ := hgiven
  exact h p l hs hh hl

/-- A look at the host. -/
theorem host {f g : Host → Eval β} (h : ∀ host host', C.hosts host host' →
    C.Sound s (f host) (g host') R) :
    C.Sound s (MonadReader.read >>= f) (MonadReader.read >>= g) R :=
  fun hs _ _ _ hh hl => h _ _ hh hs hh hl

/-! ### Changes of the state -/

/-- A change of the state apart from the store, the log and the files kept after parsing. -/
theorem modifyGet {f : State → α × State}
    (hrest : ∀ s parsed log, f { s with parsed, log } = ((f s).1, { (f s).2 with parsed, log }))
    (hstore : (f s).2.store = s.store) (hparsed : (f s).2.parsed = s.parsed) :
    C.Sound s (MonadStateOf.modifyGet f : Eval α) (MonadStateOf.modifyGet f) fun _ _ => True := by
  intro hs h h' s' _ hl
  obtain ⟨p, l, rfl, hkept⟩ := hl
  have hlike : (f s).2.Like C.kept { (f s).2 with parsed := p, log := l } :=
    ⟨p, l, rfl, hparsed.symm ▸ hkept⟩
  have hend : C.Outcome s.store (fun _ _ => True) (.ok (f s).1 (f s).2)
      (.ok (f s).1 { (f s).2 with parsed := p, log := l }) :=
    .ok hlike (hstore.symm ▸ .refl _) (hstore.symm ▸ hs) trivial
  show C.Outcome s.store (fun _ _ => True) (.ok (f s).1 (f s).2)
    (.ok (f { s with parsed := p, log := l }).1 (f { s with parsed := p, log := l }).2)
  rw [hrest s p l]
  exact hend

theorem setFiles (files : Files) :
    C.Sound s (modify fun st => { st with files := files } : Eval Unit)
      (modify fun st => { st with files := files }) fun _ _ => True :=
  modifyGet (f := fun st => ((), { st with files := files })) (fun _ _ _ => rfl) rfl rfl

/-- A change of the store. -/
theorem change {f : Store → α × Store} (hgrows : s.store.Grows (f s.store).2)
    (hsealed : C.Sealed s.store → C.Sealed (f s.store).2)
    (hQ : C.Sealed s.store → Q (f s.store).2 (f s.store).1) :
    C.Sound s (Eval.change f) (Eval.change f) Q := by
  intro hs h h' s' _ hl
  obtain ⟨p, l, rfl, hkept⟩ := hl
  exact .ok ⟨p, l, rfl, hkept⟩ hgrows (hsealed hs) (hQ hs)

theorem update {f : Store → Store}
    (h : C.Sealed s.store → C.Sealed (f s.store) ∧ s.store.Grows (f s.store)) :
    C.Sound s (Eval.update f) (Eval.update f) fun _ _ => True := by
  intro hs
  exact change (f := fun st => ((), f st)) (Q := fun _ _ => True) (h hs).2 (fun hs => (h hs).1)
    (fun _ => trivial) hs

theorem newNumber : C.Sound s Eval.newNumber Eval.newNumber fun _ _ => True :=
  change (.refl _) (fun hs => hs.newNumber) fun _ => trivial

/-- A change of a scope that can fail. -/
theorem tryScope {f : Store → Except NameFault Store}
    (h : ∀ t, C.Sealed s.store → f s.store = .ok t → C.Sealed t ∧ s.store.Grows t) :
    C.Sound s (Eval.tryScope f) (Eval.tryScope f) fun _ _ => True := by
  intro hs host host' s' _ hl
  obtain ⟨p, l, rfl, hkept⟩ := hl
  unfold Eval.tryScope
  dsimp only
  cases hf : f s.store with
  | ok t => exact .ok ⟨p, l, rfl, hkept⟩ (h t hs hf).2 (h t hs hf).1 trivial
  | error e => exact .error ⟨p, l, rfl, hkept⟩ (.refl _) hs (fails_unplaced rfl)

/-! ### Work around an evaluation -/

/-- What is done with the end of an evaluation, when it keeps the two ends alike. -/
theorem wrap {V W : Host → EStateM.Result Failure State α → EStateM.Result Failure State α}
    (hx : C.Sound s x y P)
    (hV : ∀ h h' r r', C.hosts h h' → C.Outcome s.store P r r' →
      C.Outcome s.store Q (V h r) (W h' r')) :
    C.Sound s (fun h s => V h (x h s)) (fun h s => W h (y h s)) Q :=
  fun hs _ _ _ hh hl => hV _ _ _ _ hh (hx hs hh hl)

theorem located {span : Span} (hspan : C.spans span) (hx : C.Sound s x y Q) :
    C.Sound s (Eval.located span x) (Eval.located span y) Q := by
  refine wrap (V := fun h r => Eval.located span (fun _ _ => r) h s)
    (W := fun h r => Eval.located span (fun _ _ => r) h s) hx fun _ _ r r' _ hr => ?_
  cases hr with
  | ok hl hg hs hq => exact .ok hl hg hs hq
  | error hl hg hs he =>
    refine .error hl hg hs ?_
    rename_i e _ _
    cases e with
    | fault f =>
      intro span' hspan'
      obtain ⟨code, message, own, hint⟩ := f
      cases own with
      | none =>
        cases hspan'
        exact hspan
      | some own => exact he span' hspan'
    | _ => trivial
  | stopped hd => exact .stopped hd

/-- Loop control that is caught becomes the value of an evaluation. -/
theorem catchLoop {x y : Eval Value} (hx : C.Sound s x y C.Good) :
    C.Sound s (Eval.catchLoop x) (Eval.catchLoop y) C.Good := by
  refine wrap (V := fun h r => Eval.catchLoop (fun _ _ => r) h s)
    (W := fun h r => Eval.catchLoop (fun _ _ => r) h s) hx fun _ _ r r' _ hr => ?_
  cases hr with
  | ok hl hg hs hq => exact .ok hl hg hs hq
  | error hl hg hs he =>
    rename_i e _ _
    cases e with
    | loop c => exact .ok hl hg hs (by cases c <;> trivial)
    | _ => exact .error hl hg hs he
  | stopped hd => exact .stopped hd

/-- A record in the log keeps states alike. -/
theorem like_noted {t t' : State} (record : LogRecord) (h h' : Host) (hl : t.Like C.kept t') :
    (Law.Pairing.Sound.noted record h t).Like C.kept (Law.Pairing.Sound.noted record h' t') := by
  obtain ⟨p, l, rfl, hkept⟩ := hl
  unfold Law.Pairing.Sound.noted
  split <;> split <;> exact ⟨p, _, rfl, hkept⟩

theorem store_noted (record : LogRecord) (h : Host) (t : State) :
    (Law.Pairing.Sound.noted record h t).store = t.store :=
  (Law.Pairing.Sound.same_noted record h t).store

theorem note_eq (message : Text) (details : List (Text × LogValue)) (h : Host) (t : State) :
    Eval.note message details h t = .ok () (Law.Pairing.Sound.noted { message, details } h t) := by
  unfold Law.Pairing.Sound.noted
  show (if h.logging = true then _ else _ : Eval Unit) h t = _
  split <;> rfl

theorem note (message : Text) (details : List (Text × LogValue)) :
    C.Sound s (Eval.note message details) (Eval.note message details) fun _ _ => True := by
  intro hs h h' s' _ hl
  rw [note_eq, note_eq]
  refine .ok (like_noted _ h h' hl) ?_ ?_ trivial
  · rw [store_noted]
    exact .refl _
  · rw [store_noted]
    exact hs

/-- A note in the log, however an evaluation ends. -/
theorem thenNote {x y : Eval Value} {Q : Store → Value → Prop} (message : Text)
    (details : List (Text × LogValue)) (hx : C.Sound s x y Q) :
    C.Sound s (Runner.thenNote x message details) (Runner.thenNote y message details) Q := by
  refine wrap (V := Law.Pairing.Sound.recorded { message, details })
    (W := Law.Pairing.Sound.recorded { message, details }) hx fun h h' r r' _ hr => ?_
  cases hr with
  | ok hl hg hs hq =>
    refine .ok (like_noted _ h h' hl) ?_ ?_ ?_ <;> rw [store_noted] <;> assumption
  | error hl hg hs he =>
    refine .error (like_noted _ h h' hl) ?_ ?_ he <;> rw [store_noted] <;> assumption
  | stopped hd => exact .stopped hd

/-- Work that belongs to the import of a file. -/
theorem duringImport {path : Text} (hx : ∀ t : State, t.store = s.store → C.Sound t x y Q) :
    C.Sound s (Eval.duringImport path x) (Eval.duringImport path y) Q := by
  intro hs h h' s' hh hl
  obtain ⟨p, l, rfl, hkept⟩ := hl
  have inside := hx { s with importing := s.importing.insert path, dir := Path.dir path } rfl hs hh
    ⟨p, l, rfl, hkept⟩
  unfold Eval.duringImport
  dsimp only
  generalize x h _ = r at inside ⊢
  generalize y h' _ = r' at inside ⊢
  cases inside with
  | ok hl hg hs hq =>
    obtain ⟨p, l, rfl, hkept⟩ := hl
    exact .ok ⟨p, l, rfl, hkept⟩ hg hs hq
  | error hl hg hs he =>
    obtain ⟨p, l, rfl, hkept⟩ := hl
    exact .error ⟨p, l, rfl, hkept⟩ hg hs he
  | stopped hd => exact .stopped hd

/-- A look whether the run was cancelled, and the end of the run if it was. -/
theorem stopIf {x y : Eval β} {what : Text} (hx : C.Sound s x y R) :
    C.Sound s
      (do if ← isCancelled then MonadExcept.throw (Failure.cancelled what) else x)
      (do if ← isCancelled then MonadExcept.throw (Failure.cancelled what) else y) R := by
  have unfolded : ∀ (x : Eval β) (h : Host) (t : State), (do
      if ← isCancelled then MonadExcept.throw (Failure.cancelled what) else x) h t =
        if h.cancels t.writes then .error (.cancelled what) t else x h t := by
    intro x h t
    show (if h.cancels t.writes = true then _ else x) h t = _
    split <;> rfl
  intro hs h h' s' hh hl
  have hcancels : h'.cancels s'.writes = h.cancels s.writes := by
    obtain ⟨p, l, rfl, -⟩ := hl
    unfold Host.cancels
    rw [(C.agrees hh).cancelAfter]
  rw [unfolded, unfolded, hcancels]
  split
  · exact .error hl (.refl _) hs trivial
  · exact hx hs hh hl

theorem checkCancelled : C.Sound s Eval.checkCancelled Eval.checkCancelled fun _ _ => True :=
  stopIf (pure trivial)

/-- A text is written, or refused. -/
theorem write (t : Text) : C.Sound s (Eval.write t) (Eval.write t) fun _ _ => True := by
  have unfolded : ∀ (h : Host) (u : State), Eval.write t h u =
      if h.refuses u.writes then .ok false u else .ok true { u with writes := u.writes.push t } := by
    intro h u
    show (if h.refuses u.writes = true then _ else _ : Eval Bool) h u = _
    split <;> rfl
  intro hs h h' s' hh hl
  obtain ⟨p, l, rfl, hkept⟩ := hl
  have hrefuses : h'.refuses s.writes = h.refuses s.writes := by
    unfold Host.refuses
    rw [(C.agrees hh).failAfter]
  rw [unfolded, unfolded, hrefuses]
  split <;> exact .ok ⟨p, l, rfl, hkept⟩ (.refl _) hs trivial

/-! ### Lists -/

theorem mapM {l : List γ} {f g : γ → Eval α} (hQ : Lasting Q)
    (h : ∀ c ∈ l, ∀ t : State, s.store.Grows t.store → C.Sound t (f c) (g c) Q) :
    C.Sound s (l.mapM f) (l.mapM g) fun t as => ∀ a ∈ as, Q t a := by
  induction l generalizing s with
  | nil => exact pure fun _ h => absurd h List.not_mem_nil
  | cons c l ih =>
    rw [List.mapM_cons, List.mapM_cons]
    refine bind (h c List.mem_cons_self s (.refl _)) fun a t hst _ ha => ?_
    have hrest := ih fun c hc u htu => h c (List.mem_cons_of_mem _ hc) u (hst.trans htu)
    refine bind hrest fun as u htu _ has => pure fun b hb => ?_
    rcases List.mem_cons.1 hb with rfl | hb
    · exact hQ htu ha
    · exact has b hb

/-- Work on the elements of a list of whose results nothing is asked. -/
theorem eachM {l : List γ} {f g : γ → Eval α}
    (h : ∀ c ∈ l, ∀ t : State, s.store.Grows t.store →
      C.Sound t (f c) (g c) fun _ _ => True) :
    C.Sound s (l.mapM f) (l.mapM g) fun _ _ => True :=
  (mapM lasting_true h).forget

theorem forIn {l : List γ} {f g : γ → PUnit → Eval (ForInStep PUnit)}
    (h : ∀ c ∈ l, ∀ t : State, C.Sound t (f c ⟨⟩) (g c ⟨⟩) fun _ _ => True) :
    C.Sound s (ForIn.forIn l ⟨⟩ f) (ForIn.forIn l ⟨⟩ g) fun _ _ => True := by
  induction l generalizing s with
  | nil => exact pure trivial
  | cons c l ih =>
    rw [List.forIn_cons, List.forIn_cons]
    refine bind (h c List.mem_cons_self s) fun r t _ _ _ => ?_
    cases r with
    | done => exact pure trivial
    | yield => exact ih fun c hc => h c (List.mem_cons_of_mem _ hc)

theorem filterM {l : List γ} {f g : γ → Eval Bool}
    (h : ∀ c ∈ l, ∀ t : State, s.store.Grows t.store →
      C.Sound t (f c) (g c) fun _ _ => True) :
    C.Sound s (l.filterM f) (l.filterM g) fun _ kept => kept ⊆ l := by
  suffices key : ∀ (rest kept : List γ) (t : State), s.store.Grows t.store → rest ⊆ l →
      kept ⊆ l → C.Sound t (rest.filterAuxM f kept) (rest.filterAuxM g kept)
        fun _ kept => kept ⊆ l by
    refine map (key l [] s (.refl _) (List.Subset.refl l) (List.nil_subset l))
      fun _ kept _ hkept => ?_
    exact fun c hc => hkept (List.mem_reverse.1 hc)
  intro rest
  induction rest with
  | nil => exact fun kept t _ _ hkept => pure hkept
  | cons c rest ih =>
    intro kept t hst hrest hkept
    obtain ⟨hc, hrest⟩ := List.cons_subset.1 hrest
    refine bind (h c hc t hst) fun b u htu _ _ => ih _ u (hst.trans htu) hrest ?_
    cases b with
    | true => exact List.cons_subset.2 ⟨hc, hkept⟩
    | false => exact hkept

/-- Evaluations from some store on, as a relation that sorting respects. -/
def relator (C : Comparison) (s : State) : Sorting.Relator Eval where
  rel x y Q := ∀ t : State, s.store.Grows t.store → C.Sound t x y fun _ => Q
  pure h _ _ := pure h
  bind hx hf t hst := bind (hx t hst) fun a t' htt' _ ha => hf a ha t' (hst.trans htt')

end Sound

end Comparison

end ScriptLang
