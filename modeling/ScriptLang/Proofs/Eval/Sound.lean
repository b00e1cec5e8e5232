import ScriptLang.Eval.Stmt
import ScriptLang.Proofs.Eval.Law

/-!
# Evaluations in accordance with a law

The judgement `Law.Pairing.Sound` and its rules: one for each way in which evaluations are put together
and one for each primitive change of the store. A condition on results speaks about the store at the
end; the conditions that matter are lasting, so they can be carried on to every later store.
-/

namespace ScriptLang

open Eval

/-- A state that an evaluation leaves behind, whatever it does to the store: what was written stays
written, and the imports in progress are those that were in progress before. -/
structure State.Onward (s t : State) : Prop where
  writes : s.writes.toList <+: t.writes.toList
  importing : t.importing = s.importing
  dir : t.dir = s.dir

namespace State.Onward

variable {s t u : State}

theorem refl : s.Onward s := ⟨List.prefix_rfl, rfl, rfl⟩

theorem trans (hst : s.Onward t) (htu : t.Onward u) : s.Onward u :=
  ⟨hst.writes.trans htu.writes, htu.importing.trans hst.importing, htu.dir.trans hst.dir⟩

/-- A change of the store. -/
theorem of_store {st : Store} : s.Onward { s with store := st } := ⟨List.prefix_rfl, rfl, rfl⟩

theorem of_same (h : Same s t) : s.Onward t :=
  ⟨h.writes ▸ List.prefix_rfl, h.importing, h.dir⟩

/-- The end of an import leaves the imports in progress that there were before it, if the file was not
among them: what was done meanwhile has left it there, and nothing else is taken away. -/
theorem endImport {path : Text} (hpath : path ∉ s.importing)
    (h : { s with importing := s.importing.insert path, dir := Path.dir path : State }.Onward t) :
    s.Onward (t.endImport path s.dir) := by
  refine ⟨h.writes, ?_, rfl⟩
  show t.importing.filter (fun p => p != path) = s.importing
  rw [h.importing, List.insert_of_not_mem hpath, List.filter_cons_of_neg (by simp)]
  exact List.filter_eq_self.2 fun p hp => bne_iff_ne.2 (ne_of_mem_of_not_mem hp hpath)

end State.Onward

namespace Law

variable (L : Law) {α β γ : Type}

/-- How an evaluation may fail: with loop control that may leave it, or as the law admits. -/
def Ends (ε : Effect) : Failure → Prop
  | .loop c => ε.leaves c
  | e => L.fails e

/-- The end of an evaluation that is in accordance with the law. -/
def Outcome (ε : Effect) (s : State) (Q : Store → α → Prop) :
    EStateM.Result Failure State α → Prop
  | .ok a t => L.le ε.binds s.store t.store ∧ s.Onward t ∧ L.Inv t.store ∧ Q t.store a
  | .error e t => L.le ε.binds s.store t.store ∧ s.Onward t ∧ L.Inv t.store ∧ L.Ends ε e

/-- A condition on results that lasts as stores follow one another. -/
def Lasting (Q : Store → α → Prop) : Prop :=
  ∀ ⦃B : ScopeId → Text → Prop⦄ ⦃s t : Store⦄ ⦃a : α⦄, L.le B s t → Q s a → Q t a

variable {L}
variable {ε δ : Effect} {s t u : State} {P Q : Store → α → Prop} {R : Store → β → Prop}

theorem Ends.mono {e : Failure} (h : L.Ends δ e) (hδ : ∀ c, δ.leaves c → ε.leaves c) :
    L.Ends ε e := by
  cases e with
  | loop c => exact hδ c h
  | _ => exact h

theorem ends_plain {e : Failure} (h : e.isPlain = true) : L.Ends ε e := by
  cases e with
  | loop c => cases h
  | _ => exact L.fails_plain h

theorem le_quiet {B : ScopeId → Text → Prop} {s t : Store} (h : L.le noNames s t) : L.le B s t :=
  L.le_mono (fun _ _ h => h.elim) h

theorem le_store {B : ScopeId → Text → Prop} {s t : Store} (h : t = s) : L.le B s t :=
  h ▸ L.le_refl

theorem lasting_good : L.Lasting L.Good := fun _ _ _ _ hle h => h.mono hle

theorem lasting_bare : L.Lasting L.Bare := fun _ _ _ _ hle h => h.mono hle

theorem lasting_true : L.Lasting fun _ (_ : α) => True := fun _ _ _ _ _ _ => trivial

namespace Outcome

/-- What an evaluation did is in accordance with the law also together with what went before it. -/
theorem after {r : EStateM.Result Failure State α} (h : L.Outcome δ t Q r) (hw : s.Onward t)
    (hle : ∀ u, L.le δ.binds t.store u → L.le ε.binds s.store u)
    (hδ : ∀ c, δ.leaves c → ε.leaves c) : L.Outcome ε s Q r := by
  cases r with
  | ok a u => exact ⟨hle _ h.1, hw.trans h.2.1, h.2.2⟩
  | error e u => exact ⟨hle _ h.1, hw.trans h.2.1, h.2.2.1, h.2.2.2.mono hδ⟩

theorem mono {r : EStateM.Result Failure State α} (h : L.Outcome δ s P r) (hδ : δ ≤ ε)
    (hQ : ∀ t a, L.le δ.binds s.store t → L.Inv t → P t a → Q t a) : L.Outcome ε s Q r := by
  cases r with
  | ok a t => exact ⟨L.le_mono hδ.1 h.1, h.2.1, h.2.2.1, hQ _ _ h.1 h.2.2.1 h.2.2.2⟩
  | error e t => exact ⟨L.le_mono hδ.1 h.1, h.2.1, h.2.2.1, h.2.2.2.mono hδ.2⟩

/-- The law speaks of the store, of what was written and of the imports in progress only. -/
theorem congr {r r' : EStateM.Result Failure State α} (h : L.Outcome ε s Q r)
    (hr : ∀ a t, r = .ok a t → ∃ t', r' = .ok a t' ∧ Same t t')
    (he : ∀ e t, r = .error e t → ∃ t', r' = .error e t' ∧ Same t t') : L.Outcome ε s Q r' := by
  cases r with
  | ok a t =>
    obtain ⟨t', rfl, hsame⟩ := hr a t rfl
    simp only [Outcome, hsame.store]
    exact ⟨h.1, h.2.1.trans (.of_same hsame), h.2.2⟩
  | error e t =>
    obtain ⟨t', rfl, hsame⟩ := he e t rfl
    simp only [Outcome, hsame.store]
    exact ⟨h.1, h.2.1.trans (.of_same hsame), h.2.2⟩

/-- The ending of an evaluation in accordance with the law. -/
theorem ending {r : EStateM.Result Failure State α} (h : L.Outcome ε s Q r) :
    L.le ε.binds s.store (Ending.of r).store ∧
      s.writes.toList <+: (Ending.of r).writes.toList := by
  cases r with
  | ok a t => exact ⟨h.1, h.2.1.writes⟩
  | error e t => exact ⟨h.1, h.2.1.writes⟩

end Outcome

variable (K : L.Pairing)

/-- Two results from two hosts: they are the same, or the two runs have parted. -/
def Pairing.Agree (h h' : Host) (r r' : EStateM.Result Failure State α) : Prop :=
  (r = r' ∧ K.hosts h h' (Ending.of r').writes) ∨ K.parts (Ending.of r) (Ending.of r')

/-- Two evaluations from a state: what the second does is in accordance with the law, and the first
does the same until they part. -/
def Pairing.Sound (ε : Effect) (s : State) (x y : Eval α) (Q : Store → α → Prop) : Prop :=
  L.Inv s.store → K.stands s.importing → (∀ h, L.admits h → L.Outcome ε s Q (y h s)) ∧
    ∀ h h', K.hosts h h' s.writes → K.Agree h h' (x h s) (y h' s)

namespace Pairing.Sound

variable {K} {x y : Eval α} {f g : α → Eval β}

theorem of_inv (h : L.Inv s.store → K.Sound ε s x y Q) : K.Sound ε s x y Q :=
  fun hs => h hs hs

/-- An evaluation that writes nothing and does not depend on when its host stops runs. -/
theorem of_same (hout : L.Inv s.store → ∀ h, L.Outcome ε s Q (x h s))
    (hsame : ∀ h h', Host.Alike h h' → x h s = x h' s)
    (hwrites : ∀ h, (Ending.of (x h s)).writes = s.writes) : K.Sound ε s x x Q :=
  fun hs _ => ⟨fun h _ => hout hs h, fun h h' hh =>
    .inl ⟨hsame h h' (K.hosts_alike hh), by rw [hwrites h']; exact hh⟩⟩

theorem pure {a : α} (h : Q s.store a) : K.Sound ε s (Pure.pure a) (Pure.pure a) Q :=
  of_same (fun hs _ => ⟨L.le_refl, .refl, hs, h⟩) (fun _ _ _ => rfl) fun _ => rfl

/-- An evaluation that leaves the store as it is. -/
theorem still (hx : Still x P) (h : ∀ a, L.Inv s.store → P s.store a → Q s.store a) :
    K.Sound ε s x x Q := by
  refine of_same (fun hs host => ?_) (fun h h' hh => (hx h s).2 h' hh) fun host => ?_
  · have hmoved := (hx host s).1
    cases hr : x host s with
    | ok a t =>
      rw [hr] at hmoved
      obtain ⟨hsame, hP⟩ := hmoved
      exact ⟨le_store hsame.store, .of_same hsame, hsame.store ▸ hs, hsame.store ▸ h a hs hP⟩
    | error e t =>
      rw [hr] at hmoved
      obtain ⟨hsame, hp⟩ := hmoved
      exact ⟨le_store hsame.store, .of_same hsame, hsame.store ▸ hs, ends_plain hp⟩
  · have hmoved := (hx host s).1
    cases hr : x host s with
    | ok a t =>
      rw [hr] at hmoved
      exact hmoved.1.writes
    | error e t =>
      rw [hr] at hmoved
      exact hmoved.1.writes

/-- A still evaluation of whose result nothing is asked. -/
theorem look {Q : Store → α → Prop} (hx : Still x Q) : K.Sound ε s x x fun _ _ => True :=
  still hx fun _ _ _ => trivial

theorem throw {e : Failure} (h : e.isPlain = true) :
    K.Sound ε s (MonadExcept.throw e) (MonadExcept.throw e) Q :=
  still (P := fun _ _ => False) (.throw h) fun _ _ h => h.elim

theorem fail {code : Code} {message : Text} (h : code ≠ .duplicateIdentifier) :
    K.Sound ε s (Eval.fail code message) (Eval.fail code message) Q :=
  still (P := fun _ _ => False) (.fail h) fun _ _ h => h.elim

theorem failWithHint {code : Code} {message hint : Text} (h : code ≠ .duplicateIdentifier) :
    K.Sound ε s (Eval.failWithHint code message hint) (Eval.failWithHint code message hint) Q :=
  still (P := fun _ _ => False) (.failWithHint h) fun _ _ h => h.elim

/-- How one evaluation after another ends. -/
theorem ending_bind (x : Eval α) (f : α → Eval β) (h : Host) (s : State) :
    (Ending.of (x h s)).failure ≠ none → Ending.of ((x >>= f) h s) = Ending.of (x h s) := by
  rw [bind_apply]
  cases x h s with
  | ok a t => exact fun h => absurd rfl h
  | error e t => exact fun _ => rfl

/-- One evaluation after another; `hle` says what they do together. -/
theorem bind_onward {ζ : α → Effect} (hx : K.Sound δ s x y P) (hδ : δ ≤ ε)
    (hζ : ∀ a c, (ζ a).leaves c → ε.leaves c)
    (hle : ∀ a t u, P t a → L.le δ.binds s.store t → L.le (ζ a).binds t u → L.le ε.binds s.store u)
    (hf : ∀ a t, L.le δ.binds s.store t.store → s.Onward t → L.Inv t.store → P t.store a →
      K.Sound (ζ a) t (f a) (g a) R) :
    K.Sound ε s (x >>= f) (y >>= g) R := by
  intro hs hstands
  obtain ⟨hout, hagree⟩ := hx hs hstands
  have hthen : ∀ h a t, L.admits h → y h s = .ok a t →
      (L.Inv t.store ∧ K.stands t.importing) ∧ K.Sound (ζ a) t (f a) (g a) R ∧
      ∀ h, L.admits h → L.Outcome ε s R (g a h t) := by
    intro h a t hh hr
    have ho := hout h hh
    rw [hr] at ho
    obtain ⟨hst, hw, ht, ha⟩ := ho
    have hsound := hf a t hst hw ht ha
    have hstands : K.stands t.importing := hw.importing ▸ hstands
    exact ⟨⟨ht, hstands⟩, hsound, fun h hh =>
      ((hsound ht hstands).1 h hh).after hw (fun u => hle a _ u ha hst) (hζ a)⟩
  refine ⟨fun h hh => ?_, fun h h' hh => ?_⟩
  · rw [bind_apply]
    cases hr : y h s with
    | ok a t => exact (hthen h a t hh hr).2.2 h hh
    | error e t =>
      have ho := hout h hh
      rw [hr] at ho
      exact ⟨L.le_mono hδ.1 ho.1, ho.2.1, ho.2.2.1, ho.2.2.2.mono hδ.2⟩
  · rcases hagree h h' hh with ⟨hxy, hh'⟩ | hparts
    · rw [bind_apply, bind_apply, hxy]
      cases hr : y h' s with
      | ok a t =>
        rw [hr] at hh'
        obtain ⟨⟨hinv, hstands⟩, hsound, -⟩ := hthen h' a t (K.hosts_admits hh) hr
        exact (hsound hinv hstands).2 h h' hh'
      | error e t =>
        rw [hr] at hh'
        exact .inl ⟨rfl, hh'⟩
    · -- once the two have parted, the second goes on by the law whatever the first does
      refine .inr (K.parts_step hparts (ending_bind x f h s) (ending_bind y g h' s)
        fun hnone => ?_)
      rw [bind_apply]
      cases hr : y h' s with
      | ok a t =>
        obtain ⟨⟨hinv, hstands⟩, hsound, -⟩ := hthen h' a t (K.hosts_admits hh) hr
        obtain ⟨hle, hw⟩ := ((hsound hinv hstands).1 h' (K.hosts_admits hh)).ending
        exact ⟨⟨_, hle⟩, hw⟩
      | error e t =>
        rw [hr] at hnone
        cases hnone

theorem bind_of {ζ : α → Effect} (hx : K.Sound δ s x y P) (hδ : δ ≤ ε)
    (hζ : ∀ a c, (ζ a).leaves c → ε.leaves c)
    (hle : ∀ a t u, P t a → L.le δ.binds s.store t → L.le (ζ a).binds t u → L.le ε.binds s.store u)
    (hf : ∀ a t, L.le δ.binds s.store t.store → L.Inv t.store → P t.store a →
      K.Sound (ζ a) t (f a) (g a) R) :
    K.Sound ε s (x >>= f) (y >>= g) R :=
  bind_onward hx hδ hζ hle fun a t hst _ ht ha => hf a t hst ht ha

/-- One evaluation after another, of which the first leaves the store and the imports in progress as
they are. -/
theorem look_bind {x : Eval α} {P : Store → α → Prop} (hx : Still x P)
    (hf : ∀ a t, (∃ h t', x h s = .ok a t') → t.store = s.store → t.importing = s.importing →
      K.Sound ε t (f a) (g a) R) :
    K.Sound ε s (x >>= f) (x >>= g) R := by
  have looked : K.Sound ε s x x fun t a => t = s.store ∧ ∃ h t', x h s = .ok a t' := by
    have seen : K.Sound ε s x x fun _ _ => True := look hx
    refine fun hs hstands => ⟨fun h hh => ?_, (seen hs hstands).2⟩
    have hout := (seen hs hstands).1 h hh
    have hmoved := (hx h s).1
    cases hr : x h s with
    | ok a t =>
      rw [hr] at hout hmoved
      exact ⟨hout.1, hout.2.1, hout.2.2.1, hmoved.1.store, h, t, hr⟩
    | error e t =>
      rw [hr] at hout
      exact hout
  exact bind_onward (ζ := fun _ => ε) looked (Effect.le_refl ε) (fun _ _ h => h)
    (fun _ _ _ _ hst htu => L.le_trans hst htu)
    fun a t _ hw _ ha => hf a t ha.2 ha.1 hw.importing

/-- One evaluation after another, of which the first may do no more than both together. -/
theorem bind_le (hx : K.Sound δ s x y P) (hδ : δ ≤ ε)
    (hf : ∀ a t, L.le δ.binds s.store t.store → L.Inv t.store → P t.store a →
      K.Sound ε t (f a) (g a) R) :
    K.Sound ε s (x >>= f) (y >>= g) R :=
  bind_of (ζ := fun _ => ε) hx hδ (fun _ _ h => h)
    (fun _ _ _ _ hst htu => L.le_trans (L.le_mono hδ.1 hst) htu) hf

theorem bind (hx : K.Sound ε s x y P)
    (hf : ∀ a t, L.le ε.binds s.store t.store → L.Inv t.store → P t.store a →
      K.Sound ε t (f a) (g a) R) :
    K.Sound ε s (x >>= f) (y >>= g) R :=
  bind_le hx (Effect.le_refl ε) hf

/-- One of two evaluations, and then the same for both. -/
theorem ite_bind {c : Prop} [Decidable c] {x₁ y₁ x₂ y₂ : Eval α} (h₁ : K.Sound ε s x₁ y₁ P)
    (h₂ : K.Sound ε s x₂ y₂ P)
    (hf : ∀ a t, L.le ε.binds s.store t.store → L.Inv t.store → P t.store a →
      K.Sound ε t (f a) (g a) R) :
    K.Sound ε s (if c then x₁ >>= f else x₂ >>= f) (if c then y₁ >>= g else y₂ >>= g) R := by
  split
  · exact bind h₁ hf
  · exact bind h₂ hf

theorem mono (hx : K.Sound δ s x y P) (hδ : δ ≤ ε)
    (h : ∀ t a, L.le δ.binds s.store t → L.Inv t → P t a → Q t a) : K.Sound ε s x y Q :=
  fun hs hstands => ⟨fun host hh => ((hx hs hstands).1 host hh).mono hδ h, (hx hs hstands).2⟩

/-- What a quiet evaluation does is allowed everywhere. -/
theorem quiet (hx : K.Sound .quiet s x y Q) : K.Sound ε s x y Q :=
  hx.mono (Effect.quiet_le ε) fun _ _ _ _ h => h

/-- An evaluation of whose result nothing more is asked. -/
theorem forget (hx : K.Sound ε s x y Q) : K.Sound ε s x y fun _ _ => True :=
  hx.mono (Effect.le_refl ε) fun _ _ _ _ _ => trivial

theorem good {x y : Eval Value} (hx : K.Sound ε s x y L.Bare) : K.Sound ε s x y L.Good :=
  hx.mono (Effect.le_refl ε) fun _ _ _ _ h => h.1

theorem map {h : α → β} (hx : K.Sound ε s x y P) (hR : ∀ t a, L.Inv t → P t a → R t (h a)) :
    K.Sound ε s (do return h (← x)) (do return h (← y)) R :=
  bind hx fun a t _ ht ha => pure (hR t.store a ht ha)

/-- Evaluations that are the same from the state. -/
theorem congr {x' y' : Eval α} (hx : ∀ h, x h s = x' h s) (hy : ∀ h, y h s = y' h s)
    (h : K.Sound ε s x' y' Q) : K.Sound ε s x y Q := by
  refine fun hs hstands => ⟨fun host hh => ?_, fun host host' hh => ?_⟩
  · rw [hy]
    exact (h hs hstands).1 host hh
  · rw [hx, hy]
    exact (h hs hstands).2 host host' hh

/-- A look at the store. -/
theorem store {f g : Store → Eval β} (h : L.Inv s.store → K.Sound ε s (f s.store) (g s.store) R) :
    K.Sound ε s (Eval.store >>= f) (Eval.store >>= g) R :=
  of_inv h

/-- A look at the state. -/
theorem state {f g : State → Eval β} (h : K.Sound ε s (f s) (g s) R) :
    K.Sound ε s (MonadState.get >>= f) (MonadState.get >>= g) R :=
  h

/-- A look at the host, of which nothing but what alike hosts agree on is used. -/
theorem host {f : Host → Eval β} (hf : ∀ h, L.admits h → K.Sound ε s (f h) (f h) R)
    (hsame : ∀ h h', Host.Alike h h' → f h = f h') :
    K.Sound ε s (MonadReader.read >>= f) (MonadReader.read >>= f) R := by
  refine fun hs hstands => ⟨fun h hh => (hf h hh hs hstands).1 h hh, fun h h' hh => ?_⟩
  show K.Agree h h' (f h h s) (f h' h' s)
  rw [hsame h h' (K.hosts_alike hh)]
  exact (hf h' (K.hosts_admits hh) hs hstands).2 h h' hh

/-! ### Work around an evaluation -/

/-- What is done with the end of an evaluation, when it concerns neither the store nor the writes. -/
structure Wraps (K : L.Pairing) (δ ε : Effect) (s : State) (P Q : Store → α → Prop)
    (W : Host → EStateM.Result Failure State α → EStateM.Result Failure State α) : Prop where
  alike : ∀ {h h'} r, Host.Alike h h' → W h r = W h' r
  outcome : ∀ h r, L.Outcome δ s P r → L.Outcome ε s Q (W h r)
  writes : ∀ h r, (Ending.of (W h r)).writes = (Ending.of r).writes
  left : ∀ h r other, K.parts (Ending.of r) other → K.parts (Ending.of (W h r)) other
  right : ∀ h r other, K.parts other (Ending.of r) → K.parts other (Ending.of (W h r))

theorem wrap {W : Host → EStateM.Result Failure State α → EStateM.Result Failure State α}
    (hx : K.Sound δ s x y P) (hW : Wraps K δ ε s P Q W) :
    K.Sound ε s (fun h s => W h (x h s)) (fun h s => W h (y h s)) Q := by
  refine fun hs hstands =>
    ⟨fun h hh => hW.outcome h _ ((hx hs hstands).1 h hh), fun h h' hh => ?_⟩
  rcases (hx hs hstands).2 h h' hh with ⟨hxy, hh'⟩ | hparts
  · refine .inl ⟨(congrArg (W h) hxy).trans (hW.alike _ (K.hosts_alike hh)), ?_⟩
    rw [hW.writes]
    exact hh'
  · exact .inr (hW.right _ _ _ (hW.left _ _ _ hparts))

theorem located (span : Span) (hx : K.Sound ε s x y Q) :
    K.Sound ε s (Eval.located span x) (Eval.located span y) Q := by
  refine wrap (W := fun _ r => match r with
    | .ok a t => .ok a t
    | .error e t => .error (e.located span) t) hx ⟨fun _ _ => rfl, fun _ r hr => ?_, fun _ r => ?_,
      fun _ r _ hr => ?_, fun _ r _ hr => ?_⟩
  · cases r with
    | ok a t => exact hr
    | error e t =>
      refine ⟨hr.1, hr.2.1, hr.2.2.1, ?_⟩
      cases e with
      | loop c => exact hr.2.2.2
      | _ => exact L.fails_located span hr.2.2.2
  · cases r <;> rfl
  · cases r with
    | ok a t => exact hr
    | error e t => exact (K.parts_located span).1 hr
  · cases r with
    | ok a t => exact hr
    | error e t => exact (K.parts_located span).2 hr

/-- A result in which loop control is caught. -/
def caught : EStateM.Result Failure State Value → EStateM.Result Failure State Value
  | .error (.loop c) t => .ok c.signal t
  | r => r

/-- Loop control that is caught becomes the value of an evaluation. -/
theorem catchLoop {x y : Eval Value} {P Q : Store → Value → Prop} (hx : K.Sound ε s x y P)
    (hε : ε.binds = δ.binds) (hP : ∀ t v, P t v → Q t v)
    (hleave : ∀ t c, ε.leaves c → L.le ε.binds s.store t → L.Inv t → Q t c.signal) :
    K.Sound δ s (Eval.catchLoop x) (Eval.catchLoop y) Q := by
  refine wrap (W := fun _ => caught) hx ⟨fun _ _ => rfl, fun _ r hr => ?_, fun _ r => ?_,
    fun _ r _ hr => ?_, fun _ r _ hr => ?_⟩
  · cases r with
    | ok a t => exact ⟨hε ▸ hr.1, hr.2.1, hr.2.2.1, hP _ _ hr.2.2.2⟩
    | error e t =>
      obtain ⟨hle, hw, hinv, he⟩ := hr
      cases e with
      | loop c => exact ⟨hε ▸ hle, hw, hinv, hleave _ c he hle hinv⟩
      | _ => exact ⟨hε ▸ hle, hw, hinv, he⟩
  · cases r with
    | ok a t => rfl
    | error e t => cases e <;> rfl
  · cases r with
    | ok a t => exact hr
    | error e t =>
      cases e with
      | loop c => exact K.parts_caught.1 hr
      | _ => exact hr
  · cases r with
    | ok a t => exact hr
    | error e t =>
      cases e with
      | loop c => exact K.parts_caught.2 hr
      | _ => exact hr

/-- A state with a record in its log, if the host keeps a log. -/
def noted (record : LogRecord) (h : Host) (t : State) : State :=
  if h.logging then { t with log := t.log.push record } else t

/-- A result with a record in the log of its state. -/
def recorded (record : LogRecord) (h : Host) :
    EStateM.Result Failure State Value → EStateM.Result Failure State Value
  | .ok v t => .ok v (noted record h t)
  | .error e t => .error e (noted record h t)

theorem same_noted (record : LogRecord) (h : Host) (t : State) : Same t (noted record h t) := by
  unfold noted
  split <;> exact ⟨rfl, rfl, rfl, rfl⟩

theorem ending_recorded (record : LogRecord) (h : Host) (r : EStateM.Result Failure State Value) :
    Ending.of (recorded record h r) = Ending.of r := by
  cases r <;> simp only [recorded, Ending.of, (same_noted record h _).store,
    (same_noted record h _).writes]

/-- A note in the log, however an evaluation ends. -/
theorem thenNote {x y : Eval Value} {Q : Store → Value → Prop} (message : Text)
    (details : List (Text × LogValue)) (hx : K.Sound ε s x y Q) :
    K.Sound ε s (Runner.thenNote x message details) (Runner.thenNote y message details) Q := by
  refine wrap (W := recorded { message, details }) hx ⟨fun {h h'} r hh => ?_, fun h r hr => ?_,
    fun h r => by rw [ending_recorded], fun h r _ hr => by rwa [ending_recorded],
    fun h r _ hr => by rwa [ending_recorded]⟩
  · unfold recorded noted
    rw [hh.logging]
  · refine hr.congr ?_ ?_
    · rintro v t rfl
      exact ⟨_, rfl, same_noted _ h t⟩
    · rintro e t rfl
      exact ⟨_, rfl, same_noted _ h t⟩

/-- Work that belongs to the import of a file that is not in progress yet. -/
theorem duringImport (henters : K.Enters) {path : Text} (hpath : path ∉ s.importing)
    (hx : ∀ t : State, t.store = s.store → t.writes = s.writes → K.Sound ε t x y Q) :
    K.Sound ε s (Eval.duringImport path x) (Eval.duringImport path y) Q := by
  have inside := hx { s with importing := s.importing.insert path, dir := Path.dir path } rfl rfl
  have hstart : s.importing.insert path = path :: s.importing := List.insert_of_not_mem hpath
  intro hs hstands
  obtain ⟨hout, hagree⟩ := inside hs (hstart ▸ henters hstands hpath)
  have same : ∀ r : EStateM.Result Failure State α,
      Ending.of (match r with
        | .ok a t => .ok a (t.endImport path s.dir)
        | .error e t => .error e (t.endImport path s.dir)) = Ending.of r := by
    intro r
    cases r <;> rfl
  refine ⟨fun h hh => ?_, fun h h' hh => ?_⟩
  · have ho := hout h hh
    unfold Eval.duringImport
    split
    · next hr =>
      rw [hr] at ho
      exact ⟨ho.1, ho.2.1.endImport hpath, ho.2.2⟩
    · next hr =>
      rw [hr] at ho
      exact ⟨ho.1, ho.2.1.endImport hpath, ho.2.2⟩
  · show K.Agree h h' (match x h _ with | .ok a t => _ | .error e t => _)
      (match y h' _ with | .ok a t => _ | .error e t => _)
    unfold Agree
    rw [same, same]
    refine (hagree h h' hh).imp (fun ⟨hxy, hh'⟩ => ⟨?_, hh'⟩) id
    rw [hxy]

/-! ### Stopping a run -/

/-- A look whether the run was cancelled, and the end of the run if it was. -/
theorem stopIf {x y : Eval β} {what : Text} (hx : K.Sound ε s x y R) :
    K.Sound ε s
      (do if ← isCancelled then MonadExcept.throw (Failure.cancelled what) else x)
      (do if ← isCancelled then MonadExcept.throw (Failure.cancelled what) else y) R := by
  have unfolded : ∀ (x : Eval β) (h : Host), (do
      if ← isCancelled then MonadExcept.throw (Failure.cancelled what) else x) h s =
        if h.cancels s.writes then .error (.cancelled what) s else x h s := by
    intro x h
    show (if h.cancels s.writes = true then _ else x) h s = _
    split <;> rfl
  refine fun hs hstands => ⟨fun h hh => ?_, fun h h' hh => ?_⟩
  · rw [unfolded]
    split
    · exact ⟨L.le_refl, .refl, hs, ends_plain rfl⟩
    · exact (hx hs hstands).1 h hh
  · rw [unfolded, unfolded]
    rcases K.cancel hh with heq | ⟨hc, hc', hparts⟩
    · rw [heq]
      split
      · exact .inl ⟨rfl, hh⟩
      · exact (hx hs hstands).2 h h' hh
    · rw [hc, hc']
      have hend := ((hx hs hstands).1 h' (K.hosts_admits hh)).ending
      exact .inr (K.parts_step (hparts s.store what) (fun _ => rfl)
        (fun h => absurd rfl h) fun _ => ⟨⟨_, hend.1⟩, hend.2⟩)

theorem checkCancelled : K.Sound ε s Eval.checkCancelled Eval.checkCancelled fun _ _ => True :=
  stopIf (pure trivial)

/-- A text is written, or the run fails because it was refused. -/
theorem write {t : Text} {f : Fault} {v : β} (hf : f.code = .transfer) (hv : R s.store v) :
    K.Sound ε s
      (do if ← Eval.write t then return v else MonadExcept.throw (Failure.fault f))
      (do if ← Eval.write t then return v else MonadExcept.throw (Failure.fault f)) R := by
  have unfolded : ∀ h : Host, (do
      if ← Eval.write t then return v else MonadExcept.throw (Failure.fault f) : Eval β) h s =
        if h.refuses s.writes then .error (.fault f) s
        else .ok v { s with writes := s.writes.push t } := by
    intro h
    by_cases hr : h.refuses s.writes = true
    · rw [if_pos hr]
      show (Eval.write t >>= _) h s = _
      have hw : Eval.write t h s = .ok false s := by
        show (if h.refuses s.writes = true then _ else _ : Eval Bool) h s = _
        rw [if_pos hr]
        rfl
      rw [bind_apply, hw]
      rfl
    · rw [if_neg hr]
      have hw : Eval.write t h s = .ok true { s with writes := s.writes.push t } := by
        show (if h.refuses s.writes = true then _ else _ : Eval Bool) h s = _
        rw [if_neg hr]
        rfl
      rw [bind_apply, hw]
      rfl
  have hplain : L.Ends ε (.fault f) := ends_plain (by simp [Failure.isPlain, hf])
  refine fun hs _ => ⟨fun h _ => ?_, fun h h' hh => ?_⟩
  · rw [unfolded]
    split
    · exact ⟨L.le_refl, .refl, hs, hplain⟩
    · exact ⟨L.le_refl, ⟨by simp, rfl, rfl⟩, hs, hv⟩
  · rw [unfolded, unfolded]
    rcases K.write hh with ⟨heq, hpush⟩ | ⟨hr, hr', hparts⟩
    · rw [← heq]
      split
      · exact .inl ⟨rfl, hh⟩
      · next hr => exact .inl ⟨rfl, hpush (by simpa using hr) t⟩
    · rw [hr, hr']
      exact .inr (hparts s.store t f hf)

/-! ### Lists -/

theorem mapM {l : List γ} {f g : γ → Eval α} (hQ : L.Lasting Q)
    (h : ∀ c ∈ l, ∀ t, L.le ε.binds s.store t.store → K.Sound ε t (f c) (g c) Q) :
    K.Sound ε s (l.mapM f) (l.mapM g) fun t as => ∀ a ∈ as, Q t a := by
  induction l generalizing s with
  | nil => exact pure fun _ h => absurd h List.not_mem_nil
  | cons c l ih =>
    rw [List.mapM_cons, List.mapM_cons]
    refine bind (h c List.mem_cons_self s L.le_refl) fun a t hst ht ha => ?_
    have hrest := ih fun c hc u htu => h c (List.mem_cons_of_mem _ hc) u (L.le_trans hst htu)
    refine bind hrest fun as u htu _ has => pure fun b hb => ?_
    rcases List.mem_cons.1 hb with rfl | hb
    · exact hQ htu ha
    · exact has b hb

/-- Work on the elements of a list of whose results nothing is asked. -/
theorem eachM {l : List γ} {f g : γ → Eval α}
    (h : ∀ c ∈ l, ∀ t, L.le ε.binds s.store t.store → K.Sound ε t (f c) (g c) fun _ _ => True) :
    K.Sound ε s (l.mapM f) (l.mapM g) fun _ _ => True :=
  (mapM lasting_true h).forget

/-- A loop over a list that keeps an invariant. -/
theorem forIn {l : List γ} {f g : γ → PUnit → Eval (ForInStep PUnit)} {I : Store → Prop}
    (hI : I s.store) (h : ∀ c ∈ l, ∀ t : State, I t.store →
      K.Sound ε t (f c ⟨⟩) (g c ⟨⟩) fun u _ => I u) :
    K.Sound ε s (ForIn.forIn l ⟨⟩ f) (ForIn.forIn l ⟨⟩ g) fun t _ => I t := by
  induction l generalizing s with
  | nil => exact pure hI
  | cons c l ih =>
    rw [List.forIn_cons, List.forIn_cons]
    refine bind (h c List.mem_cons_self s hI) fun r t _ _ ht => ?_
    cases r with
    | done => exact pure ht
    | yield => exact ih ht fun c hc => h c (List.mem_cons_of_mem _ hc)

theorem foldlM {l : List γ} {f g : α → γ → Eval α} {a : α} (ha : Q s.store a)
    (h : ∀ c ∈ l, ∀ a t, L.le ε.binds s.store t.store → Q t.store a →
      K.Sound ε t (f a c) (g a c) Q) :
    K.Sound ε s (l.foldlM f a) (l.foldlM g a) Q := by
  induction l generalizing s a with
  | nil => exact pure ha
  | cons c l ih =>
    refine bind (h c List.mem_cons_self a s L.le_refl ha) fun b t hst ht hb => ?_
    exact ih hb fun c hc a u htu => h c (List.mem_cons_of_mem _ hc) a u (L.le_trans hst htu)

theorem filterM {l : List γ} {f g : γ → Eval Bool}
    (h : ∀ c ∈ l, ∀ t, L.le ε.binds s.store t.store → K.Sound ε t (f c) (g c) fun _ _ => True) :
    K.Sound ε s (l.filterM f) (l.filterM g) fun _ kept => kept ⊆ l := by
  suffices key : ∀ (rest kept : List γ) (t : State), L.le ε.binds s.store t.store → rest ⊆ l →
      kept ⊆ l → K.Sound ε t (rest.filterAuxM f kept) (rest.filterAuxM g kept)
        fun _ kept => kept ⊆ l by
    refine map (key l [] s L.le_refl (List.Subset.refl l) (List.nil_subset l)) fun _ kept _ hkept => ?_
    exact fun c hc => hkept (List.mem_reverse.1 hc)
  intro rest
  induction rest with
  | nil => exact fun kept t _ _ hkept => pure hkept
  | cons c rest ih =>
    intro kept t hst hrest hkept
    obtain ⟨hc, hrest⟩ := List.cons_subset.1 hrest
    refine bind (h c hc t hst) fun b u htu _ _ => ih _ u (L.le_trans hst htu) hrest ?_
    cases b with
    | true => exact List.cons_subset.2 ⟨hc, hkept⟩
    | false => exact hkept

end Pairing.Sound

end Law

end ScriptLang
