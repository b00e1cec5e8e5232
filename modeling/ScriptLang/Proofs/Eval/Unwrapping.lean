import Mathlib
import ScriptLang.Proofs.Eval.Runs
import ScriptLang.Proofs.Store.Chains

/-!
# Values unwrap

Behind all references and annotations of a value there is a value that is neither. New cells never take
this away, and of writes to cells only those of assignments to variables do, since all others write no
references. Such an assignment *closes* a chain when the chain of the value leads through the cell that it
is written to. From then on that cell does not unwrap any more, and whatever has to know what is in it
does not end (`self_reference_closes`).

So in all uses of interpreters in which no assignment closes a chain every value unwraps, at all times.
Whether one does is not to be seen before the right side of the assignment was evaluated; therefore it is
asked by an evaluator of its own, which looks at the chain before it writes and does something else if the
write would close it.
-/

namespace ScriptLang

open Eval

/-! ### Assignments that close a chain -/

/-- Whether the assignment of a value to a variable closes a chain. What gets an annotation is stored
without its references. -/
def Store.closes (s : Store) (scope : ScopeId) (name : Text) (v : Value) : Bool :=
  match s.target? scope name with
  | some c =>
    match s.read c with
    | .typed .. => false
    | _ => s.leadsTo v c
  | none => false

/-- Write a value to a place, or do something else if that closes a chain. -/
def Place.writeUnlessClosing (otherwise : Eval Unit) (v : Value) (place : Place) : Eval Unit := do
  let s ← store
  match place with
  | .name n scope => if s.closes scope n v then otherwise else place.write v
  | place => place.write v

/-- The evaluator that does something else instead of a write that closes a chain. -/
def evaluatorGuarded (otherwise : Eval Unit) : Nat → Runner
  | 0 => fun _ => throw .stuck
  | n + 1 => fun
    | .expr (.assign span op target value) scope =>
      located span ((evaluatorGuarded otherwise n).assignWith (Place.writeUnlessClosing otherwise) op
        target value scope)
    | task => (evaluatorGuarded otherwise n).step task

/-- Whether no assignment in a request closes a chain: whatever is done instead, the outcome is the
same. -/
def closesNoChain : Request → Host → State → Prop := fun r host s =>
  ∀ otherwise : Eval Unit, r.evalBy (evaluatorGuarded otherwise Store.depthLimit) host s = r.eval host s

theorem Value.refersTo_iff {p : CellId → Prop} {v : Value} :
    v.RefersTo p ↔ ∀ c, v.referent? = some c → p c := by
  induction v with
  | reference _ c =>
    cases c with
    | none => exact iff_of_true trivial nofun
    | some c => exact ⟨fun h _ e => Option.some.inj e ▸ h, fun h => h c rfl⟩
  | typed _ _ ih => exact ih
  | _ => exact iff_of_true trivial nofun

namespace Law

/-- The law that chains have an end. -/
def grounded : Law where
  toPrograms := .all
  le := fun _ s t => s.cells.size ≤ t.cells.size
  keeps := Store.Grounded
  cell := fun s c => c < s.cells.size
  typed := fun v _ => v.isRaw = true
  allows := fun s c v => ∀ cs, s.Chain v cs → c ∉ cs
  forbids := fun task s => task.assigns s = true
  le_refl := Nat.le_refl _
  le_trans := Nat.le_trans
  le_mono := fun _ h => h
  le_fresh := fun hst _ htu => Nat.le_trans hst htu
  heap := fun hc hs _ => ⟨Nat.le_of_eq (congrArg Array.size hc).symm, fun h =>
    h.of_cells hc fun hb => by rwa [Store.scope_of_scopes hs] at hb⟩
  cell_mono := fun hle hc => Nat.lt_of_lt_of_le hc hle
  newCell := fun v h hv =>
    have hsize := Array.size_push v
    ⟨Nat.le_of_lt (hsize ▸ Nat.lt_succ_self _), h.newCell (Value.refersTo_iff.1 hv),
      hsize ▸ Nat.lt_succ_self _⟩
  write := fun h _ _ hv hallows =>
    ⟨Nat.le_of_eq Store.size_write.symm, h.write (Value.refersTo_iff.1 hv) hallows⟩
  newScope := fun parent h => ⟨Nat.le_refl _, h.of_cells rfl Store.find?_newScope, trivial⟩
  bind := by
    intro s t scope names name v constant h _ _ hv ht
    rcases Store.bind_eq_ok ht with ⟨-, rfl⟩ | ⟨-, hnew, rfl⟩
    · exact ⟨Nat.le_refl _, h, trivial⟩
    · exact ⟨Nat.le_of_lt (Nat.lt_of_lt_of_eq (Nat.lt_succ_self _) (Array.size_push _).symm),
        h.bound hnew (Value.refersTo_iff.1 hv), trivial⟩
  remove := fun h _ _ _ => ⟨Nat.le_refl _, h.of_cells rfl fun hb => (Store.find?_without.1 hb).2⟩
  ref := fun h hr _ _ _ => h.bindings (Store.find?_of_resolve hr)
  annotate := fun _ _ hraw => Store.isRaw_of_raw? hraw
  allows_stepped := by
    intro s c v n _ _ hv cs hcs hc
    cases hcs with
    | done => cases hc
    | step h _ => exact Value.refersTo_iff.1 hv _ h
  allows_assigned := fun h => absurd rfl h

theorem universal_grounded : grounded.Universal := rfl

/-- What does not close a chain may be written. -/
theorem allowsPlace_of_closes {s : Store} {scope : ScopeId} {name : Text} {v : Value}
    (h : s.closes scope name v = false) : grounded.AllowsPlace s v (.name name scope) := by
  intro c w hc hbecomes cs hcs hmem
  unfold Store.closes at h
  unfold Store.Retypes at hbecomes
  rw [hc] at h
  dsimp only at h
  split at h
  · -- what gets an annotation is no reference
    next u t hread =>
    rw [hread] at hbecomes
    obtain ⟨u', -, hu', rfl⟩ := hbecomes
    cases hcs with
    | done => cases hmem
    | step hreferent _ =>
      cases (Value.referent?_of_isRaw (Store.isRaw_of_raw? hu')).symm.trans hreferent
  · next hplain =>
    split at hbecomes
    · next u t hread => exact absurd hread (hplain u t)
    · cases hbecomes
      have hchain : s.Chain v cs := hcs.of_referent? v.referent?_plain.symm
      exact Bool.false_ne_true (h.symm.trans ((Store.leadsTo_iff hchain).2 hmem))

/-- Runs of which the second is stopped at assignments that close a chain. -/
def Pairing.Guards (K : grounded.Pairing) : Prop :=
  ∀ {task s}, Task.assigns task s = true → K.stops task s = true

namespace Pairing.Sound

variable {K : grounded.Pairing} {ε : Effect} {s : State} {v : Value}

/-- Where writes that close a chain are stopped, the others are in accordance with the law. -/
theorem writeUnlessClosing (hguards : K.Guards) {place : Place}
    (h : grounded.GoodPlace s.store place) (hv : grounded.Good s.store v) :
    K.Sound ε s (place.write v)
      (place.writeUnlessClosing (MonadExcept.throw (Failure.cancelled K.stopped)) v)
      fun _ _ => True := by
  have written (hallows : grounded.AllowsPlace s.store v place) :
      K.Sound ε s (place.write v) (place.write v) fun _ _ => True := writePlace h hv hallows
  cases place with
  | name name scope =>
    have hright : ∀ host, (Place.name name scope).writeUnlessClosing
        (MonadExcept.throw (Failure.cancelled K.stopped)) v host s =
          (if s.store.closes scope name v then MonadExcept.throw (Failure.cancelled K.stopped)
            else Place.write v (.name name scope) : Eval Unit) host s := fun _ => rfl
    refine congr (fun _ => rfl) hright ?_
    split
    · have hassigns : (Task.expr (.assign {} .set (.nil {}) (.nil {})) scope).assigns s = true := rfl
      exact stopped (hguards hassigns)
    · next hno => exact written (allowsPlace_of_closes (Bool.eq_false_iff.2 hno))
  | member => exact congr (fun _ => rfl) (fun _ => rfl) (written trivial)
  | element => exact congr (fun _ => rfl) (fun _ => rfl) (written trivial)

end Pairing.Sound

/-- The evaluator that is stopped at assignments that close a chain keeps to the law. -/
theorem Pairing.carries_guarded (K : grounded.Pairing) (hguards : K.Guards)
    (henters : K.Enters) (n : Nat) :
    K.Carries (evaluatorWith K.left n)
      (evaluatorGuarded (MonadExcept.throw (Failure.cancelled K.stopped)) n) := by
  induction n with
  | zero => exact ⟨fun _ _ => .throw rfl, fun _ _ => .throw rfl, fun _ _ => .throw rfl⟩
  | succ n ih =>
    refine ⟨fun {inLoop e scope names s} he hready => .diverted_left trivial ?_,
      fun {inLoop st scope names s} hst hready => .diverted_left trivial ?_,
      fun hf hargs => .diverted_left ⟨hf, hargs⟩ (.call trivial ih hf hargs)⟩
    · have byRule (h : (Task.expr e scope).assigns s ≠ true) :
          K.Sound (grounded.effect inLoop) s ((evaluatorWith K.left n).stepWith K.left (.expr e scope))
            ((evaluatorGuarded _ n).stepWith K.right (.expr e scope)) grounded.Good :=
        .stepExpr ih (.instantiate trivial ih) he hready h
      cases e with
      | assign span op target value =>
        exact .located _ (.assignWith (fun h hv => .writeUnlessClosing hguards h hv) ih he hready)
      | _ => exact byRule Bool.false_ne_true
    · have hstep := Sound.stepStmt ih hst hready Bool.false_ne_true fun _ => henters
      rwa [K.stepWith_right] at hstep

variable {s t : State} {vs : List Value} {r : Request} {host : Host}

theorem grounded_new : Store.Grounded { scopes := #[{}] } := by
  have hread : ∀ c, Store.read { scopes := #[{}] } c = .nil := fun c =>
    Store.read_of_size_le (Nat.zero_le c)
  refine ⟨fun {id name b} hb => ?_, fun {c d} hd => ?_, fun v => ?_⟩
  · have hid : id < 1 := Store.lt_of_find? hb
    obtain rfl := Nat.lt_one_iff.1 hid
    cases hb
  · rw [hread] at hd
    cases hd
  · cases hv : v.referent? with
    | none => exact ⟨[], .done hv⟩
    | some c =>
      refine ⟨[c], .step hv (.done ?_)⟩
      rw [hread]
      rfl

theorem reached_grounded (h : Reached closesNoChain s vs) :
    grounded.Inv s.store ∧ ∀ v ∈ vs, grounded.Good s.store v := by
  let K := grounded.stopping Task.assigns id
  have hrun := K.carries_guarded id (fun _ _ _ _ => trivial) Store.depthLimit
  refine reached_of grounded_new (fun {r host s} hcloses hv hs => ?_) h
  have houtcome := (K.requestBy hrun (universal_grounded.fits hv) hs trivial).1 host trivial
  rwa [hcloses] at houtcome

theorem passed_grounded (h : Reached closesNoChain s vs) (hr : r.values ⊆ vs)
    (hcloses : closesNoChain r host s) (ht : r.Passes host s t) : grounded.Inv t.store := by
  obtain ⟨hs, hvs⟩ := reached_grounded h
  obtain ⟨task, hno⟩ := ht
  obtain ⟨instead, hne⟩ := Classical.not_forall.1 hno
  obtain ⟨stopped, hstopped⟩ := exists_words (r.eval host s)
  let left : Variant := { diverts := task.at t, instead }
  have hdiverts : ∀ {task'} {s : State}, grounded.Inv s.store → grounded.GoodTask s.store task' →
      left.diverts task' s = true → grounded.Inv t.store := by
    intro task' s hs _ hdivert
    obtain ⟨-, rfl⟩ := Task.eq_of_at hdivert
    exact hs
  let K := grounded.departing Task.assigns id left stopped (fun _ => grounded.Inv t.store)
    (fun _ h => h) hdiverts (fun _ _ _ => rfl) fun _ => rfl
  have hsound := K.requestBy (K.carries_guarded id (fun _ _ _ _ => trivial) Store.depthLimit)
    (universal_grounded.fits fun v hv => hvs v (hr hv))
  exact (departs id (fun _ h => h) hdiverts (fun _ _ _ => rfl) (fun _ => rfl) hsound hs (hcloses _)
    hstopped trivial).resolve_left hne

end Law

theorem Eval.retype_of_plain {scope : ScopeId} {old : Value} (h : ∀ u t, old ≠ .typed u t) (v : Value) :
    retype scope old v = pure v.plain := by
  cases old with
  | typed u t => exact absurd rfl (h u t)
  | _ => rfl

/-- What an assignment does to a variable whose cell has no annotation. -/
theorem Eval.assignName_of_target {s : State} {scope : ScopeId} {name : Text} {c : CellId}
    (hname : name ≠ discard) (hc : s.store.target? scope name = some c)
    (hplain : ∀ u t, s.store.read c ≠ .typed u t) (v : Value) (host : Host) :
    assignName scope name v host s = .ok () { s with store := s.store.write c v.plain } := by
  obtain ⟨owner, b, hres, hb, htarget⟩ := Store.target?_eq_some hc
  have hbound : (!s.store.has scope name || s.store.isConstant scope name) = false := by
    rw [Store.has_eq, Store.isConstant_of_resolve hres, hres, hb]
    rfl
  have hlook : lookup scope name host s = .ok (s.store.read b.cell) s := by
    show (named (s.store.lookup scope name) : Eval Value) host s = _
    rw [Store.lookup_of_resolve hname hres]
    rfl
  show (if (!s.store.has scope name || s.store.isConstant scope name) = true then _ else _ :
    Eval Unit) host s = _
  rw [if_neg (Bool.eq_false_iff.1 hbound), bind_apply, hlook]
  dsimp only
  rcases htarget with ⟨id, hread⟩ | ⟨hno, rfl⟩
  · -- the content refers to the cell that is written to
    rw [hread]
    show (retype scope (s.store.read c) v >>= fun w => update fun st => st.write c w) host s = _
    rw [retype_of_plain hplain]
    rfl
  · have hown (old : Value) (hold : ∀ u t, old ≠ .typed u t) :
        (retype scope old v >>= fun w => naming (Naming.assign scope name w)) host s =
          .ok () { s with store := s.store.write b.cell v.plain } := by
      have hassign : s.store.assign scope name v.plain = .ok (s.store.write b.cell v.plain) := by
        simp [Store.assign, hname, hres, hb]
      rw [retype_of_plain hold]
      show naming (Naming.assign scope name v.plain) host s = _
      rw [assign_eq]
      unfold tryScope
      dsimp only
      rw [hassign]
    cases hread : s.store.read b.cell with
    | reference id cell =>
      cases cell with
      | none => exact hown _ (hread ▸ hplain)
      | some d => exact absurd hread (hno id d)
    | _ => exact hown _ (hread ▸ hplain)

/-- After an assignment that closes a chain the cell that was written to does not unwrap. -/
theorem Eval.assignName_of_closes {s : State} {scope : ScopeId} {name : Text} {v : Value} {c : CellId}
    (hname : name ≠ discard) (hc : s.store.target? scope name = some c)
    (hlt : c < s.store.cells.size) (hcloses : s.store.closes scope name v = true) (host : Host) :
    ∃ t, assignName scope name v host s = .ok () t ∧ ¬ t.store.Unwraps (t.store.read c) := by
  obtain ⟨hleads, hplain⟩ : s.store.leadsTo v c = true ∧ ∀ u t, s.store.read c ≠ .typed u t := by
    unfold Store.closes at hcloses
    rw [hc] at hcloses
    dsimp only at hcloses
    split at hcloses
    · cases hcloses
    · next hno => exact ⟨hcloses, hno⟩
  refine ⟨_, assignName_of_target hname hc hplain v host, ?_⟩
  rw [Store.read_write hlt, if_pos rfl]
  exact Store.not_unwraps_write ((Store.leadsTo_plain v).trans hleads) hlt

/-- Values unwrap. When no assignment closes a chain of references, every value has one behind it that is
neither a reference nor typed: in a state that is reached and in every state that is passed after it. An
assignment that closes a chain leaves a cell behind that does not unwrap. -/
theorem values_unwrap {s : State} {vs : List Value} :
    (Reached closesNoChain s vs → (∀ v, s.store.Unwraps v) ∧
      ∀ {r host t}, r.values ⊆ vs → closesNoChain r host s → Request.Passes r host s t →
        ∀ v, t.store.Unwraps v) ∧
    ∀ {scope : ScopeId} {name : Text} {v : Value} {c : CellId}, name ≠ discard →
      s.store.target? scope name = some c → c < s.store.cells.size →
      s.store.closes scope name v = true → ∀ host, ∃ t,
        assignName scope name v host s = .ok () t ∧ ¬ t.store.Unwraps (t.store.read c) := by
  refine ⟨fun h => ⟨fun v => ?_, fun hr hcloses ht v => ?_⟩, fun hname hc hlt hcloses host =>
    assignName_of_closes hname hc hlt hcloses host⟩
  · exact Store.unwraps_iff.2 ((Law.reached_grounded h).1.keeps.chains v)
  · exact Store.unwraps_iff.2 ((Law.passed_grounded h hr hcloses ht).keeps.chains v)

/-- A program that writes to a variable through a reference. -/
def writtenThrough : Block :=
  ⟨{}, [.declare {} "x" false none (some (.string {} "a")),
    .declare {} "r" false none (some (.call {} (.ident {} "ref") [.ident {} "x"])),
    .expr {} (.assign {} .set (.ident {} "r") (.string {} "b"))]⟩

/-- What a write to a variable through a reference leaves unwraps. -/
theorem writtenThrough_unwraps :
    ∃ t, (Request.run writtenThrough).eval {} (Interpreter.new {} {} [] 0).state = .ok (.text "b") t ∧
      closesNoChain (.run writtenThrough) {} (Interpreter.new {} {} [] 0).state ∧
      ∀ v, t.store.Unwraps v := by
  have hrun : (Request.run writtenThrough).eval {} (Interpreter.new {} {} [] 0).state = .ok (.text "b")
      { store :=
          { cells := #[.text "b", .reference 0 (some 0)]
            scopes := #[{ values := [("r", 1), ("x", 0)] }]
            fresh := 1 } } := rfl
  have hcloses : closesNoChain (.run writtenThrough) {} (Interpreter.new {} {} [] 0).state := by
    intro otherwise
    rw [hrun]
    cbv
  exact ⟨_, hrun, hcloses, (values_unwrap.1 (.gives (.run writtenThrough) {} (.new {} {} [] 0)
    (List.nil_subset _) hcloses hrun)).1⟩

/-- A program that assigns a reference to the variable that it refers to. -/
def selfReference : Block :=
  ⟨{}, [.declare {} "x" false none none,
    .declare {} "r" false none (some (.call {} (.ident {} "ref") [.ident {} "x"])),
    .expr {} (.assign {} .set (.ident {} "x") (.ident {} "r"))]⟩

/-- Not every value that can be reached unwraps: a variable may refer to itself, and a condition on it
does not end. -/
theorem self_reference_closes :
    (¬∀ {s : State} {vs : List Value}, Reached anyUse s vs → ∀ v, s.store.Unwraps v) ∧
    (match (Settings.run {} {} "let x = 1; let r = ref(x); x = r; if x { }" []).1 with
      | .error (.failed .stuck) => true
      | _ => false) = true := by
  refine ⟨fun h => ?_, by decide +kernel⟩
  obtain ⟨_, hreached⟩ : ∃ vs, Reached anyUse ((Request.run selfReference).eval.after {}
      (Interpreter.new {} {} [] 0).state) vs := (Reached.new {} {} [] 0).after (List.nil_subset _) trivial
  obtain ⟨w, hw, -⟩ := h hreached (.reference 0 (some 0))
  have hnone : (((Request.run selfReference).eval.after {}
      (Interpreter.new {} {} [] 0).state).store.raw? (.reference 0 (some 0))).isNone = true := by
    decide +kernel
  rw [hw] at hnone
  cases hnone

end ScriptLang
