import ScriptLang.Proofs.Eval.Tidy
import ScriptLang.Proofs.Eval.Values

/-!
# Assignments in accordance with a law

An assignment to a variable writes to the cell of a binding that is not a constant, or to the cell
that the variable refers to. In both cases the new content has the annotation that the old one had, if
it had any.
-/

namespace ScriptLang

open Eval

/-- The cell that an assignment to a variable writes to: its own, or the one that its content refers
to. -/
def Store.target? (s : Store) (scope : ScopeId) (name : Text) : Option CellId :=
  match s.resolve scope name with
  | some (_, b) =>
    if b.constant then none
    else match s.read b.cell with
      | .reference _ (some c) => some c
      | _ => some b.cell
  | none => none

namespace Store

variable {s : Store} {scope owner : ScopeId} {name : Text} {b : Binding} {c : CellId}

theorem target?_of_resolve (hr : s.resolve scope name = some (owner, b)) (hb : b.constant = false) :
    s.target? scope name = match s.read b.cell with
      | .reference _ (some c) => some c
      | _ => some b.cell := by
  unfold target?
  rw [hr]
  exact if_neg (Bool.eq_false_iff.1 hb)

theorem target?_eq_some (h : s.target? scope name = some c) :
    ∃ owner b, s.resolve scope name = some (owner, b) ∧ b.constant = false ∧
      ((∃ id, s.read b.cell = .reference id (some c)) ∨
        ((∀ id d, s.read b.cell ≠ .reference id (some d)) ∧ c = b.cell)) := by
  cases hr : s.resolve scope name with
  | none =>
    unfold target? at h
    rw [hr] at h
    cases h
  | some found =>
    obtain ⟨owner, b⟩ := found
    cases hb : b.constant with
    | true =>
      unfold target? at h
      rw [hr] at h
      cases (if_pos hb).symm.trans h
    | false =>
      refine ⟨owner, b, rfl, hb, ?_⟩
      rw [target?_of_resolve hr hb] at h
      split at h
      · next id d hread => exact .inl ⟨id, Option.some.inj h ▸ hread⟩
      · next hno => exact .inr ⟨hno, (Option.some.inj h).symm⟩

end Store

/-- Whether a value becomes another one when it takes the place of an old one: what has an annotation
keeps it, and the value conforms to it. -/
def Store.Retypes (s : Store) (scope : ScopeId) (old v w : Value) : Prop :=
  match old with
  | .typed _ t => ∃ u, s.conforms? scope t v = some true ∧ s.raw? v = some u ∧ w = .typed u t
  | _ => w = v.plain

/-- Whether a task is an assignment. -/
def Task.assigns : Task → State → Bool
  | .expr (.assign ..) _, _ => true
  | _, _ => false

/-- An assignment in which values are written to places in another way. -/
def Runner.assignWith (write : Value → Place → Eval Unit) (run : Runner) (op : AssignOp)
    (target value : Expr) (scope : ScopeId) : Eval Value := do
  let place ← run.place target scope
  match op with
  | .set =>
    let v ← run.expr value scope
    write v place
    return v
  | .setIfNil =>
    let old ← place.read
    if ← isNil old then
      let v ← run.expr value scope
      write v place
      return v
    else return old
  | _ =>
    match op.operator? with
    | none =>
      fail .invalidAssignTarget ("unknown assignment operator '" ++ op.spelling ++ "'")
    | some operator =>
      let old ← place.read
      let operand ← run.expr value scope
      let v ← run.operate operator old operand
      write v place
      return v

theorem Runner.assignWith_usual (run : Runner) : run.assignWith (fun v p => p.write v) = run.assign :=
  rfl

/-- Whether a variable holds a value. -/
def Place.Holds (s : Store) (v : Value) : Place → Prop
  | .name n scope => s.lookup scope n = .ok v
  | _ => True

namespace Law

/-- A place whose parts are good. -/
def GoodPlace (L : Law) (s : Store) : Place → Prop
  | .name .. => True
  | .member o _ => L.Good s o
  | .element o i => L.Good s o ∧ L.Good s i

theorem lasting_goodPlace {L : Law} : L.Lasting L.GoodPlace := by
  intro B s t place hle h
  cases place with
  | name => trivial
  | member => exact h.mono hle
  | element => exact ⟨h.1.mono hle, h.2.mono hle⟩

/-- Whether a value may be written to a place: what becomes of it may be written to the cell of a
variable. -/
def AllowsPlace (L : Law) (s : Store) (v : Value) : Place → Prop
  | .name n scope => ∀ c w, s.target? scope n = some c → s.Retypes scope (s.read c) v w →
      L.allows s c w
  | _ => True

theorem allowsPlace_of_all {L : Law} {s : Store} {v : Value} (h : ∀ st c w, L.allows st c w)
    (place : Place) : L.AllowsPlace s v place := by
  cases place with
  | name => exact fun c w _ _ => h s c w
  | _ => trivial

/-- A number may be written to the place that a number was read from. -/
theorem allowsPlace_of_number {L : Law} {s : Store} {place : Place} {old : Value} {n m : Float}
    (hs : L.keeps s) (hold : place.Holds s old) (hraw : s.raw? old = some (.number n)) :
    L.AllowsPlace s (.number m) place := by
  cases place with
  | name name scope =>
    intro c w hc hbecomes
    refine L.allows_stepped (n := n) hs ?_ ?_
    · have hd : name ≠ discard := by
        rintro rfl
        cases hold
        cases hraw
      obtain ⟨owner, b, hres, -, htarget⟩ := Store.target?_eq_some hc
      obtain rfl := Except.ok.inj ((Store.lookup_of_resolve hd hres).symm.trans hold)
      rcases htarget with ⟨id, hread⟩ | ⟨-, rfl⟩
      · rw [hread] at hraw
        exact Store.raw?_read hraw
      · exact hraw
    · unfold Store.Retypes at hbecomes
      split at hbecomes
      · obtain ⟨u, -, hu, rfl⟩ := hbecomes
        cases hu
        exact trivial
      · cases hbecomes
        exact trivial
  | _ => trivial

namespace Pairing.Sound

variable {L : Law} {K : L.Pairing} {ε : Effect} {s : State} {v w : Value} {run run' : Runner}
variable {inLoop : Bool} {scope : ScopeId} {names : List Text} {span : Span}

/-! ### Variables -/

theorem retype (old : Value) (hv : L.Good s.store v) :
    K.Sound ε s (Eval.retype scope old v) (Eval.retype scope old v) fun t w =>
      L.Good t w ∧ t = s.store ∧ w.Replaces L.stored old ∧ s.store.Retypes scope old v w := by
  have plain : K.Sound ε s (Eval.annotated scope none v) (Eval.annotated scope none v) fun t w =>
      L.Good t w ∧ t = s.store ∧ L.stored w ∧ w = v.plain := by
    refine still (still_annotated scope none v) fun w _ h => ?_
    obtain rfl : w = v.plain := h
    exact ⟨hv.plain.1, rfl, hv.plain.2, rfl⟩
  cases old with
  | typed _ type =>
    refine still (still_annotated scope (some type) v) fun w hs h => ?_
    obtain ⟨u, hc, hu, rfl⟩ := h
    exact ⟨⟨L.annotate hs.keeps hc hu, (hs.raw hv hu).1⟩, rfl, ⟨u, rfl⟩, u, hc, hu, rfl⟩
  | _ => exact plain

theorem lookup (scope : ScopeId) (name : Text) :
    K.Sound ε s (Eval.lookup scope name) (Eval.lookup scope name) fun t w =>
      L.Good t w ∧ t = s.store ∧ s.store.lookup scope name = .ok w :=
  still (still_lookup scope name) fun _ hs h => ⟨hs.lookup h, rfl, h⟩

/-- A write to the innermost binding of a name, if it is not a constant. -/
theorem assignTo {name : Text} (hw : L.Good s.store w)
    (h : ∀ owner b, s.store.resolve scope name = some (owner, b) → name ≠ discard →
      b.constant = false → w.Replaces L.stored (s.store.read b.cell) ∧
        L.allows s.store b.cell w) :
    K.Sound ε s (naming (Naming.assign scope name w)) (naming (Naming.assign scope name w))
      fun _ _ => True := by
  rw [Eval.assign_eq]
  refine tryScope (fun t hs ht => ?_) fun e _ he => L.fails_plain ?_
  · rcases Store.assign_eq_ok ht with ⟨-, rfl⟩ | ⟨owner, b, hr, hd, hb, rfl⟩
    · exact ⟨L.le_refl, hs, trivial⟩
    · obtain ⟨hreplaces, hallows⟩ := h owner b hr hd hb
      obtain ⟨hle, ht⟩ := written hs hw
        (.inr ⟨owner, name, b, Store.find?_of_resolve hr, hb, rfl⟩) hreplaces hallows
      exact ⟨le_quiet hle, ht, trivial⟩
  · simpa [Failure.isPlain] using Store.assign_eq_error he

theorem assignName (name : Text) (hv : L.Good s.store v)
    (hallows : L.AllowsPlace s.store v (.name name scope)) :
    K.Sound ε s (Eval.assignName scope name v) (Eval.assignName scope name v) fun _ _ => True := by
  unfold Eval.assignName
  refine store fun _ => store fun _ => ?_
  split
  · next hc =>
    -- the name is not bound or a constant, so nothing is written
    refine assignTo hv fun owner b hr _ hb => ?_
    simp [Store.has_eq, Store.isConstant_of_resolve hr, hr, hb] at hc
  · next hc =>
    refine bind (lookup scope name) fun old t _ _ hfound => ?_
    obtain ⟨hold, ht, hlook⟩ := hfound
    have hv : L.Good t.store v := ht ▸ hv
    have hvariable {owner : ScopeId} {b : Binding}
        (hr : s.store.resolve scope name = some (owner, b)) : b.constant = false := by
      simpa [Store.has_eq, Store.isConstant_of_resolve hr, hr] using hc
    split
    · next cell =>
      refine store fun _ => bind (retype _ hv) fun w u _ _ hwritten => ?_
      obtain ⟨hw, hu, hr, hbecomes⟩ := hwritten
      have hcell : L.cell u.store cell := hu ▸ hold
      refine writeCell hw hcell (hu ▸ hr) ?_
      rw [ht] at hbecomes
      rw [hu, ht]
      cases hres : s.store.resolve scope name with
      | none => simp [Store.has_eq, hres] at hc
      | some found =>
        have hd : name ≠ discard := by
          rintro rfl
          cases hlook
        have hread := (Store.lookup_of_resolve hd hres).symm.trans hlook
        refine hallows cell w ?_ hbecomes
        rw [Store.target?_of_resolve hres (hvariable hres), Except.ok.inj hread]
    · next old hno =>
      refine bind (retype _ hv) fun w u _ _ hwritten => ?_
      obtain ⟨hw, hu, hr, hbecomes⟩ := hwritten
      refine assignTo hw fun owner b hres hd _ => ?_
      have hb := Store.lookup_of_resolve hd hres
      rw [hu, ht, hlook] at hb
      rw [ht] at hbecomes
      rw [hu, ht] at hres ⊢
      cases hb
      refine ⟨hr, hallows b.cell w ?_ hbecomes⟩
      rw [Store.target?_of_resolve hres (hvariable hres)]
      split
      · next id c h => exact absurd h (hno id c)
      · rfl

/-! ### Places -/

theorem readPlace {place : Place} (h : L.GoodPlace s.store place) :
    K.Sound ε s place.read place.read fun t v => L.Good t v ∧ place.Holds t v := by
  cases place with
  | name name scope =>
    refine (lookup scope name).mono (Effect.le_refl ε) fun t _ _ _ h => ?_
    obtain ⟨hv, rfl, hlook⟩ := h
    exact ⟨hv, hlook⟩
  | member o p => exact (getMember h p).mono (Effect.le_refl ε) fun _ _ _ _ h => ⟨h, trivial⟩
  | element o i => exact (getIndex h.1 h.2).mono (Effect.le_refl ε) fun _ _ _ _ h => ⟨h, trivial⟩

theorem writePlace {place : Place} (h : L.GoodPlace s.store place) (hv : L.Good s.store v)
    (hallows : L.AllowsPlace s.store v place) :
    K.Sound ε s (place.write v) (place.write v) fun _ _ => True := by
  cases place with
  | name name scope => exact assignName name hv hallows
  | member o p => exact setMember h p hv
  | element o i => exact setIndex h.1 h.2 hv

theorem place (hrun : K.Carries run run') {e : Expr} (he : L.TidyExpr inLoop e)
    (hready : L.ready s.store scope names) :
    K.Sound (L.effect inLoop) s (run.place e scope) (run'.place e scope) L.GoodPlace := by
  unfold Runner.place
  split
  · exact pure trivial
  · exact map (hrun.expr he.member hready) fun _ _ _ h => h
  · refine bind (hrun.expr he.index.1 hready) fun o t hst _ ho => ?_
    refine bind (hrun.expr he.index.2 (L.ready_mono hst hready)) fun i u htu _ hi => ?_
    exact pure ⟨ho.mono htu, hi⟩
  · exact fail nofun

/-! ### Operators that assign -/

/-- An assignment, in whatever way values are written to places. -/
theorem assignWith {write write' : Value → Place → Eval Unit}
    (hwrite : ∀ {t : State} {v : Value} {place : Place}, L.GoodPlace t.store place →
      L.Good t.store v → K.Sound (L.effect inLoop) t (write v place) (write' v place) fun _ _ => True)
    (hrun : K.Carries run run') {op : AssignOp} {target value : Expr}
    (he : L.TidyExpr inLoop (.assign span op target value)) (hready : L.ready s.store scope names) :
    K.Sound (L.effect inLoop) s (run.assignWith write op target value scope)
      (run'.assignWith write' op target value scope) L.Good := by
  unfold Runner.assignWith
  refine bind (place hrun he.assign.1 hready) fun place t hst _ hplace => ?_
  have hready : L.ready t.store scope names := L.ready_mono hst hready
  have set : ∀ u : State, L.le noNames t.store u.store → K.Sound (L.effect inLoop) u
      (do
        let v ← run.expr value scope
        write v place
        return v)
      (do
        let v ← run'.expr value scope
        write' v place
        return v) L.Good := by
    intro u htu
    refine bind (hrun.expr he.assign.2 (L.ready_mono htu hready)) fun v u' huu' _ hv => ?_
    exact bind (hwrite (lasting_goodPlace (L.le_trans htu huu') hplace) hv)
      fun _ _ hle _ _ => pure (hv.mono hle)
  split
  · exact set t L.le_refl
  · refine bind (readPlace hplace) fun old u htu _ hold => ?_
    obtain ⟨hold, -⟩ := hold
    refine bind (look (still_isNil old)) fun b u' huu' _ _ => ?_
    split
    · exact set u' (L.le_trans htu huu')
    · exact pure (hold.mono huu')
  · split
    · exact fail nofun
    · next operator _ =>
      refine bind (readPlace hplace) fun old u htu _ hold => ?_
      obtain ⟨hold, -⟩ := hold
      refine bind (hrun.expr he.assign.2 (L.ready_mono htu hready)) fun operand u' huu' _ hop => ?_
      refine bind (operate hrun operator (hold.mono huu') hop).quiet fun v u'' hle _ hv => ?_
      have hplace := lasting_goodPlace (L.le_trans (L.le_trans htu huu') hle) hplace
      exact bind (hwrite hplace hv) fun _ _ hle _ _ => pure (hv.mono hle)

theorem assign (hrun : K.Carries run run') {op : AssignOp} {target value : Expr}
    (he : L.TidyExpr inLoop (.assign span op target value)) (hready : L.ready s.store scope names)
    (hallowed : ¬ L.forbids (.expr (.assign span op target value) scope) s) :
    K.Sound (L.effect inLoop) s (run.assign op target value scope)
      (run'.assign op target value scope) L.Good := by
  rw [← Runner.assignWith_usual, ← Runner.assignWith_usual]
  exact assignWith (fun hplace hv => writePlace hplace hv
    (allowsPlace_of_all (L.allows_assigned hallowed) _)) hrun he hready

theorem stepPlace (hrun : K.Carries run run') {op : StepOp} {target : Expr}
    (he : L.TidyExpr inLoop (.step span op target)) (hready : L.ready s.store scope names) :
    K.Sound (L.effect inLoop) s (run.stepPlace op target scope) (run'.stepPlace op target scope)
      L.Good := by
  unfold Runner.stepPlace
  refine bind (place hrun he.step hready) fun place t hst _ hplace => ?_
  refine bind (readPlace hplace) fun old u htu _ hold => ?_
  obtain ⟨hold, hin⟩ := hold
  have unwrapped : K.Sound (L.effect inLoop) u (Eval.raw old) (Eval.raw old) fun u' w =>
      u' = u.store ∧ u.store.raw? old = some w := still (still_raw old) fun _ _ h => ⟨rfl, h⟩
  refine bind unwrapped fun v u' _ hu' hv => ?_
  obtain ⟨hsame, hraw⟩ := hv
  have hplace : L.GoodPlace u'.store place := hsame ▸ lasting_goodPlace htu hplace
  split
  · next n =>
    have hallows (m : Float) : L.AllowsPlace u'.store (.number m) place :=
      hsame ▸ allowsPlace_of_number (hsame ▸ hu'.keeps) hin hraw
    exact bind (writePlace hplace trivial (hallows _)) fun _ _ _ _ _ => pure trivial
  · exact fail nofun

/-- The removal of a variable. -/
theorem removeName {name : Text} {nameSpan : Span}
    (hallowed : ¬ L.forbids (.expr (.unary span .delete (.ident nameSpan name)) scope) s)
    (hvariable : s.store.isConstant scope name = false) :
    K.Sound ε s (naming (Naming.remove scope name)) (naming (Naming.remove scope name)) L.Good := by
  refine of_inv fun hs => ?_
  cases hr : s.store.remove scope name with
  | error e =>
    have hfails : K.Sound ε s (Eval.fail e.code e.message : Eval Value) (Eval.fail e.code e.message)
        L.Good := fail (Store.remove_eq_error hr)
    refine congr (fun h => ?_) (fun h => ?_) hfails <;>
    · rw [Eval.remove_eq, hr]
      rfl
  | ok r =>
    obtain ⟨v, t⟩ := r
    have hremoved : L.le noNames s.store t ∧ L.Inv t ∧ L.Good t v := by
      rcases Store.remove_eq_ok hr with ⟨rfl, rfl⟩ | ⟨owner, b, hres, rfl, rfl⟩
      · exact ⟨L.le_refl, hs, trivial⟩
      · have hb := Store.constant_eq_false hvariable hres
        obtain ⟨hle, hkeeps⟩ := L.remove hs.keeps hres hb hallowed
        refine ⟨hle, ⟨hkeeps, fun w hw => (hs.cells w hw).mono hle, fun w hw => ?_⟩,
          (hs.read b.cell).mono hle⟩
        exact (hs.heap w (Store.heap_congr hw rfl rfl rfl)).mono hle
    refine congr (fun h => ?_) (fun h => ?_) (change (f := fun _ => (v, t))
      (Q := fun t w => L.Good t w) hremoved.1 (fun _ => hremoved.2.1) fun _ => hremoved.2.2) <;>
    · rw [Eval.remove_eq, hr]
      rfl

theorem delete (hrun : K.Carries run run') {e : Expr} (he : L.TidyExpr inLoop e)
    (hready : L.ready s.store scope names)
    (hallowed : ¬ L.forbids (.expr (.unary span .delete e) scope) s) :
    K.Sound (L.effect inLoop) s (run.delete e scope) (run'.delete e scope) L.Good := by
  unfold Runner.delete
  split
  · refine store fun _ => ?_
    split
    · exact fail nofun
    · next hc => exact removeName hallowed (by simpa using hc)
  · exact bind (hrun.expr he.member hready) fun _ _ _ _ ho => deleteField ho _
  · refine bind (hrun.expr he.index.1 hready) fun o t hst _ ho => ?_
    refine bind (hrun.expr he.index.2 (L.ready_mono hst hready)) fun i u htu _ hi => ?_
    exact deleteIndex (ho.mono htu) hi
  · exact fail nofun

end Pairing.Sound

end Law

end ScriptLang
