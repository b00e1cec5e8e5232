import Mathlib
import ScriptLang.Proofs.Eval.Unwrapping
import ScriptLang.Proofs.Eval.Work

/-!
# The receiver of a call

In a method and in a constructor the name `this` is a constant: a reference to a cell that was made
for the call and that holds the instance. The name cannot be assigned to, but its value is one like
any other. A variable that it is stored in holds a reference as well, an assignment to that variable
goes to the cell of the instance, and from then on `this` means what was assigned
(`receiver_replaced`).

So `this` denotes the instance in all states of a call in which no assignment goes to that cell. It
takes that everything refers to cells that are there already when the call begins: stores of this
kind are *anchored*, and all stores that programs can lead to are.
-/

namespace ScriptLang

open Eval

/-- A receiver of a call that is under way. -/
structure Receiver where
  /-- The scope that binds `this`; the scope of the body is the next one. -/
  scope : ScopeId
  /-- The cell that holds the instance; the cell of `this` is the next one. -/
  cell : CellId
  /-- The number of the reference that `this` is. -/
  id : Nat
  /-- The instance. -/
  object : ObjectId
  /-- Its struct. -/
  type : StructType

/-- The instance as a value. -/
def Receiver.value (r : Receiver) : Value := .object r.object (some r.type)

namespace Store

variable {s t : Store} {scope : ScopeId} {name : Text} {v w : Value} {c : CellId} {o : ObjectId}
variable {type : StructType} {r : Receiver}

/-- Whether a value refers to none but cells that are there. -/
def Knows (s : Store) (v : Value) : Prop := v.RefersOnlyTo (· < s.cells.size)

/-- Stores in which everything refers to cells that are there. -/
structure Anchored (s : Store) : Prop where
  /-- Names are bound to cells that are there. -/
  bindings : ∀ {id name b}, (s.scope id).find? name = some b → b.cell < s.cells.size
  /-- The contents of cells refer to such cells. -/
  cells : ∀ v ∈ s.cells, s.Knows v
  /-- So does everything on the heap. -/
  heap : ∀ v, s.Heap v → s.Knows v

/-- Whether a receiver is the one that `this` denotes. -/
structure Receives (s : Store) (r : Receiver) : Prop where
  /-- The scope of the body is inside of the one that binds `this`. -/
  inside : (s.scope (r.scope + 1)).parent = some r.scope
  /-- Both scopes are there. -/
  scopes : r.scope + 1 < s.scopes.size
  /-- The name is bound to the cell next to that of the instance. -/
  bound : (s.scope r.scope).find? "this" = some ⟨"this", r.cell + 1, true⟩
  /-- Both cells are there. -/
  cells : r.cell + 1 < s.cells.size
  /-- One of them holds a reference to the other one. -/
  reference : s.read (r.cell + 1) = .reference r.id (some r.cell)
  /-- The other one holds the instance. -/
  value : s.read r.cell = r.value
  /-- The reference belongs to no variable. -/
  constant : ∀ {id name b}, (s.scope id).find? name = some b → b.cell = r.cell + 1 → b.constant = true

/-- Whether `this` denotes an instance in a scope, unless the scope itself binds the name. -/
def Denotes (s : Store) (scope : ScopeId) (o : ObjectId) (type : StructType) : Prop :=
  (s.scope scope).binds "this" = false →
    ∃ v, s.lookup scope "this" = .ok v ∧ s.raw? v = some (.object o (some type))

/-- Whether a write goes to a cell. -/
def targets (c : CellId) (s : Store) (_ : Value) : Place → Bool
  | .name n scope => s.target? scope n == some c
  | _ => false

/-- The scope of the body of a method that is called: the second one of those that are made for
it. -/
def bodyScope (s : Store) : ScopeId := s.scopes.size + 1

/-- The store in which the body of a method of an instance starts. -/
def withReceiver (s : Store) (o : ObjectId) (type : StructType) : Store :=
  { s with
    cells := (s.cells.push (.object o (some type))).push (.reference s.fresh (some s.cells.size))
    scopes :=
      (s.scopes.push
        { values := [("this", s.cells.size + 1)], constants := ["this"], parent := some type.scope }).push
        { parent := some s.scopes.size }
    fresh := s.fresh + 1 }

/-- The receiver of a call that begins. -/
def receiver (s : Store) (o : ObjectId) (type : StructType) : Receiver :=
  ⟨s.scopes.size, s.cells.size, s.fresh, o, type⟩

theorem Receives.denotes (h : s.Receives r) : s.Denotes (r.scope + 1) r.object r.type := by
  intro hfree
  have hnone : (s.scope (r.scope + 1)).cell? "this" = none :=
    Option.isNone_iff_eq_none.1 (Option.isSome_eq_false_iff.1 hfree)
  obtain ⟨hcell, -, hmark⟩ := Scope.find?_eq_some.1 h.bound
  obtain ⟨n, hn⟩ := Nat.exists_eq_add_of_lt h.scopes
  have hlocate : s.locate (r.scope + 1) "this" = some (r.scope, r.cell + 1) := by
    unfold locate
    rw [show s.scopes.size = (r.scope + n + 1) + 1 by omega]
    unfold locateWithin
    simp only [hnone, h.inside]
    unfold locateWithin
    simp only [hcell]
  have hresolve : s.resolve (r.scope + 1) "this" = some (r.scope, ⟨"this", r.cell + 1, true⟩) :=
    resolve_eq_some.2 ⟨hlocate, rfl, hmark⟩
  refine ⟨_, lookup_of_resolve (by decide) hresolve, ?_⟩
  obtain ⟨n, hn⟩ := Nat.exists_eq_add_of_lt h.cells
  rw [h.reference]
  unfold raw?
  rw [hn]
  show s.rawWithin _ (s.read r.cell) = _
  rw [h.value]
  rfl

/-! ### What leaves the receiver as it is -/

namespace Receives

theorem of_cells (h : s.Receives r) (hc : t.cells = s.cells) (hs : t.scopes = s.scopes) :
    t.Receives r where
  inside := (congrArg Scope.parent (scope_of_scopes hs)).trans h.inside
  scopes := hs ▸ h.scopes
  bound := (congrArg (Scope.find? · _) (scope_of_scopes hs)).trans h.bound
  cells := hc ▸ h.cells
  reference := (read_of_cells hc).trans h.reference
  value := (read_of_cells hc).trans h.value
  constant := fun hb => h.constant (by rwa [scope_of_scopes hs] at hb)

theorem newCell (h : s.Receives r) (v : Value) : (s.newCell v).2.Receives r where
  inside := h.inside
  scopes := h.scopes
  bound := h.bound
  cells := Nat.lt_of_lt_of_eq (Nat.lt_succ_of_lt h.cells) (Array.size_push v).symm
  reference := (read_newCell h.cells).trans h.reference
  value := (read_newCell (Nat.lt_of_succ_lt h.cells)).trans h.value
  constant := h.constant

theorem write (h : s.Receives r) (hvalue : c ≠ r.cell) (hreference : c ≠ r.cell + 1) :
    (s.write c v).Receives r where
  inside := h.inside
  scopes := h.scopes
  bound := h.bound
  cells := size_write.symm ▸ h.cells
  reference := (read_write_of_ne hreference).trans h.reference
  value := (read_write_of_ne hvalue).trans h.value
  constant := h.constant

theorem newScope (h : s.Receives r) (parent : Option ScopeId) :
    (s.newScope parent).2.Receives r where
  inside := by
    rw [scope_newScope, if_neg (Nat.ne_of_lt h.scopes)]
    exact h.inside
  scopes := Nat.lt_of_lt_of_eq (Nat.lt_succ_of_lt h.scopes) (Array.size_push _).symm
  bound := find?_newScope_of parent h.bound
  cells := h.cells
  reference := h.reference
  value := h.value
  constant := fun hb => h.constant (find?_newScope hb)

theorem updateScope (h : s.Receives r) {owner : ScopeId} {f : Scope → Scope}
    (hparent : (f (s.scope owner)).parent = (s.scope owner).parent)
    (hbound : ((s.updateScope owner f).scope r.scope).find? "this" = (s.scope r.scope).find? "this")
    (hconstant : ∀ {id name b}, ((s.updateScope owner f).scope id).find? name = some b →
      b.cell = r.cell + 1 → b.constant = true) :
    (s.updateScope owner f).Receives r where
  inside := by
    rw [scope_updateScope]
    split
    · next howner => rw [hparent, ← howner.1]; exact h.inside
    · exact h.inside
  scopes := Nat.lt_of_lt_of_eq h.scopes Array.size_modify.symm
  bound := hbound.trans h.bound
  cells := h.cells
  reference := h.reference
  value := h.value
  constant := hconstant

theorem binding (h : s.Receives r) {constant : Bool} (hnew : (s.scope scope).binds name = false) :
    (s.bound scope name v constant).Receives r := by
  refine (h.newCell v).updateScope Scope.parent_bindAs ?_ fun {id other b} hb hcell => ?_
  · exact ((find?_bound hnew).2 (.inr h.bound)).trans h.bound.symm
  · rcases (find?_bound hnew).1 hb with ⟨-, -, -, rfl⟩ | hb
    · exact absurd h.cells (by rw [← hcell]; exact Nat.lt_irrefl _)
    · exact h.constant hb hcell

theorem without (h : s.Receives r) {owner : ScopeId} {b : Binding}
    (hb : (s.scope owner).find? name = some b) (hvariable : b.constant = false) :
    (s.without owner name).Receives r := by
  refine h.updateScope rfl ?_ fun hb' hcell => h.constant (find?_without.1 hb').2 hcell
  rw [h.bound]
  refine find?_without.2 ⟨?_, h.bound⟩
  rintro ⟨rfl, rfl⟩
  cases h.bound.symm.trans hb
  cases hvariable

end Receives

/-! ### The start of a call -/

theorem Anchored.of_objects {fields : Fields} {type? : Option StructType} (h : s.Anchored)
    (hfields : ∀ name v, (name, v) ∈ fields → v = .nil) :
    (s.newObject fields type?).2.Anchored := by
  refine ⟨h.bindings, h.cells, fun v hv => ?_⟩
  rcases heap_newObject hv with hv | ⟨name, hv⟩
  · exact h.heap v hv
  · rw [hfields name v hv]
    trivial

theorem scope_withReceiver {id : ScopeId} : (s.withReceiver o type).scope id =
    if id = s.scopes.size + 1 then { parent := some s.scopes.size }
    else if id = s.scopes.size then
      { values := [("this", s.cells.size + 1)], constants := ["this"], parent := some type.scope }
    else s.scope id := by
  simp only [withReceiver, scope, Array.getD_eq_getD_getElem?, Array.getElem?_push, Array.size_push]
  split
  · rfl
  · split <;> rfl

theorem find?_withReceiver {id : ScopeId} {b : Binding}
    (h : ((s.withReceiver o type).scope id).find? name = some b) :
    b = ⟨"this", s.cells.size + 1, true⟩ ∨ (s.scope id).find? name = some b := by
  rw [scope_withReceiver] at h
  split at h
  · cases h
  · split at h
    · exact .inl (List.mem_singleton.1 (Scope.mem_of_find? h))
    · exact .inr h

/-- At the start of a call on an instance `this` denotes the instance. -/
theorem Anchored.receives (h : s.Anchored) (o : ObjectId) (type : StructType) :
    (s.withReceiver o type).Receives (s.receiver o type) where
  inside := by
    rw [scope_withReceiver, receiver, if_pos rfl]
  scopes := by simp [withReceiver, receiver]
  bound := by
    rw [scope_withReceiver, receiver, if_neg (Nat.ne_of_lt (Nat.lt_succ_self _)), if_pos rfl]
    rfl
  cells := by simp [withReceiver, receiver]
  reference := by
    simp [withReceiver, receiver, read, Array.getD_eq_getD_getElem?, Array.getElem_push]
  value := by
    simp only [withReceiver, receiver, read, Receiver.value, Array.getD_eq_getD_getElem?,
      Array.getElem?_push, Array.size_push, if_neg (Nat.ne_of_lt (Nat.lt_succ_self s.cells.size)),
      if_pos, Option.getD_some]
  constant := by
    intro id name b hb hcell
    rcases find?_withReceiver hb with rfl | hb
    · rfl
    · exact absurd (h.bindings hb) (by rw [hcell]; exact Nat.not_lt.2 (Nat.le_succ _))

end Store

/-- A change to the newest scope. -/
theorem Store.updateScope_last {s : Store} {scopes : Array Scope} {scope : Scope} (f : Scope → Scope)
    (h : s.scopes = scopes.push scope) :
    s.updateScope scopes.size f = { s with scopes := scopes.push (f scope) } := by
  unfold updateScope
  rw [h]
  congr 1
  refine Array.ext_getElem? fun i => ?_
  rw [Array.getElem?_modify, Array.getElem?_push, Array.getElem?_push]
  split
  · next hi => rw [if_pos hi.symm, if_pos hi.symm, Option.map_some]
  · next hi => rw [if_neg (Ne.symm hi), if_neg (Ne.symm hi)]

/-- The scope for the body of a method is made without fail. -/
theorem Runner.methodScope_eq (o : ObjectId) (type : StructType) (host : Host) (s : State) :
    methodScope o type host s =
      .ok s.store.bodyScope { s with store := s.store.withReceiver o type } := by
  let inner : Store :=
    (((s.store.newScope (some type.scope)).2.newCell (.object o (some type))).2.newNumber).2
  let this : Value := .reference s.store.fresh (some s.store.cells.size)
  let made : Scope :=
    { values := [("this", inner.cells.size)], constants := ["this"], parent := some type.scope }
  have hbind : inner.bind s.store.scopes.size "this" this true =
      .ok { (inner.newCell this).2 with scopes := s.store.scopes.push made } := by
    have hfree : (inner.scope s.store.scopes.size).binds "this" = false := by
      have hscope : inner.scope s.store.scopes.size = { parent := some type.scope } :=
        (Store.scope_newScope _).trans (if_pos rfl)
      rw [hscope]
      rfl
    unfold Store.bind
    rw [if_neg (by decide), if_neg (by rw [hfree]; exact Bool.false_ne_true)]
    have hscopes : (inner.newCell this).2.scopes =
        s.store.scopes.push { parent := some type.scope } := rfl
    exact congrArg Except.ok (Store.updateScope_last _ hscopes)
  have hrun : methodScope o type host s = (do
      Eval.declareConstant s.store.scopes.size "this" this
      Eval.newScope s.store.scopes.size : Eval ScopeId) host { s with store := inner } := rfl
  rw [hrun, Eval.declareConstant_eq, bind_apply]
  unfold Eval.tryScope
  dsimp only
  rw [hbind]
  have hsize : inner.cells.size = s.store.cells.size + 1 := Array.size_push _
  unfold Store.withReceiver Store.bodyScope
  rw [← hsize, ← @Array.size_push _ s.store.scopes]
  rfl

namespace Law

/-! ### Anchored stores -/

/-- The law that everything refers to cells that are there. -/
def anchored : Law where
  toPrograms := .all
  le := fun _ s t => s.cells.size ≤ t.cells.size
  keeps := fun s => ∀ {id name b}, (s.scope id).find? name = some b → b.cell < s.cells.size
  cell := fun s c => c < s.cells.size
  le_refl := @grounded.le_refl
  le_trans := @grounded.le_trans
  le_mono := @grounded.le_mono
  le_fresh := @grounded.le_fresh
  heap := by
    refine fun hc hs _ => ⟨Nat.le_of_eq (congrArg Array.size hc).symm, fun h {id name b} hb => ?_⟩
    rw [Store.scope_of_scopes hs] at hb
    exact hc ▸ h hb
  cell_mono := @grounded.cell_mono
  newCell := by
    intro s v h _
    have hsize : (s.newCell v).2.cells.size = s.cells.size + 1 := Array.size_push v
    exact ⟨hsize ▸ Nat.le_succ _, fun hb => hsize ▸ Nat.lt_succ_of_lt (h hb),
      hsize ▸ Nat.lt_succ_self _⟩
  write := fun h _ _ _ _ =>
    ⟨Nat.le_of_eq Store.size_write.symm, fun hb => Store.size_write.symm ▸ h hb⟩
  newScope := fun parent h => ⟨Nat.le_refl _, fun hb => h (Store.find?_newScope hb), trivial⟩
  bind := by
    intro s t scope names name v constant h _ _ _ ht
    rcases Store.bind_eq_ok ht with ⟨-, rfl⟩ | ⟨-, hnew, rfl⟩
    · exact ⟨Nat.le_refl _, h, trivial⟩
    · have hsize : (s.newCell v).2.cells.size = s.cells.size + 1 := Array.size_push v
      refine ⟨hsize ▸ Nat.le_succ s.cells.size, fun hb => ?_, trivial⟩
      show _ < (s.newCell v).2.cells.size
      rw [hsize]
      rcases (Store.find?_bound hnew).1 hb with ⟨-, -, -, rfl⟩ | hb
      · exact Nat.lt_succ_self _
      · exact Nat.lt_succ_of_lt (h hb)
  remove := fun h _ _ _ => ⟨Nat.le_refl _, fun hb => h (Store.find?_without.1 hb).2⟩
  ref := fun h hr _ _ _ => h (Store.find?_of_resolve hr)

theorem universal_anchored : anchored.Universal := rfl

theorem good_anchored {s : Store} {v : Value} : anchored.Good s v ↔ s.Knows v :=
  universal_anchored.good_iff trivial trivial trivial

theorem inv_anchored {s : Store} : anchored.Inv s ↔ s.Anchored :=
  ⟨fun h => ⟨h.keeps, fun v hv => good_anchored.1 (h.cells v hv), fun v hv =>
      good_anchored.1 (h.heap v hv).1⟩,
    fun h => ⟨h.bindings, fun v hv => good_anchored.2 (h.cells v hv), fun v hv =>
      ⟨good_anchored.2 (h.heap v hv), trivial⟩⟩⟩

/-! ### Receivers -/

/-- The law of a receiver. No reference is to the cell of `this`, and nothing is written to the one
of the instance. -/
def receiving (r : Receiver) : Law where
  toPrograms := .all
  le := fun _ _ _ => True
  keeps := fun s => s.Receives r
  cell := fun _ c => c ≠ r.cell + 1
  allows := fun _ c _ => c ≠ r.cell
  forbids := fun task s => task.assigns s = true
  le_refl := trivial
  le_trans := fun _ _ => trivial
  le_mono := fun _ h => h
  le_fresh := fun _ _ _ => trivial
  heap := fun hc hs _ => ⟨trivial, fun h => h.of_cells hc hs⟩
  newCell := fun v h _ => ⟨trivial, h.newCell v, Nat.ne_of_gt h.cells⟩
  write := by
    intro s c v h hc _ _ hinstance
    refine ⟨trivial, h.write hinstance ?_⟩
    rcases hc with hc | ⟨owner, name, b, hb, hvariable, rfl⟩
    · exact hc
    · intro hcell
      cases hvariable.symm.trans (h.constant hb hcell)
  newScope := fun parent h => ⟨trivial, h.newScope parent, trivial⟩
  bind := by
    intro s t scope names name v constant h _ _ _ ht
    rcases Store.bind_eq_ok ht with ⟨-, rfl⟩ | ⟨-, hnew, rfl⟩
    · exact ⟨trivial, h, trivial⟩
    · exact ⟨trivial, h.binding hnew, trivial⟩
  remove := fun h hr hvariable _ => ⟨trivial, h.without (Store.find?_of_resolve hr) hvariable⟩
  ref := by
    intro s scope name owner b _ _ _ f h _ _ _ hread hcell
    rw [hcell] at hread
    exact hread _ _ h.reference
  allows_stepped := by
    rintro s c v n h hraw - rfl
    rw [h.value] at hraw
    cases hraw
  allows_assigned := fun h => absurd rfl h

theorem universal_receiving {r : Receiver} : (receiving r).Universal := rfl

/-- Values that refer to none but the cells that were there before the call are good. -/
theorem good_receiving {r : Receiver} {s : Store} {v : Value} (h : v.RefersOnlyTo (· < r.cell)) :
    (receiving r).Good s v :=
  (universal_receiving.good_iff trivial trivial trivial).2
    (h.mono fun _ hc => Nat.ne_of_lt (Nat.lt_succ_of_lt hc))

/-- The start of a call is in accordance with the law of its receiver. -/
theorem inv_receiving {s : Store} (h : s.Anchored) {o : ObjectId} {type : StructType} :
    (receiving (s.receiver o type)).Inv (s.withReceiver o type) where
  keeps := h.receives o type
  cells := by
    intro v hv
    rcases Array.mem_push.1 hv with hv | rfl
    · rcases Array.mem_push.1 hv with hv | rfl
      · exact good_receiving (h.cells v hv)
      · exact universal_receiving.goodStruct type
    · exact Nat.ne_of_lt (Nat.lt_succ_self _)
  heap := fun v hv =>
    ⟨good_receiving (h.heap v (Store.heap_congr hv rfl rfl rfl)), trivial⟩

/-- The law of a receiver holds as long as nothing is written to the cell of the instance. -/
theorem guarded_receiving {r : Receiver} : (receiving r).Guarded (Store.targets r.cell) where
  universal := universal_receiving
  forbids := id
  bodies := trivial
  allows := by
    intro s v place _ hno
    cases place with
    | name name scope =>
      rintro c w hc - rfl
      have htargets : s.targets r.cell v (.name name scope) = (s.target? scope name == some r.cell) := rfl
      rw [hc, beq_self_eq_true] at htargets
      cases htargets.symm.trans hno
    | _ => trivial

theorem guarded_anchored : anchored.Guarded fun _ _ _ => false where
  universal := universal_anchored
  forbids := False.elim
  bodies := trivial
  allows := fun {s v place} _ _ => allowsPlace_of_all (fun _ _ _ => trivial) place

end Law

/-! ### Calls on instances -/

/-- Whether a piece of work is a call of a method of an instance, or of the constructor of a struct
for a new instance. -/
def Work.CallsOn (w : Work) (s : Store) (o : ObjectId) (type : StructType) : Prop :=
  match w with
  | call f _ => ∃ id decl, s.raw? f = some (.method id o type decl)
  | construct t args => t = type ∧ o = s.objects.size ∧
      ∃ ctor, type.ctor = some ctor ∧ args.length = ctor.params.length
  | _ => False

/-- The state after a record was noted in the log. -/
theorem Eval.note_eq (message : Text) (details : List (Text × LogValue)) (host : Host) (s : State) :
    ∃ t, note message details host s = .ok () t ∧ t.store = s.store := by
  have hnote : note message details host s = (if host.logging then
      modify fun st => { st with log := st.log.push { message, details } }
    else pure () : Eval Unit) host s := rfl
  rw [hnote]
  split
  · exact ⟨_, rfl, rfl⟩
  · exact ⟨_, rfl, rfl⟩

/-- A call on an instance becomes the body of a function, in a state in which `this` denotes the
instance. -/
theorem Work.CallsOn.becomes {w : Work} {s : State} {o : ObjectId} {type : StructType}
    (h : w.CallsOn s.store o type) (hs : s.store.Anchored) (host : Host) :
    ∃ w' t, w.Becomes host s w' t ∧ w'.values ⊆ w.values ∧
      ∃ u : Store, t.store = u.withReceiver o type ∧ u.Anchored ∧ u.cells = s.store.cells ∧
        u.scopes = s.store.scopes := by
  cases w with
  | call f args =>
    obtain ⟨id, decl, hraw⟩ := h
    refine ⟨.body (type.name ++ "." ++ decl.name) decl decl.result s.store.bodyScope args,
      { s with store := s.store.withReceiver o type }, fun run => ?_,
      fun v hv => List.mem_cons_of_mem _ hv, s.store, rfl, hs, rfl, rfl⟩
    have hf : raw f host s = .ok (.method id o type decl) s := raw_of_raw? hraw host
    show run.callValue f args host s = _
    unfold Runner.callValue
    rw [bind_apply, hf]
    dsimp only
    rw [bind_apply, Runner.methodScope_eq]
    rfl
  | construct t args =>
    obtain ⟨rfl, rfl, ctor, hctor, hlength⟩ := h
    let fields := Fields.ofList (t.fields.map fun f => (f.name, Value.nil))
    let u := (s.store.newObject fields (some t)).2
    obtain ⟨s', hnote, hs'⟩ := Eval.note_eq "constructor"
      [("struct", .text t.name), ("args", .int args.length)] host
      { s with store := u.withReceiver s.store.objects.size t }
    refine ⟨.giving (.body (t.name ++ ".ctor") ctor none u.bodyScope args)
      (.object s.store.objects.size (some t)), s', fun run => ?_, fun v hv => hv, u, hs', ?_, rfl, rfl⟩
    · have hwant : (t.ctor.map fun c => c.params.length).getD 0 = args.length := by
        rw [hctor, hlength]
        rfl
      have hnew : run.instantiate t args host s = (do
          let scope ← Runner.methodScope s.store.objects.size t
          note "constructor" [("struct", .text t.name), ("args", .int args.length)]
          let _ ← run.invoke (t.name ++ ".ctor") ctor none scope args
          return .object s.store.objects.size (some t) : Eval Value) host { s with store := u } := by
        unfold Runner.instantiate
        rw [hwant, hctor]
        simp only [ne_eq, not_true_eq_false, if_false]
        rfl
      show run.instantiate t args host s = _
      rw [hnew, bind_apply, Runner.methodScope_eq]
      dsimp only
      rw [bind_apply, hnote]
      rfl
    · exact hs.of_objects fun _ _ => Store.eq_nil_of_mem_ofList
  | _ => exact h.elim

/-- Values of a task that are known. -/
theorem Law.knows_of_goodTask {s : Store} {task : Task} (h : anchored.GoodTask s task) :
    ∀ v ∈ (Work.task task).values, s.Knows v := by
  intro v hv
  cases task with
  | call f args =>
    rcases List.mem_cons.1 hv with rfl | hv
    · exact good_anchored.1 h.1
    · exact good_anchored.1 (h.2 v hv)
  | _ => exact absurd hv List.not_mem_nil

/-- What is done for a call on an instance is done in accordance with the law of the receiver. -/
theorem Store.Anchored.receives_work {w : Work} {n : Nat} {host : Host} {s : State} {o : ObjectId}
    {type : StructType} (hs : s.store.Anchored) (hw : ∀ v ∈ w.values, s.store.Knows v)
    (hcalls : w.CallsOn s.store o type)
    (hspares : w.Spares (Store.targets s.store.cells.size) n host s) :
    ∃ r : Receiver, r.scope + 1 = s.store.bodyScope ∧ r.object = o ∧ r.type = type ∧
      ((w.eval n).after host s).store.Receives r ∧
      ∀ {task t}, w.Visits n host s task t → t.store.Receives r := by
  obtain ⟨w', t, hbecomes, hvalues, u, ht, hu, hcells, hscopes⟩ := hcalls.becomes hs host
  let r := u.receiver o type
  have hcell : r.cell = s.store.cells.size := congrArg Array.size hcells
  have hinv : (Law.receiving r).Inv t.store := ht ▸ Law.inv_receiving hu
  have hw' : ∀ v ∈ w'.values, (Law.receiving r).Good t.store v := fun v hv =>
    Law.good_receiving (hcell ▸ hw v (hvalues hv))
  have hguarded := Law.guarded_receiving (r := r)
  have hspares' := hcell.symm ▸ hbecomes.spares hspares
  refine ⟨r, congrArg (Array.size · + 1) hscopes, rfl, rfl, ?_, fun hvisits => ?_⟩
  · rw [hbecomes.after_eq]
    exact (hguarded.after hinv hw' hspares').1.keeps
  · exact (hguarded.visits hinv hw' hspares' (hbecomes.visits hvisits)).1.1.keeps

/-- `this` denotes the receiver. Everything that programs lead to is anchored; and in a call of a
method of an instance, or of a constructor, from an anchored state `this` denotes the instance in
the scope of the body, in all states that the call visits and in the one that it ends in, if no
assignment goes to the cell that was made for the instance and the scope does not bind the name
itself. -/
theorem this_denotes_receiver {s : State} {vs : List Value} (h : Reached anyUse s vs) :
    (s.store.Anchored ∧ ∀ v ∈ vs, s.store.Knows v) ∧
    (∀ {o type host s}, ∃ t, Runner.methodScope o type host s = .ok s.store.bodyScope t) ∧
    (∀ {w : Work} {n host s}, s.store.Anchored → (∀ v ∈ w.values, s.store.Knows v) →
      ((w.eval n).after host s).store.Anchored ∧
      ∀ {task t}, w.Visits n host s task t →
        t.store.Anchored ∧ ∀ v ∈ (Work.task task).values, t.store.Knows v) ∧
    (∀ {es scope n host s vs t}, s.store.Anchored → (evaluator n).exprs es scope host s = .ok vs t →
      t.store.Anchored ∧ ∀ v ∈ vs, t.store.Knows v) ∧
    ∀ {w : Work} {n host s o type}, s.store.Anchored → (∀ v ∈ w.values, s.store.Knows v) →
      w.CallsOn s.store o type → w.Spares (Store.targets s.store.cells.size) n host s →
        ((w.eval n).after host s).store.Denotes s.store.bodyScope o type ∧
        ∀ {task t}, w.Visits n host s task t → t.store.Denotes s.store.bodyScope o type := by
  refine ⟨?_, ⟨_, Runner.methodScope_eq _ _ _ _⟩, fun hs hw => ?_,
    fun {es scope n host s vs t} hs h => ?_, ?_⟩
  · have hreached := Law.reached (L := Law.anchored) (d := fun _ _ => false) Law.universal_anchored
      (fun {id name b} hb => ?_) False.elim (fun _ => Request.avoids_none _ _ _) h
    · exact ⟨Law.inv_anchored.1 hreached.1, fun v hv => Law.good_anchored.1 (hreached.2 v hv)⟩
    · cases id <;> cases hb
  · have hs := Law.inv_anchored.2 hs
    have hw := fun v hv => Law.good_anchored.2 (hw v hv)
    refine ⟨Law.inv_anchored.1 (Law.guarded_anchored.after hs hw (Work.spares_none _ _ _ _)).1,
      fun hvisits => ?_⟩
    have ht := (Law.guarded_anchored.visits hs hw (Work.spares_none _ _ _ _) hvisits).1
    exact ⟨Law.inv_anchored.1 ht.1, Law.knows_of_goodTask ht.2⟩
  · have hrun := Law.plain_carries (n := n) (L := Law.anchored) (fun _ _ => id)
    have htidy : ∀ e ∈ es, Law.anchored.TidyExpr true e :=
      fun e _ => Law.universal_anchored.tidyExpr true e
    have hready : Law.anchored.ready s.store scope [] := Law.universal_anchored.ready
    have hout := (Law.Pairing.Sound.exprs hrun htidy hready (Law.inv_anchored.2 hs) trivial).1 host
      trivial
    rw [h] at hout
    exact ⟨Law.inv_anchored.1 hout.2.2.1, fun v hv => Law.good_anchored.1 (hout.2.2.2 v hv)⟩
  · intro w n host s o type hs hw hcalls hspares
    obtain ⟨r, hscope, rfl, rfl, hafter, hvisits⟩ := hs.receives_work hw hcalls hspares
    rw [← hscope]
    exact ⟨hafter.denotes, fun h => (hvisits h).denotes⟩

/-- A constructor that keeps `this` in a variable `t` before it writes a text to a place. -/
def constructorWriting (target : Expr) : FunctionDecl where
  span := {}
  name := "ctor"
  params := []
  result := none
  body := ⟨{}, [.declare {} "t" false none (some (.ident {} "this")),
    .expr {} (.assign {} .set target (.string {} "a"))]⟩

/-- A struct with such a constructor. -/
def structWriting (target : Expr) : StructType :=
  { id := 0, name := "S", ctor := some (constructorWriting target) }

/-- What a program leaves that declares the struct. -/
def declaredWriting (target : Expr) : State where
  store :=
    { cells := #[.struct (structWriting target)]
      scopes := #[{ values := [("S", 0)] }]
      fresh := 1 }

theorem reached_declaredWriting (target : Expr) : Reached anyUse (declaredWriting target) [.nil] := by
  have hrun : (Request.run ⟨{}, [.struct {} "S" [] [constructorWriting target]]⟩).eval {}
      (Interpreter.new {} {} [] 0).state = .ok .nil (declaredWriting target) := rfl
  exact .gives _ {} (.new {} {} [] 0) (List.nil_subset _) trivial hrun

theorem constructs_structWriting (target : Expr) :
    (Work.construct (structWriting target) []).CallsOn (declaredWriting target).store 0
      (structWriting target) :=
  ⟨rfl, rfl, _, rfl, rfl⟩

/-- A field of the instance as a place. -/
def fieldOfThis : Expr := .member {} (.ident {} "t") "x"

/-- A constructor that writes to a field of the instance leaves `this` as it is. -/
theorem this_after_field_write :
    (Work.construct (structWriting fieldOfThis) []).Spares (Store.targets 1) 4 {}
        (declaredWriting fieldOfThis) ∧
      (((Work.construct (structWriting fieldOfThis) []).eval 4).after {}
        (declaredWriting fieldOfThis)).store.Denotes 2 0 (structWriting fieldOfThis) := by
  have hspares : (Work.construct (structWriting fieldOfThis) []).Spares (Store.targets 1) 4 {}
      (declaredWriting fieldOfThis) := by
    intro otherwise
    cbv
  obtain ⟨hreached, -, -, -, hcalls⟩ := this_denotes_receiver (reached_declaredWriting fieldOfThis)
  exact ⟨hspares, (hcalls hreached.1 (fun _ hv => absurd hv List.not_mem_nil)
    (constructs_structWriting fieldOfThis) hspares).1⟩

/-- A construction in which a text is written to a variable that `this` was stored in. -/
def replacesReceiver : Work := .construct (structWriting (.ident {} "t")) []

/-- What it leaves. -/
def replacedReceiver : State := (replacesReceiver.eval 4).after {} (declaredWriting (.ident {} "t"))

/-- Not every constructor leaves `this` with the instance: a write to a variable that `this` was
stored in replaces it. -/
theorem receiver_replaced : ¬∀ {s : State} {vs : List Value}, Reached anyUse s vs →
    ∀ scope name type, s.store.lookup scope name = .ok (.struct type) →
      ∀ (args : List Value) (o : ObjectId), (∀ v ∈ args, s.store.Knows v) →
        (Work.construct type args).CallsOn s.store o type → ∀ (n : Nat) (host : Host),
          (((Work.construct type args).eval n).after host s).store.Denotes s.store.bodyScope o type := by
  intro h
  have hdeclared : (declaredWriting (.ident {} "t")).store.lookup globalScope "S" =
      .ok (.struct (structWriting (.ident {} "t"))) := rfl
  have hdenotes : replacedReceiver.store.Denotes 2 0 (structWriting (.ident {} "t")) :=
    h (reached_declaredWriting _) _ _ _ hdeclared [] 0 (fun _ hv => absurd hv List.not_mem_nil)
      (constructs_structWriting _) 4 {}
  have hfree : (replacedReceiver.store.scope 2).binds "this" = false := by cbv
  have hthis : replacedReceiver.store.lookup 2 "this" = .ok (.reference 1 (some 1)) := by cbv
  have htext : replacedReceiver.store.raw? (.reference 1 (some 1)) = some (.text "a") := by cbv
  obtain ⟨v, hv, hraw⟩ := hdenotes hfree
  cases hthis.symm.trans hv
  cases htext.symm.trans hraw

end ScriptLang
