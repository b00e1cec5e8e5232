import Mathlib.Data.Finmap
import ScriptLang.Proofs.Store.Names

/-!
# Scopes as stacks of finite maps

The scopes of a store hold cells by their names, and apart from them the names that are constants, and each
has a link to the scope around it. Here they are compared with a plainer picture of the same thing. In the
reference each scope is a finite map from names to cells with marks, and comes with the stack of scopes in
which names are looked up from it, itself on top. A lookup takes the uppermost map that has the name.

Both are driven by the same operations, on any scope that was made so far, and give the same answers
(`Store.answers_eq`, the main statement). An operation that fails leaves the store just as it was, a
declaration changes no scope but its own, and every other operation changes no scope but the one in which its
name is found.

That the two sides agree rests on an invariant of the scopes (`Store.Tidy`): no scope binds a name twice,
only bound names are marked, and the name that is never bound is bound nowhere. A mark that was left behind
when its name went would make a constant of the next variable of that name.
-/

namespace ScriptLang

/-- An operation on scopes. -/
inductive ScopeOperation where
  /-- Bind a variable in a scope. -/
  | define (id : ScopeId) (name : Text) (v : Value)
  /-- Bind a constant in a scope. -/
  | declareConstant (id : ScopeId) (name : Text) (v : Value)
  /-- Write to a name. -/
  | assign (id : ScopeId) (name : Text) (v : Value)
  /-- Read a name. -/
  | get (id : ScopeId) (name : Text)
  /-- Ask whether a name is bound in a scope or around it. -/
  | has (id : ScopeId) (name : Text)
  /-- Ask whether a name is bound in a scope itself. -/
  | hasLocal (id : ScopeId) (name : Text)
  /-- Make a name a constant. -/
  | makeConstant (id : ScopeId) (name : Text)
  /-- Make a name writable. -/
  | stripConstant (id : ScopeId) (name : Text)
  /-- Ask whether a name is a constant. -/
  | isConstant (id : ScopeId) (name : Text)
  /-- Remove a name. -/
  | remove (id : ScopeId) (name : Text)
  /-- Ask for the cell of a name. -/
  | cell (id : ScopeId) (name : Text)
  /-- Read a cell. -/
  | readCell (id : ScopeId) (c : CellId)
  /-- Write to a cell. -/
  | writeCell (id : ScopeId) (c : CellId) (v : Value)
  /-- Make a scope inside of a scope. -/
  | child (id : ScopeId)

/-- What an operation on scopes answers. -/
inductive ScopeAnswer where
  /-- It was done. -/
  | done
  /-- It failed. -/
  | fault (e : NameFault)
  /-- A value. -/
  | value (v : Value)
  /-- Yes or no. -/
  | flag (b : Bool)
  /-- A cell. -/
  | cell (c : CellId)
  /-- A scope. -/
  | scope (id : ScopeId)
  /-- There is no such scope. -/
  | missing

namespace ScopeOperation

/-- The scope that an operation starts from. -/
def scope : ScopeOperation → ScopeId
  | define id _ _ | declareConstant id _ _ | assign id _ _ | get id _ | has id _ | hasLocal id _
  | makeConstant id _ | stripConstant id _ | isConstant id _ | remove id _ | cell id _
  | readCell id _ | writeCell id _ _ | child id => id

/-- The name that an operation looks up, if it is one that looks up a name. -/
def sought? : ScopeOperation → Option Text
  | assign _ name _ | get _ name | has _ name | makeConstant _ name | stripConstant _ name
  | isConstant _ name | remove _ name | cell _ name => some name
  | _ => none

end ScopeOperation

/-! ### The operations on a store -/

namespace Store

/-- The answer to a change to names, and the store that the change leaves, whether or not it failed. -/
def outcome {α : Type} (s : Store) (x : Naming α) (answer : α → ScopeAnswer) : ScopeAnswer × Store :=
  match x s with
  | .ok a t => (answer a, t)
  | .error e t => (.fault e, t)

/-- An operation on a scope that is there. -/
def carryOut (s : Store) : ScopeOperation → ScopeAnswer × Store
  | .define id name v => s.outcome (Naming.define id name v) fun _ => .done
  | .declareConstant id name v => s.outcome (Naming.declareConstant id name v) fun _ => .done
  | .assign id name v => s.outcome (Naming.assign id name v) fun _ => .done
  | .get id name =>
    match s.lookup id name with
    | .ok v => (.value v, s)
    | .error e => (.fault e, s)
  | .has id name => (.flag (s.has id name), s)
  | .hasLocal id name => (.flag (s.hasLocal id name), s)
  | .makeConstant id name => s.outcome (Naming.makeConstant id name) fun _ => .done
  | .stripConstant id name => s.outcome (Naming.stripConstant id name) fun _ => .done
  | .isConstant id name => (.flag (s.isConstant id name), s)
  | .remove id name => s.outcome (Naming.remove id name) .value
  | .cell id name =>
    match s.cellOf id name with
    | .ok c => (.cell c, s)
    | .error e => (.fault e, s)
  | .readCell _ c => (.value (s.read c), s)
  | .writeCell _ c v => (.done, s.write c v)
  | .child id =>
    let (new, t) := s.newScope (some id)
    (.scope new, t)

/-- An operation on scopes. -/
def operate (s : Store) (op : ScopeOperation) : ScopeAnswer × Store :=
  if op.scope < s.scopes.size then s.carryOut op else (.missing, s)

/-- The answers to operations one after another, and the store after them. -/
def answers (s : Store) : List ScopeOperation → List ScopeAnswer × Store
  | [] => ([], s)
  | op :: ops =>
    let (a, t) := s.operate op
    let (as, u) := answers t ops
    (a :: as, u)

/-- A store with a single scope that binds nothing. -/
def rooted : Store := { scopes := #[{}] }

end Store

/-! ### The reference -/

/-- What a name stands for: a cell, and whether it is a constant. -/
structure Entry where
  /-- The cell. -/
  cell : CellId
  /-- Whether the name is a constant. -/
  constant : Bool
deriving DecidableEq, Repr

/-- The names of a scope. -/
abbrev Frame := Finmap fun _ : Text => Entry

/-- Scopes as finite maps, each with the stack of scopes that names are looked up in. -/
structure Stacks where
  /-- The contents of the cells. -/
  cells : List Value
  /-- The map of each scope. -/
  frames : List Frame
  /-- The scopes that names are looked up in from each scope, the innermost first. -/
  chains : List (List ScopeId)

namespace Stacks

/-- The map of a scope. -/
def frame (r : Stacks) (id : ScopeId) : Frame := r.frames.getD id ∅

/-- The scopes that names are looked up in from a scope. -/
def chain (r : Stacks) (id : ScopeId) : List ScopeId := r.chains.getD id []

/-- The innermost scope that has a name, and what the name stands for there. -/
def find? (r : Stacks) (id : ScopeId) (name : Text) : Option (ScopeId × Entry) :=
  (r.chain id).findSome? fun i => ((r.frame i).lookup name).map fun e => (i, e)

/-- The content of a cell. -/
def read (r : Stacks) (c : CellId) : Value := r.cells.getD c .nil

/-- A write to a cell. -/
def write (r : Stacks) (c : CellId) (v : Value) : Stacks := { r with cells := r.cells.set c v }

/-- A change to the map of a scope. -/
def change (r : Stacks) (id : ScopeId) (f : Frame → Frame) : Stacks :=
  { r with frames := r.frames.modify id f }

/-- A new scope on top of the stack of a scope. -/
def newScope (r : Stacks) (id : ScopeId) : Stacks :=
  { r with frames := r.frames ++ [∅], chains := r.chains ++ [r.frames.length :: r.chain id] }

/-- Give a scope a name that it does not have, with a new cell. -/
def bind (r : Stacks) (id : ScopeId) (name : Text) (v : Value) (constant : Bool) :
    ScopeAnswer × Stacks :=
  if name = discard then (.done, r)
  else if name ∈ r.frame id then (.fault (.declaredTwice name), r)
  else
    let r' := r.change id (·.insert name ⟨r.cells.length, constant⟩)
    (.done, { r' with cells := r.cells ++ [v] })

/-- What is done with a name that is looked up; `discarded` is the answer for the name that is never
bound, and `fault` what goes wrong if no scope has the name. -/
def seek (r : Stacks) (id : ScopeId) (name : Text) (discarded : ScopeAnswer) (fault : NameFault)
    (found : ScopeId → Entry → ScopeAnswer × Stacks) : ScopeAnswer × Stacks :=
  if name = discard then (discarded, r)
  else match r.find? id name with
    | none => (.fault fault, r)
    | some (owner, e) => found owner e

/-- An operation on a scope that is there. -/
def carryOut (r : Stacks) : ScopeOperation → ScopeAnswer × Stacks
  | .define id name v => r.bind id name v false
  | .declareConstant id name v => r.bind id name v true
  | .assign id name v => r.seek id name .done (.undeclared name) fun _ e =>
      if e.constant then (.fault (.constant name), r) else (.done, r.write e.cell v)
  | .get id name => r.seek id name (.value .nil) (.undefined name) fun _ e => (.value (r.read e.cell), r)
  | .has id name => (.flag (r.find? id name).isSome, r)
  | .hasLocal id name => (.flag (decide (name ∈ r.frame id)), r)
  | .makeConstant id name => r.seek id name .done (.undefined name) fun owner e =>
      (.done, r.change owner (·.insert name ⟨e.cell, true⟩))
  | .stripConstant id name =>
    match r.find? id name with
    | none => (.done, r)
    | some (owner, e) => (.done, r.change owner (·.insert name ⟨e.cell, false⟩))
  | .isConstant id name => (.flag ((r.find? id name).any fun p => p.2.constant), r)
  | .remove id name => r.seek id name (.value .nil) (.undefined name) fun owner e =>
      (.value (r.read e.cell), r.change owner (·.erase name))
  | .cell id name =>
    match r.find? id name with
    | none => (.fault (.undefined name), r)
    | some (_, e) => (.cell e.cell, r)
  | .readCell _ c => (.value (r.read c), r)
  | .writeCell _ c v => (.done, r.write c v)
  | .child id => (.scope r.frames.length, r.newScope id)

/-- An operation on scopes. -/
def operate (r : Stacks) (op : ScopeOperation) : ScopeAnswer × Stacks :=
  if op.scope < r.frames.length then r.carryOut op else (.missing, r)

/-- The answers to operations one after another, and the scopes after them. -/
def answers (r : Stacks) : List ScopeOperation → List ScopeAnswer × Stacks
  | [] => ([], r)
  | op :: ops =>
    let (a, t) := r.operate op
    let (as, u) := answers t ops
    (a :: as, u)

/-- A single scope that has no names. -/
def rooted : Stacks := ⟨[], [∅], [[0]]⟩

end Stacks

/-! ### The comparison -/

/-- What a binding makes its name stand for. -/
def Binding.entry (b : Binding) : Entry := ⟨b.cell, b.constant⟩

/-- Scopes in which no name is bound twice, only bound names are marked and the name that is never bound is
not. -/
structure Store.Tidy (s : Store) : Prop where
  nodup : ∀ id, ((s.scope id).values.map Prod.fst).Nodup
  marked : ∀ id, (s.scope id).constants ⊆ (s.scope id).values.map Prod.fst
  discard : ∀ id, (s.scope id).binds discard = false

/-- A store whose scopes are those of the reference. -/
structure Store.Refines (s : Store) (r : Stacks) : Prop extends s.Tidy where
  cells : r.cells = s.cells.toList
  frames : r.frames.length = s.scopes.size
  chains : r.chains.length = s.scopes.size
  /-- The map of a scope is made of its bindings. -/
  frame : ∀ id name, (r.frame id).lookup name = ((s.scope id).find? name).map Binding.entry
  /-- A scope is younger than the scope around it. -/
  parent : ∀ id p, (s.scope id).parent = some p → p < id
  /-- The stack of a scope is the scope itself on top of the stack of the scope around it. -/
  chain : ∀ id, id < s.scopes.size →
    r.chain id = id :: ((s.scope id).parent.map r.chain).getD []

namespace Stacks

variable {r : Stacks} {id owner : ScopeId}

theorem frame_change (f : Frame → Frame) :
    (r.change owner f).frame id =
      if id = owner ∧ owner < r.frames.length then f (r.frame owner) else r.frame id := by
  simp only [change, frame, List.getD_eq_getElem?_getD, List.getElem?_modify]
  by_cases h : owner = id
  · subst h
    by_cases hs : owner < r.frames.length
    · simp [hs]
    · simp [hs]
  · rw [if_neg fun h' => h h'.1.symm]
    simp [h]

theorem frame_newScope :
    (r.newScope owner).frame id = if id = r.frames.length then ∅ else r.frame id := by
  simp only [newScope, frame, List.getD_eq_getElem?_getD]
  rcases Nat.lt_trichotomy id r.frames.length with hlt | rfl | hgt
  · rw [List.getElem?_append_left hlt, if_neg (Nat.ne_of_lt hlt)]
  · simp
  · rw [if_neg (Nat.ne_of_gt hgt), List.getElem?_eq_none (List.length_append ▸ hgt),
      List.getElem?_eq_none (Nat.le_of_lt hgt)]

theorem chain_newScope : (r.newScope owner).chain r.chains.length = r.frames.length :: r.chain owner := by
  simp [newScope, chain, List.getD_eq_getElem?_getD]

theorem chain_newScope_of_lt (h : id < r.chains.length) : (r.newScope owner).chain id = r.chain id := by
  simp only [newScope, chain, List.getD_eq_getElem?_getD]
  rw [List.getElem?_append_left h]

end Stacks

namespace Store

variable {s t : Store} {r : Stacks} {id owner : ScopeId} {name : Text} {v : Value} {b : Binding}

/-! ### Changes that keep to the reference -/

namespace Refines

theorem rooted : Store.rooted.Refines .rooted where
  nodup id := by
    cases id <;> exact List.nodup_nil
  marked id := by
    cases id <;> exact List.nil_subset _
  discard id := by
    cases id <;> rfl
  cells := rfl
  frames := rfl
  chains := rfl
  frame id name := by
    cases id <;> rfl
  parent id p h := by
    cases id <;> cases h
  chain id h := by
    cases Nat.lt_one_iff.1 h
    rfl

theorem mem_frame (h : s.Refines r) : name ∈ r.frame id ↔ (s.scope id).binds name = true := by
  rw [← Finmap.lookup_isSome, h.frame, Option.isSome_map, Scope.binds_eq_isSome]

theorem find?_of_locateWithin (h : s.Refines r) {n : Nat} (hn : id < n) (hid : id < s.scopes.size) :
    r.find? id name =
      (s.locateWithin name n id).map fun p => (p.1, ⟨p.2, (s.scope p.1).marks name⟩) := by
  induction n generalizing id with
  | zero => exact absurd hn (Nat.not_lt_zero _)
  | succ n ih =>
    unfold Stacks.find? locateWithin
    rw [h.chain id hid, List.findSome?_cons, h.frame, Scope.find?]
    dsimp only
    cases (s.scope id).cell? name with
    | some c => rfl
    | none =>
      cases hp : (s.scope id).parent with
      | none => rfl
      | some p =>
        have hlt := h.parent id p hp
        exact ih (Nat.lt_of_lt_of_le hlt (Nat.le_of_lt_succ hn)) (Nat.lt_trans hlt hid)

/-- Both look names up in the same scopes. -/
theorem find?_eq (h : s.Refines r) (id : ScopeId) (name : Text) :
    r.find? id name = (s.resolve id name).map fun p => (p.1, p.2.entry) := by
  by_cases hid : id < s.scopes.size
  · rw [h.find?_of_locateWithin hid hid, resolve, Option.map_map]
    rfl
  · have hchain : r.chain id = [] := by
      simp only [Stacks.chain, List.getD_eq_getElem?_getD]
      rw [List.getElem?_eq_none (h.chains ▸ Nat.le_of_not_lt hid)]
      rfl
    rw [resolve_of_size_le (Nat.le_of_not_lt hid), Stacks.find?, hchain]
    rfl

theorem read_eq (h : s.Refines r) (c : CellId) : r.read c = s.read c := by
  unfold Stacks.read Store.read
  rw [h.cells, List.getD_eq_getElem?_getD, Array.getD_eq_getD_getElem?, Array.getElem?_toList]

theorem write (h : s.Refines r) (c : CellId) (v : Value) : (s.write c v).Refines (r.write c v) where
  toTidy := ⟨h.nodup, h.marked, h.discard⟩
  cells := by
    show r.cells.set c v = _
    rw [h.cells]
    exact (Array.toList_setIfInBounds ..).symm
  frames := h.frames
  chains := h.chains
  frame := h.frame
  parent := h.parent
  chain := h.chain

/-- A new cell. -/
theorem newCell (h : s.Refines r) (v : Value) :
    (s.newCell v).2.Refines { r with cells := r.cells ++ [v] } where
  toTidy := ⟨h.nodup, h.marked, h.discard⟩
  cells := by
    show r.cells ++ [v] = _
    rw [h.cells]
    exact (Array.toList_push ..).symm
  frames := h.frames
  chains := h.chains
  frame := h.frame
  parent := h.parent
  chain := h.chain

/-- A change to a scope that is the same as a change to its map. -/
theorem change (h : s.Refines r) (hid : owner < s.scopes.size) {f : Scope → Scope} {g : Frame → Frame}
    {changed : Scope} (hf : f (s.scope owner) = changed)
    (hparent : changed.parent = (s.scope owner).parent) (hnodup : (changed.values.map Prod.fst).Nodup)
    (hmarked : changed.constants ⊆ changed.values.map Prod.fst)
    (hdiscard : ScriptLang.discard ∉ changed.values.map Prod.fst)
    (hframe : ∀ name, (g (r.frame owner)).lookup name = (changed.find? name).map Binding.entry) :
    (s.updateScope owner f).Refines (r.change owner g) where
  nodup id := by
    rw [scope_updateScope, hf]
    split
    · exact hnodup
    · exact h.nodup id
  marked id := by
    rw [scope_updateScope, hf]
    split
    · exact hmarked
    · exact h.marked id
  discard id := by
    rw [scope_updateScope, hf]
    split
    · exact Scope.binds_eq_false_iff.2 hdiscard
    · exact h.discard id
  cells := h.cells
  frames := (List.length_modify ..).trans (h.frames.trans Array.size_modify.symm)
  chains := h.chains.trans Array.size_modify.symm
  frame id name := by
    rw [scope_updateScope, hf, Stacks.frame_change, h.frames]
    split
    · exact hframe name
    · exact h.frame id name
  parent id p hp := by
    rw [scope_updateScope, hf] at hp
    split at hp
    · next hif =>
      obtain ⟨rfl, -⟩ := hif
      exact h.parent id p (hparent.symm.trans hp)
    · exact h.parent id p hp
  chain id hlt := by
    have hsame : ((s.updateScope owner f).scope id).parent = (s.scope id).parent := by
      rw [scope_updateScope, hf]
      split
      · next hif => rw [hparent, hif.1]
      · rfl
    rw [hsame]
    exact h.chain id (Array.size_modify ▸ hlt)

/-- A new scope inside of a scope. -/
theorem newScope (h : s.Refines r) (hid : id < s.scopes.size) :
    (s.newScope (some id)).2.Refines (r.newScope id) where
  nodup i := by
    rw [scope_newScope]
    split
    · exact List.nodup_nil
    · exact h.nodup i
  marked i := by
    rw [scope_newScope]
    split
    · exact List.nil_subset _
    · exact h.marked i
  discard i := by
    rw [scope_newScope]
    split
    · rfl
    · exact h.discard i
  cells := h.cells
  frames := by simp [h.frames, Store.newScope, Stacks.newScope]
  chains := by simp [h.chains, Store.newScope, Stacks.newScope]
  frame i name := by
    rw [Stacks.frame_newScope, h.frames, scope_newScope]
    split
    · rfl
    · exact h.frame i name
  parent i p hp := by
    rw [scope_newScope] at hp
    split at hp
    · next hi =>
      cases hp
      exact hi ▸ hid
    · exact h.parent i p hp
  chain i hi := by
    have hold {j : ScopeId} (hj : j < s.scopes.size) : (r.newScope id).chain j = r.chain j :=
      Stacks.chain_newScope_of_lt (h.chains.symm ▸ hj)
    rw [scope_newScope]
    split
    · next hnew =>
      subst hnew
      rw [Option.map_some, Option.getD_some, hold hid, ← h.chains, Stacks.chain_newScope, h.frames,
        h.chains]
    · next hne =>
      have hi' : i < s.scopes.size + 1 := by simpa [Store.newScope] using hi
      have hlt : i < s.scopes.size := Nat.lt_of_le_of_ne (Nat.le_of_lt_succ hi') hne
      rw [hold hlt, h.chain i hlt]
      cases hp : (s.scope i).parent with
      | none => rfl
      | some p => rw [Option.map_some, Option.map_some, hold (Nat.lt_trans (h.parent i p hp) hlt)]

/-- A change to the mark of a name that a scope binds. -/
theorem remark (h : s.Refines r) (hfind : (s.scope owner).find? name = some b) {f : Scope → Scope}
    {constants : List Text} {constant : Bool}
    (hf : f (s.scope owner) = { s.scope owner with constants })
    (hconstants : constants ⊆ name :: (s.scope owner).constants)
    (hmarks : ∀ other, (f (s.scope owner)).find? other = ((s.scope owner).find? other).map fun b =>
      if other = name then { b with constant } else b) :
    (s.updateScope owner f).Refines (r.change owner (·.insert name ⟨b.cell, constant⟩)) := by
  have hbound := Scope.binds_iff_mem.1 (Scope.binds_of_find? hfind)
  refine h.change (lt_of_find? hfind) hf rfl (h.nodup owner) ?_
    (Scope.binds_eq_false_iff.1 (h.discard owner)) fun other => ?_
  · exact List.Subset.trans hconstants (List.cons_subset.2 ⟨hbound, h.marked owner⟩)
  · rw [← hf, hmarks]
    by_cases hname : other = name
    · rw [hname, Finmap.lookup_insert, hfind, Option.map_some, if_pos rfl]
      rfl
    · rw [Finmap.lookup_insert_of_ne _ hname, h.frame]
      simp only [if_neg hname, Option.map_id']

theorem mark (h : s.Refines r) (hfind : (s.scope owner).find? name = some b) :
    (s.updateScope owner fun scope => scope.mark name).Refines
      (r.change owner (·.insert name ⟨b.cell, true⟩)) :=
  h.remark hfind rfl (fun _ hother => List.mem_cons.2 (List.mem_insert_iff.1 hother)) fun _ =>
    Scope.find?_mark

theorem unmark (h : s.Refines r) (hfind : (s.scope owner).find? name = some b) :
    (s.updateScope owner fun scope => scope.unmark name).Refines
      (r.change owner (·.insert name ⟨b.cell, false⟩)) :=
  h.remark hfind rfl (fun _ hother => List.mem_cons_of_mem _ (List.mem_of_mem_filter hother)) fun _ =>
    Scope.find?_unmark

/-- The removal of a name from a scope. The mark goes with the cell, so that only bound names are marked. -/
theorem erase (h : s.Refines r) (hfind : (s.scope owner).find? name = some b) :
    (s.without owner name).Refines (r.change owner (·.erase name)) := by
  have hsub : List.Sublist (((s.scope owner).unbind name).values.map Prod.fst)
      ((s.scope owner).values.map Prod.fst) := List.filter_sublist.map _
  refine h.change (lt_of_find? hfind) rfl rfl ((h.nodup owner).sublist hsub) (fun other hother => ?_)
    (fun hmem => Scope.binds_eq_false_iff.1 (h.discard owner) (hsub.subset hmem)) fun other => ?_
  · obtain ⟨hmem, hne⟩ := List.mem_filter.1 hother
    obtain ⟨e, he, rfl⟩ := List.mem_map.1 (h.marked owner hmem)
    exact List.mem_map.2 ⟨e, List.mem_filter.2 ⟨he, hne⟩, rfl⟩
  · rw [Scope.find?_unbind]
    by_cases hname : other = name
    · rw [hname, Finmap.lookup_erase, if_pos rfl]
      rfl
    · rw [Finmap.lookup_erase_ne hname, if_neg hname, h.frame]

/-- A new name of a scope, with a new cell. It is marked just when it is bound as a constant: no mark was
there before. -/
theorem bound (h : s.Refines r) (hid : id < s.scopes.size) (hd : name ≠ ScriptLang.discard)
    (hb : (s.scope id).binds name = false) (v : Value) (constant : Bool) :
    (s.bound id name v constant).Refines
      ({ r with cells := r.cells ++ [v] }.change id (·.insert name ⟨r.cells.length, constant⟩)) := by
  have hnew : name ∉ (s.scope id).values.map Prod.fst := Scope.binds_eq_false_iff.1 hb
  have hunmarked : (s.scope id).marks name = false := by
    unfold Scope.marks
    simpa using fun hmem => hnew (h.marked id hmem)
  have hscope : ((s.newCell v).2.scope id).bindAs name s.cells.size constant =
      (s.scope id).bindAs name s.cells.size constant := rfl
  refine (h.newCell v).change (r := { r with cells := r.cells ++ [v] }) hid hscope Scope.parent_bindAs ?_
    (List.Subset.trans Scope.constants_bindAs_subset ?_) ?_ fun other => ?_
  · rw [Scope.values_bindAs]
    exact List.nodup_cons.2 ⟨hnew, h.nodup id⟩
  · rw [Scope.values_bindAs]
    exact List.cons_subset_cons _ (h.marked id)
  · rw [Scope.values_bindAs]
    exact List.not_mem_cons_of_ne_of_not_mem (Ne.symm hd) (Scope.binds_eq_false_iff.1 (h.discard id))
  · rw [Scope.find?_bindAs, hunmarked, Bool.or_false]
    by_cases hname : other = name
    · rw [hname, if_pos rfl, h.cells]
      exact Finmap.lookup_insert _
    · rw [if_neg hname]
      exact (Finmap.lookup_insert_of_ne _ hname).trans (h.frame id other)

end Refines

/-! ### The operations -/

/-- What an operation comes to in a store and in the reference. -/
def Agrees (p : ScopeAnswer × Store) (q : ScopeAnswer × Stacks) : Prop := p.1 = q.1 ∧ p.2.Refines q.2

/-- The answer to a change that comes to a new store or fails, and the store after it. -/
def answer (s : Store) : Except NameFault Store → ScopeAnswer × Store
  | .ok t => (.done, t)
  | .error e => (.fault e, s)

theorem outcome_of_ok {α : Type} {x : Naming α} {f : α → ScopeAnswer} {a : α} (h : x s = .ok a t) :
    s.outcome x f = (f a, t) := by
  unfold outcome
  rw [h]

theorem outcome_of_error {α : Type} {x : Naming α} {f : α → ScopeAnswer} {e : NameFault}
    (h : x s = .error e t) : s.outcome x f = (.fault e, t) := by
  unfold outcome
  rw [h]

theorem outcome_settle {x : Naming Unit} {f : Except NameFault Store} (h : x s = Naming.settle s f) :
    s.outcome x (fun _ => .done) = s.answer f := by
  cases f with
  | ok t => exact outcome_of_ok h
  | error e => exact outcome_of_error h

theorem carryOut_define : s.carryOut (.define id name v) = s.answer (s.bind id name v false) :=
  outcome_settle (Naming.define_eq ..)

theorem carryOut_declareConstant :
    s.carryOut (.declareConstant id name v) = s.answer (s.bind id name v true) :=
  outcome_settle (Naming.declareConstant_eq ..)

theorem carryOut_assign : s.carryOut (.assign id name v) = s.answer (s.assign id name v) :=
  outcome_settle (Naming.assign_eq ..)

theorem carryOut_makeConstant : s.carryOut (.makeConstant id name) = s.answer (s.makeConstant id name) :=
  outcome_settle (Naming.makeConstant_eq ..)

theorem carryOut_stripConstant : s.carryOut (.stripConstant id name) = (.done, s.stripConstant id name) :=
  outcome_of_ok (Naming.stripConstant_eq ..)

theorem carryOut_remove : s.carryOut (.remove id name) =
    match s.remove id name with
    | .ok (v, t) => (.value v, t)
    | .error e => (.fault e, s) := by
  have h := Naming.remove_eq s id name
  cases hr : s.remove id name with
  | ok p =>
    rw [hr] at h
    exact outcome_of_ok h
  | error e =>
    rw [hr] at h
    exact outcome_of_error h

namespace Refines

theorem bind (h : s.Refines r) (hid : id < s.scopes.size) (name : Text) (v : Value) (constant : Bool) :
    Agrees (s.answer (s.bind id name v constant)) (r.bind id name v constant) := by
  unfold Store.bind Stacks.bind
  by_cases hd : name = ScriptLang.discard
  · rw [if_pos hd, if_pos hd]
    exact ⟨rfl, h⟩
  · rw [if_neg hd, if_neg hd]
    by_cases hb : (s.scope id).binds name = true
    · rw [if_pos hb, if_pos (h.mem_frame.2 hb)]
      exact ⟨rfl, h⟩
    · rw [if_neg hb, if_neg (mt h.mem_frame.1 hb)]
      exact ⟨rfl, h.bound hid hd (Bool.eq_false_iff.2 hb) v constant⟩

/-- An operation that looks a name up, by what it comes to in each case. -/
theorem seek (h : s.Refines r) {x : ScopeAnswer × Store} {discarded : ScopeAnswer} {fault : NameFault}
    {found : ScopeId → Entry → ScopeAnswer × Stacks}
    (hdiscard : name = ScriptLang.discard → x = (discarded, s))
    (hnone : name ≠ ScriptLang.discard → s.resolve id name = none → x = (.fault fault, s))
    (hfound : ∀ owner b, name ≠ ScriptLang.discard → s.resolve id name = some (owner, b) →
      Agrees x (found owner b.entry)) :
    Agrees x (r.seek id name discarded fault found) := by
  unfold Stacks.seek
  by_cases hd : name = ScriptLang.discard
  · rw [if_pos hd, hdiscard hd]
    exact ⟨rfl, h⟩
  · rw [if_neg hd, h.find?_eq]
    cases hr : s.resolve id name with
    | none =>
      rw [hnone hd hr]
      exact ⟨rfl, h⟩
    | some p => exact hfound p.1 p.2 hd hr

/-- Every operation answers the same and keeps to the reference. -/
theorem carryOut (h : s.Refines r) (op : ScopeOperation) (hop : op.scope < s.scopes.size) :
    Agrees (s.carryOut op) (r.carryOut op) := by
  cases op with
  | define id name v =>
    rw [carryOut_define]
    exact h.bind hop name v false
  | declareConstant id name v =>
    rw [carryOut_declareConstant]
    exact h.bind hop name v true
  | assign id name v =>
    rw [carryOut_assign]
    refine h.seek (fun hd => ?_) (fun hd hr => ?_) fun owner b hd hr => ?_
    · rw [Store.assign, if_pos hd]
      rfl
    · rw [Store.assign, if_neg hd, hr]
      rfl
    · rw [Store.assign, if_neg hd, hr]
      cases hb : b.constant with
      | true =>
        simp only [Binding.entry, hb, if_true]
        exact ⟨rfl, h⟩
      | false =>
        simp only [Binding.entry, hb, Bool.false_eq_true, if_false]
        exact ⟨rfl, h.write _ _⟩
  | get id name =>
    refine h.seek (fun hd => ?_) (fun hd hr => ?_) fun owner b hd hr => ?_
    · rw [Store.carryOut, Store.lookup, if_pos hd]
    · rw [Store.carryOut, Store.lookup, if_neg hd, resolve_eq_none.1 hr]
    · rw [Store.carryOut, lookup_of_resolve hd hr]
      exact ⟨congrArg ScopeAnswer.value (h.read_eq _).symm, h⟩
  | has id name =>
    refine ⟨congrArg ScopeAnswer.flag ?_, h⟩
    rw [h.find?_eq, Option.isSome_map, has_eq]
  | hasLocal id name =>
    refine ⟨congrArg ScopeAnswer.flag ?_, h⟩
    rw [Bool.eq_iff_iff, decide_eq_true_iff, h.mem_frame]
    rfl
  | makeConstant id name =>
    rw [carryOut_makeConstant]
    refine h.seek (fun hd => ?_) (fun hd hr => ?_) fun owner b hd hr => ?_
    · rw [Store.makeConstant, if_pos hd]
      rfl
    · rw [Store.makeConstant, if_neg hd, hr]
      rfl
    · rw [Store.makeConstant, if_neg hd, hr]
      exact ⟨rfl, h.mark (find?_of_resolve hr)⟩
  | stripConstant id name =>
    rw [carryOut_stripConstant]
    unfold Stacks.carryOut Store.stripConstant
    dsimp only
    rw [h.find?_eq]
    cases hr : s.resolve id name with
    | none => exact ⟨rfl, h⟩
    | some p => exact ⟨rfl, h.unmark (find?_of_resolve hr)⟩
  | isConstant id name =>
    refine ⟨congrArg ScopeAnswer.flag ?_, h⟩
    rw [h.find?_eq]
    cases hr : s.resolve id name with
    | none =>
      rw [Store.isConstant, resolve_eq_none.1 hr]
      rfl
    | some p => exact isConstant_of_resolve hr
  | remove id name =>
    rw [carryOut_remove]
    refine h.seek (fun hd => ?_) (fun hd hr => ?_) fun owner b hd hr => ?_
    · rw [Store.remove, if_pos hd]
    · rw [Store.remove, if_neg hd, hr]
    · rw [Store.remove, if_neg hd, hr]
      exact ⟨congrArg ScopeAnswer.value (h.read_eq _).symm, h.erase (find?_of_resolve hr)⟩
  | cell id name =>
    unfold Store.carryOut Stacks.carryOut Store.cellOf
    dsimp only
    rw [h.find?_eq]
    cases hr : s.resolve id name with
    | none =>
      rw [resolve_eq_none.1 hr]
      exact ⟨rfl, h⟩
    | some p =>
      rw [(resolve_eq_some.1 hr).1]
      exact ⟨rfl, h⟩
  | readCell id c => exact ⟨congrArg ScopeAnswer.value (h.read_eq c).symm, h⟩
  | writeCell id c v => exact ⟨rfl, h.write c v⟩
  | child id => exact ⟨congrArg ScopeAnswer.scope h.frames.symm, h.newScope hop⟩

theorem operate (h : s.Refines r) (op : ScopeOperation) : Agrees (s.operate op) (r.operate op) := by
  unfold Store.operate Stacks.operate
  rw [h.frames]
  split
  · next hop => exact h.carryOut op hop
  · exact ⟨rfl, h⟩

theorem answers (h : s.Refines r) (ops : List ScopeOperation) :
    (s.answers ops).1 = (r.answers ops).1 ∧ (s.answers ops).2.Refines (r.answers ops).2 := by
  induction ops generalizing s r with
  | nil => exact ⟨rfl, h⟩
  | cons op ops ih =>
    obtain ⟨hanswer, hnext⟩ := h.operate op
    obtain ⟨hanswers, hlast⟩ := ih hnext
    exact ⟨congrArg₂ List.cons hanswer hanswers, hlast⟩

end Refines

/-! ### What operations leave alone -/

theorem answer_fault {x : Except NameFault Store} {e : NameFault} (h : (s.answer x).1 = .fault e) :
    (s.answer x).2 = s := by
  cases x with
  | ok t => cases h
  | error e => rfl

/-- An operation that fails leaves the store as it was, at whatever step it failed. -/
theorem operate_fault {op : ScopeOperation} {e : NameFault} (h : (s.operate op).1 = .fault e) :
    (s.operate op).2 = s := by
  unfold operate at h ⊢
  split
  · next hop =>
    rw [if_pos hop] at h
    cases op with
    | define =>
      rw [carryOut_define] at h ⊢
      exact answer_fault h
    | declareConstant =>
      rw [carryOut_declareConstant] at h ⊢
      exact answer_fault h
    | assign =>
      rw [carryOut_assign] at h ⊢
      exact answer_fault h
    | makeConstant =>
      rw [carryOut_makeConstant] at h ⊢
      exact answer_fault h
    | get id name =>
      unfold carryOut
      dsimp only
      split <;> rfl
    | remove id name =>
      rw [carryOut_remove] at h ⊢
      split
      · next hok =>
        rw [hok] at h
        cases h
      · rfl
    | cell id name =>
      unfold carryOut
      dsimp only
      split <;> rfl
    | stripConstant =>
      rw [carryOut_stripConstant] at h
      cases h
    | has | hasLocal | isConstant | readCell => rfl
    | writeCell | child => cases h
  · rfl

/-- The scope whose bindings an operation may change: that of a declaration, or else the one in which
the name is found that is looked up. -/
def ownerOf? (s : Store) : ScopeOperation → Option ScopeId
  | .define id _ _ | .declareConstant id _ _ => some id
  | op => op.sought?.bind fun name => (s.resolve op.scope name).map Prod.fst

theorem scope_updateScope_of_ne (h : id ≠ owner) (f : Scope → Scope) :
    (s.updateScope owner f).scope id = s.scope id := by
  rw [scope_updateScope, if_neg fun h' => h h'.1]

theorem scope_bind_of_ne {constant : Bool} {scope : ScopeId} (h : id ≠ scope) :
    ((s.answer (s.bind scope name v constant)).2).scope id = s.scope id := by
  cases hb : s.bind scope name v constant with
  | error e => rfl
  | ok t =>
    rcases bind_eq_ok hb with ⟨-, rfl⟩ | ⟨-, -, rfl⟩
    · rfl
    · exact scope_updateScope_of_ne h _

/-- No scope is changed but the one that an operation is about. -/
theorem scope_operate {op : ScopeOperation} (hid : id < s.scopes.size) (h : s.ownerOf? op ≠ some id) :
    (s.operate op).2.scope id = s.scope id := by
  have away {scope : ScopeId} {name : Text} {owner : ScopeId} {b : Binding}
      (hr : s.resolve scope name = some (owner, b))
      (hne : ((s.resolve scope name).map Prod.fst) ≠ some id) : id ≠ owner := by
    rintro rfl
    rw [hr] at hne
    exact hne rfl
  unfold operate
  split
  · cases op with
    | define scope name v =>
      rw [carryOut_define]
      exact scope_bind_of_ne fun heq => h (congrArg some heq.symm)
    | declareConstant scope name v =>
      rw [carryOut_declareConstant]
      exact scope_bind_of_ne fun heq => h (congrArg some heq.symm)
    | assign scope name v =>
      rw [carryOut_assign]
      cases hok : s.assign scope name v with
      | ok t => rcases assign_eq_ok hok with ⟨-, rfl⟩ | ⟨_, _, -, -, -, rfl⟩ <;> rfl
      | error e => rfl
    | get scope name =>
      unfold carryOut
      dsimp only
      split <;> rfl
    | makeConstant scope name =>
      rw [carryOut_makeConstant, makeConstant]
      split
      · rfl
      · cases hr : s.resolve scope name with
        | none => rfl
        | some p => exact scope_updateScope_of_ne (away hr h) _
    | stripConstant scope name =>
      rw [carryOut_stripConstant, stripConstant]
      cases hr : s.resolve scope name with
      | none => rfl
      | some p => exact scope_updateScope_of_ne (away hr h) _
    | remove scope name =>
      rw [carryOut_remove]
      split
      · next hok =>
        rcases remove_eq_ok hok with ⟨-, rfl⟩ | ⟨_, _, hr, -, rfl⟩
        · rfl
        · exact scope_updateScope_of_ne (away hr h) _
      · rfl
    | cell scope name =>
      unfold carryOut
      dsimp only
      split <;> rfl
    | has | hasLocal | isConstant | readCell | writeCell => rfl
    | child scope =>
      show (s.newScope (some scope)).2.scope id = s.scope id
      rw [scope_newScope, if_neg (Nat.ne_of_lt hid)]
  · rfl

/-! ### The main statement -/

/-- Any operations on scopes, one after another, give the answers of the reference and lead to its
scopes; none that fails changes anything, and none changes another scope than the one it is about. -/
theorem answers_eq (ops : List ScopeOperation) :
    (rooted.answers ops).1 = (Stacks.rooted.answers ops).1 ∧
    (rooted.answers ops).2.Refines (Stacks.rooted.answers ops).2 ∧
    (∀ op e, ((rooted.answers ops).2.operate op).1 = .fault e →
      ((rooted.answers ops).2.operate op).2 = (rooted.answers ops).2) ∧
    (∀ op id, id < (rooted.answers ops).2.scopes.size → (rooted.answers ops).2.ownerOf? op ≠ some id →
      ((rooted.answers ops).2.operate op).2.scope id = (rooted.answers ops).2.scope id) ∧
    ∀ id, ((rooted.answers ops).2.scope id).constants ⊆
        ((rooted.answers ops).2.scope id).values.map Prod.fst ∧
      discard ∉ ((rooted.answers ops).2.scope id).values.map Prod.fst := by
  obtain ⟨hanswers, hrefines⟩ := Refines.rooted.answers ops
  exact ⟨hanswers, hrefines, fun _ _ => operate_fault, fun _ _ => scope_operate,
    fun id => ⟨hrefines.marked id, Scope.binds_eq_false_iff.1 (hrefines.discard id)⟩⟩

end Store

end ScriptLang
