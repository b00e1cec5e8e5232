import ScriptLang.Eval.State

/-!
# Names in scopes

A scope keeps the cells of its names and the marks of its constants apart. What is said of names looks at
the two together: a `Binding` of a scope is a name with its cell and with whether the name is marked.

For each change to names there is what it comes to on a whole store, in closed form: `Store.bind`,
`Store.assign`, `Store.makeConstant` and `Store.remove` give a new store or a fault, and
`Store.stripConstant` a new store. The changes themselves, which go step by step, come to just that, and
one that fails leaves the store as it was (`Naming.define_eq` and the other equations). Then come the
inversion lemmas, one for each operation, so that nothing else has to look into it.
-/

namespace ScriptLang

/-- A name bound in a scope. -/
structure Binding where
  /-- The name. -/
  name : Text
  /-- The cell that holds the value. -/
  cell : CellId
  /-- Whether the name is marked as a constant. -/
  constant : Bool := false
deriving DecidableEq, Repr

/-! ### Entries by their names -/

theorem mem_of_lookup {α : Type} {entries : List (Text × α)} {name : Text} {a : α}
    (h : entries.lookup name = some a) : (name, a) ∈ entries := by
  obtain ⟨l₁, l₂, rfl, -⟩ := List.lookup_eq_some_iff.1 h
  simp

theorem lookup_filter {α : Type} {entries : List (Text × α)} {name other : Text} :
    (entries.filter fun e => e.1 != name).lookup other =
      if other = name then none else entries.lookup other := by
  induction entries with
  | nil => split <;> rfl
  | cons e entries ih =>
    obtain ⟨k, a⟩ := e
    rw [List.filter_cons, List.lookup_cons]
    by_cases hk : k = name
    · subst hk
      rw [if_neg (by simp), ih]
      by_cases h : other = k
      · rw [if_pos h, if_pos h]
      · rw [if_neg h, if_neg h, beq_false_of_ne h]
    · rw [if_pos (by simpa using hk), List.lookup_cons, ih]
      by_cases h : other = k
      · subst h
        simp only [beq_self_eq_true, if_neg hk]
      · rw [beq_false_of_ne h]

/-! ### Bindings of a scope -/

namespace Scope

variable {scope : Scope} {name other : Text} {b : Binding} {c : CellId}

/-- The bindings of a scope. -/
def bindings (scope : Scope) : List Binding := scope.values.map fun e => ⟨e.1, e.2, scope.marks e.1⟩

/-- The scope with a cell for a name that is marked as a constant or not. -/
def bindAs (scope : Scope) (name : Text) (c : CellId) (constant : Bool) : Scope :=
  if constant then (scope.bind name c).mark name else scope.bind name c

/-- The binding of a name in a scope itself. -/
def find? (scope : Scope) (name : Text) : Option Binding :=
  (scope.cell? name).map fun c => ⟨name, c, scope.marks name⟩

theorem find?_eq_some : scope.find? name = some b ↔
    scope.cell? name = some b.cell ∧ b.name = name ∧ b.constant = scope.marks name := by
  unfold find?
  rw [Option.map_eq_some_iff]
  constructor
  · rintro ⟨c, hc, rfl⟩
    exact ⟨hc, rfl, rfl⟩
  · rintro ⟨hc, rfl, hb⟩
    exact ⟨b.cell, hc, by rw [← hb]⟩

theorem find?_eq_none : scope.find? name = none ↔ scope.cell? name = none := Option.map_eq_none_iff

theorem binds_eq_isSome (scope : Scope) (name : Text) :
    scope.binds name = (scope.find? name).isSome := Option.isSome_map.symm

theorem binds_of_find? (h : scope.find? name = some b) : scope.binds name = true := by
  rw [binds_eq_isSome, h]
  rfl

theorem exists_find? (h : scope.binds name = true) : ∃ b, scope.find? name = some b :=
  Option.isSome_iff_exists.1 ((binds_eq_isSome scope name).symm.trans h)

theorem find?_of_not_binds (h : scope.binds name = false) : scope.find? name = none := by
  rw [binds_eq_isSome] at h
  exact Option.isNone_iff_eq_none.1 (Option.isSome_eq_false_iff.1 h)

theorem mem_of_find? (h : scope.find? name = some b) : b ∈ scope.bindings := by
  obtain ⟨hc, rfl, hb⟩ := find?_eq_some.1 h
  exact List.mem_map.2 ⟨(b.name, b.cell), mem_of_lookup hc, by rw [← hb]⟩

theorem binds_iff_mem : scope.binds name = true ↔ name ∈ scope.values.map Prod.fst := by
  unfold binds cell?
  rw [List.lookup_isSome_iff, List.mem_map]
  exact exists_congr fun e => and_congr_right fun _ => beq_iff_eq.trans eq_comm

theorem binds_eq_false_iff : scope.binds name = false ↔ name ∉ scope.values.map Prod.fst := by
  rw [← Bool.not_eq_true, binds_iff_mem]

/-! ### A scope after a change -/

theorem cell?_bind : (scope.bind name c).cell? other = if other = name then some c else scope.cell? other := by
  unfold cell? bind
  rw [List.lookup_cons]
  by_cases h : other = name
  · simp [h]
  · simp [h, beq_false_of_ne h]

theorem cell?_unbind : (scope.unbind name).cell? other = if other = name then none else scope.cell? other :=
  lookup_filter

theorem marks_mark : (scope.mark name).marks other = (decide (other = name) || scope.marks other) := by
  unfold marks mark
  rw [Bool.eq_iff_iff]
  simp [List.mem_insert_iff]

theorem marks_unmark : (scope.unmark name).marks other = (!decide (other = name) && scope.marks other) := by
  unfold marks unmark
  rw [Bool.eq_iff_iff]
  simp [and_comm]

theorem find?_bind : (scope.bind name c).find? other =
    if other = name then some ⟨name, c, scope.marks name⟩ else scope.find? other := by
  unfold find?
  rw [cell?_bind]
  split
  · next h =>
    rw [h]
    rfl
  · rfl

theorem find?_mark : (scope.mark name).find? other =
    (scope.find? other).map fun b => if other = name then { b with constant := true } else b := by
  unfold find?
  rw [Option.map_map, marks_mark]
  congr 1
  funext c
  by_cases h : other = name
  · simp [h]
  · simp [h]

/-- A name is marked as a constant only if it was bound as one or if a mark was left from before. -/
theorem find?_bindAs {constant : Bool} : (scope.bindAs name c constant).find? other =
    if other = name then some ⟨name, c, constant || scope.marks name⟩ else scope.find? other := by
  unfold bindAs
  cases constant with
  | true =>
    rw [if_pos rfl, find?_mark, find?_bind]
    split
    · rfl
    · exact Option.map_id'
  | false => exact find?_bind

@[simp]
theorem values_bindAs {constant : Bool} :
    (scope.bindAs name c constant).values = (name, c) :: scope.values := by
  cases constant <;> rfl

@[simp]
theorem parent_bindAs {constant : Bool} : (scope.bindAs name c constant).parent = scope.parent := by
  cases constant <;> rfl

theorem marks_bindAs {constant : Bool} : (scope.bindAs name c constant).marks other =
    (decide (other = name) && constant || scope.marks other) := by
  cases constant with
  | true => exact marks_mark.trans (by rw [Bool.and_true]; rfl)
  | false => rw [Bool.and_false, Bool.false_or]; rfl

theorem constants_bindAs_subset {constant : Bool} :
    (scope.bindAs name c constant).constants ⊆ name :: scope.constants := by
  cases constant with
  | true => exact fun other hother => List.mem_cons.2 (List.mem_insert_iff.1 hother)
  | false => exact fun other hother => List.mem_cons_of_mem _ hother

theorem find?_unmark : (scope.unmark name).find? other =
    (scope.find? other).map fun b => if other = name then { b with constant := false } else b := by
  unfold find?
  rw [Option.map_map, marks_unmark]
  congr 1
  funext c
  by_cases h : other = name
  · simp [h]
  · simp [h]

theorem find?_unbind : ((scope.unbind name).unmark name).find? other =
    if other = name then none else scope.find? other := by
  rw [find?_unmark]
  unfold find?
  rw [cell?_unbind, Option.map_map]
  by_cases h : other = name
  · rw [if_pos h, if_pos h]
    rfl
  · rw [if_neg h, if_neg h]
    simp only [if_neg h]
    rfl

end Scope

namespace Store

variable {s t : Store} {id owner : ScopeId} {name : Text} {v : Value} {b : Binding}

/-! ### The scopes after a change -/

theorem scope_newScope (p : Option ScopeId) :
    (s.newScope p).2.scope id = if id = s.scopes.size then { parent := p } else s.scope id := by
  simp only [newScope, scope, Array.getD_eq_getD_getElem?, Array.getElem?_push]
  split <;> rfl

theorem scope_updateScope (f : Scope → Scope) :
    (s.updateScope owner f).scope id =
      if id = owner ∧ owner < s.scopes.size then f (s.scope owner) else s.scope id := by
  simp only [updateScope, scope, Array.getD_eq_getD_getElem?, Array.getElem?_modify]
  by_cases h : id = owner
  · subst h
    by_cases hs : id < s.scopes.size
    · simp [hs]
    · simp [hs]
  · rw [if_neg (fun h' => h h'.symm), if_neg (fun h' => h h'.1)]

theorem updateScope_updateScope (f g : Scope → Scope) :
    (s.updateScope id f).updateScope id g = s.updateScope id fun scope => g (f scope) := by
  unfold updateScope
  congr 1
  refine Array.ext (by simp) fun i hi _ => ?_
  simp only [Array.getElem_modify]
  split <;> rfl

theorem scope_of_scopes (h : t.scopes = s.scopes) : t.scope id = s.scope id := by
  unfold scope
  rw [h]

theorem scope_of_size_le (h : s.scopes.size ≤ id) : s.scope id = {} := by
  simp [scope, Array.getD_eq_getD_getElem?, Array.getElem?_eq_none h]

theorem lt_of_find? (h : (s.scope id).find? name = some b) : id < s.scopes.size := by
  refine Nat.lt_of_not_le fun hle => ?_
  rw [scope_of_size_le hle] at h
  cases h

/-! ### Finding a binding -/

/-- The innermost scope that binds a name, and the binding. -/
def resolve (s : Store) (id : ScopeId) (name : Text) : Option (ScopeId × Binding) :=
  (s.locate id name).map fun p => (p.1, ⟨name, p.2, (s.scope p.1).marks name⟩)

theorem resolve_eq_none : s.resolve id name = none ↔ s.locate id name = none := Option.map_eq_none_iff

theorem resolve_eq_some : s.resolve id name = some (owner, b) ↔
    s.locate id name = some (owner, b.cell) ∧ b.name = name ∧
      b.constant = (s.scope owner).marks name := by
  unfold resolve
  rw [Option.map_eq_some_iff]
  constructor
  · rintro ⟨p, hp, hb⟩
    cases hb
    exact ⟨hp, rfl, rfl⟩
  · rintro ⟨hp, rfl, hb⟩
    exact ⟨_, hp, by rw [← hb]⟩

theorem cell?_of_locateWithin {n : Nat} {c : CellId} (h : s.locateWithin name n id = some (owner, c)) :
    (s.scope owner).cell? name = some c := by
  induction n generalizing id with
  | zero => cases h
  | succ n ih =>
    simp only [locateWithin] at h
    split at h
    · cases h
      assumption
    · split at h
      · exact ih h
      · cases h

theorem find?_of_resolve (h : s.resolve id name = some (owner, b)) :
    (s.scope owner).find? name = some b := by
  obtain ⟨hlocate, hname, hb⟩ := resolve_eq_some.1 h
  exact Scope.find?_eq_some.2 ⟨cell?_of_locateWithin hlocate, hname, hb⟩

theorem resolve_of_find? (h : (s.scope id).find? name = some b) :
    s.resolve id name = some (id, b) := by
  have hid := lt_of_find? h
  obtain ⟨hc, hname, hb⟩ := Scope.find?_eq_some.1 h
  obtain ⟨n, hn⟩ := Nat.exists_eq_succ_of_ne_zero (Nat.ne_of_gt (Nat.zero_lt_of_lt hid))
  refine resolve_eq_some.2 ⟨?_, hname, hb⟩
  unfold locate
  rw [hn]
  unfold locateWithin
  simp only [hc]

/-- A scope that is not there binds nothing and is inside of no other. -/
theorem locate_of_size_le (h : s.scopes.size ≤ id) : s.locate id name = none := by
  unfold locate
  cases s.scopes.size with
  | zero => rfl
  | succ n =>
    unfold locateWithin
    rw [scope_of_size_le h]
    rfl

theorem resolve_of_size_le (h : s.scopes.size ≤ id) : s.resolve id name = none :=
  resolve_eq_none.2 (locate_of_size_le h)

/-! ### What is asked about names -/

theorem lookup_eq_ok (h : s.lookup id name = .ok v) :
    v = .nil ∨ ∃ owner b, (s.scope owner).find? name = some b ∧ v = s.read b.cell := by
  unfold lookup at h
  split at h
  · cases h
    exact .inl rfl
  · split at h
    · cases h
    · next owner c hc =>
      cases h
      exact .inr ⟨owner, _, find?_of_resolve (b := ⟨name, c, _⟩) (resolve_eq_some.2 ⟨hc, rfl, rfl⟩), rfl⟩

theorem lookup_of_resolve (hd : name ≠ discard) (h : s.resolve id name = some (owner, b)) :
    s.lookup id name = .ok (s.read b.cell) := by
  unfold lookup
  rw [if_neg hd, (resolve_eq_some.1 h).1]

theorem lookup_eq_error {e : NameFault} (h : s.lookup id name = .error e) :
    e.code ≠ .duplicateIdentifier := by
  unfold lookup at h
  split at h
  · cases h
  · split at h
    · cases h
      exact nofun
    · cases h

theorem has_eq (s : Store) (id : ScopeId) (name : Text) :
    s.has id name = (s.resolve id name).isSome := Option.isSome_map.symm

/-- The cell of a name is that of the binding that it means. -/
theorem cellOf_eq_ok {c : CellId} (h : s.cellOf id name = .ok c) :
    ∃ owner b, s.resolve id name = some (owner, b) ∧ c = b.cell := by
  unfold cellOf at h
  split at h
  · cases h
  · next owner c' hc =>
    cases h
    exact ⟨owner, ⟨name, c, _⟩, resolve_eq_some.2 ⟨hc, rfl, rfl⟩, rfl⟩

theorem cellOf_eq_error {c : NameFault} (h : s.cellOf id name = .error c) :
    c.code ≠ .duplicateIdentifier := by
  unfold cellOf at h
  split at h
  · cases h
    exact nofun
  · cases h

theorem isConstant_of_resolve (h : s.resolve id name = some (owner, b)) :
    s.isConstant id name = b.constant := by
  obtain ⟨hlocate, -, hb⟩ := resolve_eq_some.1 h
  unfold isConstant
  rw [hlocate, hb]

theorem constant_eq_false (h : s.isConstant id name = false) (hr : s.resolve id name = some (owner, b)) :
    b.constant = false := (isConstant_of_resolve hr).symm.trans h

/-! ### What changes come to -/

/-- The store with a new cell that a name of a scope is bound to. -/
def bound (s : Store) (id : ScopeId) (name : Text) (v : Value) (constant : Bool) : Store :=
  (s.newCell v).2.updateScope id fun scope => scope.bindAs name s.cells.size constant

/-- The store without the name of a scope, and without its mark. -/
def without (s : Store) (owner : ScopeId) (name : Text) : Store :=
  s.updateScope owner fun scope => (scope.unbind name).unmark name

/-- Bind a name in a scope, as a constant or not. -/
def bind (s : Store) (id : ScopeId) (name : Text) (v : Value) (constant : Bool) :
    Except NameFault Store :=
  if name = discard then .ok s
  else if (s.scope id).binds name then .error (.declaredTwice name)
  else .ok (s.bound id name v constant)

/-- Write to the innermost binding of a name. -/
def assign (s : Store) (id : ScopeId) (name : Text) (v : Value) : Except NameFault Store :=
  if name = discard then .ok s
  else match s.resolve id name with
    | none => .error (.undeclared name)
    | some (_, b) => if b.constant then .error (.constant name) else .ok (s.write b.cell v)

/-- Make a binding constant. -/
def makeConstant (s : Store) (id : ScopeId) (name : Text) : Except NameFault Store :=
  if name = discard then .ok s
  else match s.resolve id name with
    | none => .error (.undefined name)
    | some (owner, _) => .ok (s.updateScope owner fun scope => scope.mark name)

/-- Make a binding writable again. -/
def stripConstant (s : Store) (id : ScopeId) (name : Text) : Store :=
  match s.resolve id name with
  | none => s
  | some (owner, _) => s.updateScope owner fun scope => scope.unmark name

/-- Remove the innermost binding of a name; the result is the value it had. -/
def remove (s : Store) (id : ScopeId) (name : Text) : Except NameFault (Value × Store) :=
  if name = discard then .ok (.nil, s)
  else match s.resolve id name with
    | none => .error (.undefined name)
    | some (owner, b) => .ok (s.read b.cell, s.without owner name)

end Store

namespace Naming

variable (s : Store) (id : ScopeId) (name : Text) (v : Value)

/-- Where a change leaves off that either comes to a new store or fails: a failure leaves the store as it
was. -/
def settle (s : Store) : Except NameFault Store → EStateM.Result NameFault Store Unit
  | .ok t => .ok () t
  | .error e => .error e s

theorem get_bind {α : Type} (f : Store → Naming α) : (get >>= f) s = f s s := rfl

theorem define_eq : define id name v s = settle s (s.bind id name v false) := by
  unfold define Store.bind
  by_cases hd : name = discard
  · rw [if_pos hd, if_pos hd]
    rfl
  · rw [if_neg hd, if_neg hd]
    show (if (s.scope id).binds name then throw (NameFault.declaredTwice name) else _ : Naming Unit) s = _
    by_cases hb : (s.scope id).binds name = true
    · rw [if_pos hb, if_pos hb]
      rfl
    · rw [if_neg hb, if_neg hb]
      rfl

theorem declareConstant_eq : declareConstant id name v s = settle s (s.bind id name v true) := by
  have hdefine := define_eq s id name v
  show EStateM.bind (define id name v) _ s = _
  unfold EStateM.bind
  rw [hdefine]
  unfold Store.bind
  by_cases hd : name = discard
  · rw [if_pos hd, if_pos hd]
    show (if name ≠ discard then _ else pure () : Naming Unit) s = _
    rw [if_neg fun h => h hd]
    rfl
  · rw [if_neg hd, if_neg hd]
    by_cases hb : (s.scope id).binds name = true
    · rw [if_pos hb, if_pos hb]
      rfl
    · rw [if_neg hb, if_neg hb]
      show (if name ≠ discard then _ else pure () : Naming Unit) (s.bound id name v false) = _
      rw [if_pos hd]
      exact congrArg (EStateM.Result.ok ()) (Store.updateScope_updateScope ..)

theorem assign_eq : assign id name v s = settle s (s.assign id name v) := by
  unfold assign Store.assign
  by_cases hd : name = discard
  · rw [if_pos hd, if_pos hd]
    rfl
  · rw [if_neg hd, if_neg hd]
    rw [get_bind]
    unfold Store.resolve
    cases s.locate id name with
    | none => rfl
    | some p =>
      show (if (s.scope p.1).marks name then throw (NameFault.constant name) else _ : Naming Unit) s = _
      dsimp only [Option.map_some]
      by_cases hm : (s.scope p.1).marks name = true
      · rw [if_pos hm, if_pos hm]
        rfl
      · rw [if_neg hm, if_neg hm]
        rfl

theorem makeConstant_eq : makeConstant id name s = settle s (s.makeConstant id name) := by
  unfold makeConstant Store.makeConstant
  by_cases hd : name = discard
  · rw [if_pos hd, if_pos hd]
    rfl
  · rw [if_neg hd, if_neg hd]
    rw [get_bind]
    unfold Store.resolve
    cases s.locate id name <;> rfl

theorem stripConstant_eq : stripConstant id name s = .ok () (s.stripConstant id name) := by
  unfold stripConstant
  rw [get_bind]
  unfold Store.stripConstant Store.resolve
  cases s.locate id name <;> rfl

theorem remove_eq : remove id name s =
    match s.remove id name with
    | .ok (v, t) => .ok v t
    | .error e => .error e s := by
  unfold remove Store.remove
  by_cases hd : name = discard
  · rw [if_pos hd, if_pos hd]
    rfl
  · rw [if_neg hd, if_neg hd]
    rw [get_bind]
    unfold Store.resolve
    cases s.locate id name with
    | none => rfl
    | some p => exact congrArg (EStateM.Result.ok _) (Store.updateScope_updateScope ..)

end Naming

namespace Store

variable {s t : Store} {id owner scope : ScopeId} {name other : Text} {v : Value} {b : Binding}
  {constant : Bool}

/-! ### Binding -/

@[simp]
theorem cells_bound : (s.bound id name v constant).cells = s.cells.push v := rfl

@[simp]
theorem size_bound : (s.bound id name v constant).scopes.size = s.scopes.size := Array.size_modify

@[simp]
theorem cells_without : (s.without owner name).cells = s.cells := rfl

@[simp]
theorem size_without : (s.without owner name).scopes.size = s.scopes.size := Array.size_modify

/-- A binding that succeeds is of a new name in the scope, and its cell is new. -/
theorem bind_eq_ok (h : s.bind id name v constant = .ok t) :
    (name = discard ∧ t = s) ∨
    (name ≠ discard ∧ (s.scope id).binds name = false ∧ t = s.bound id name v constant) := by
  unfold bind at h
  split at h
  · next hd =>
    cases h
    exact .inl ⟨hd, rfl⟩
  · next hd =>
    split at h
    · cases h
    · next hb =>
      cases h
      exact .inr ⟨hd, by simpa using hb, rfl⟩

/-- A binding that fails repeats a name of the scope. -/
theorem bind_eq_error {e : NameFault} (h : s.bind id name v constant = .error e) :
    name ≠ discard ∧ (s.scope id).binds name = true ∧ e = .declaredTwice name := by
  unfold bind at h
  split at h
  · cases h
  · next hd =>
    split at h
    · next hb =>
      cases h
      exact ⟨hd, hb, rfl⟩
    · cases h

theorem bind_eq_error_of {constant' : Bool} {e : NameFault}
    (h : s.bind id name v constant = .error e) : s.bind id name v constant' = .error e := by
  obtain ⟨hd, hb, rfl⟩ := bind_eq_error h
  unfold bind
  rw [if_neg hd, if_pos hb]

/-- A scope with a new name. -/
theorem scope_bound : (s.bound owner name v constant).scope id =
    if id = owner ∧ owner < s.scopes.size then (s.scope owner).bindAs name s.cells.size constant
    else s.scope id :=
  scope_updateScope ..

theorem scope_without : (s.without owner name).scope id =
    if id = owner ∧ owner < s.scopes.size then ((s.scope owner).unbind name).unmark name
    else s.scope id :=
  scope_updateScope ..

/-- The names of a scope after a binding. -/
theorem mem_values_bound {e : Text × CellId} (h : e ∈ ((s.bound owner name v constant).scope id).values) :
    (id = owner ∧ e = (name, s.cells.size)) ∨ e ∈ (s.scope id).values := by
  rw [scope_bound] at h
  split at h
  · next hid =>
    rw [Scope.values_bindAs] at h
    exact (List.mem_cons.1 h).imp (fun he => ⟨hid.1, he⟩) fun he => hid.1 ▸ he
  · exact .inr h

theorem mem_values_without {e : Text × CellId} (h : e ∈ ((s.without owner name).scope id).values) :
    e ∈ (s.scope id).values := by
  rw [scope_without] at h
  split at h
  · next hid => exact hid.1 ▸ (List.mem_filter.1 h).1
  · exact h

/-- After a binding a scope binds the new name, and all else is bound as before. The name is a constant if
it was bound as one, or if it was marked before it was bound. -/
theorem find?_bound (hnew : (s.scope scope).binds name = false) :
    ((s.bound scope name v constant).scope id).find? other = some b ↔
      (id = scope ∧ scope < s.scopes.size ∧ other = name ∧
        b = ⟨name, s.cells.size, constant || (s.scope scope).marks name⟩) ∨
      (s.scope id).find? other = some b := by
  rw [scope_bound]
  split
  · next h =>
    obtain ⟨rfl, hscope⟩ := h
    rw [Scope.find?_bindAs]
    split
    · next hn =>
      rw [hn, Scope.find?_of_not_binds hnew]
      exact ⟨fun h => .inl ⟨rfl, hscope, rfl, (Option.some.inj h).symm⟩, fun h =>
        h.elim (fun h => congrArg some h.2.2.2.symm) nofun⟩
    · next hn => exact ⟨.inr, fun h => h.resolve_left fun h => hn h.2.2.1⟩
  · next h => exact ⟨.inr, fun h' => h'.resolve_left fun h' => h ⟨h'.1, h'.2.1⟩⟩

/-- A variable that is made a constant as soon as it is bound was bound as a constant. -/
theorem makeConstant_of_define (hid : id < s.scopes.size) (ht : s.bind id name v false = .ok t) :
    t.makeConstant id name = s.bind id name v true := by
  unfold makeConstant bind
  rcases bind_eq_ok ht with ⟨hd, rfl⟩ | ⟨hd, hb, rfl⟩
  · rw [if_pos hd, if_pos hd]
  · rw [if_neg hd, if_neg hd, if_neg (by simpa using hb)]
    have hfind : ((s.bound id name v false).scope id).find? name =
        some ⟨name, s.cells.size, false || (s.scope id).marks name⟩ :=
      (find?_bound hb).2 (.inl ⟨rfl, hid, rfl, rfl⟩)
    rw [resolve_of_find? hfind]
    exact congrArg Except.ok (updateScope_updateScope ..)

theorem makeConstant_of_size_le (hid : s.scopes.size ≤ id) (h : s.makeConstant id name = .ok t) :
    t = s := by
  unfold makeConstant at h
  rw [resolve_of_size_le hid] at h
  split at h
  · cases h
    rfl
  · cases h

theorem makeConstant_eq_error {e : NameFault} (h : s.makeConstant id name = .error e) :
    e.code ≠ .duplicateIdentifier := by
  unfold makeConstant at h
  split at h
  · cases h
  · split at h
    · cases h
      exact nofun
    · cases h

theorem size_bind (h : s.bind id name v constant = .ok t) : t.scopes.size = s.scopes.size := by
  rcases bind_eq_ok h with ⟨-, rfl⟩ | ⟨-, -, rfl⟩
  · rfl
  · exact size_bound

/-! ### Writing and removing -/

/-- A write to a name goes to the cell of a binding that is not a constant. -/
theorem assign_eq_ok (h : s.assign id name v = .ok t) :
    (name = discard ∧ t = s) ∨ ∃ owner b, s.resolve id name = some (owner, b) ∧ name ≠ discard ∧
      b.constant = false ∧ t = s.write b.cell v := by
  unfold assign at h
  split at h
  · next hd =>
    cases h
    exact .inl ⟨hd, rfl⟩
  · next hd =>
    split at h
    · cases h
    · next owner b hr =>
      split at h
      · cases h
      · next hb =>
        cases h
        exact .inr ⟨owner, b, hr, hd, by simpa using hb, rfl⟩

theorem assign_eq_error {e : NameFault} (h : s.assign id name v = .error e) :
    e.code ≠ .duplicateIdentifier := by
  unfold assign at h
  split at h
  · cases h
  · split at h
    · cases h
      exact nofun
    · split at h
      · cases h
        exact nofun
      · cases h

/-- What is removed is the binding that a name means, if the name is bound at all. -/
theorem remove_eq_ok (h : s.remove id name = .ok (v, t)) :
    (v = .nil ∧ t = s) ∨ ∃ owner b, s.resolve id name = some (owner, b) ∧ v = s.read b.cell ∧
      t = s.without owner name := by
  unfold remove at h
  split at h
  · cases h
    exact .inl ⟨rfl, rfl⟩
  · split at h
    · cases h
    · next owner b hr =>
      cases h
      exact .inr ⟨owner, b, hr, rfl, rfl⟩

theorem remove_eq_error {e : NameFault} (h : s.remove id name = .error e) :
    e.code ≠ .duplicateIdentifier := by
  unfold remove at h
  split at h
  · cases h
  · split at h
    · cases h
      exact nofun
    · cases h

/-! ### What is bound after a change -/

theorem find?_newScope {parent : Option ScopeId}
    (h : ((s.newScope parent).2.scope id).find? name = some b) :
    (s.scope id).find? name = some b := by
  rw [scope_newScope] at h
  split at h
  · cases h
  · exact h

theorem find?_newScope_of (parent : Option ScopeId) (h : (s.scope id).find? name = some b) :
    ((s.newScope parent).2.scope id).find? name = some b := by
  rw [scope_newScope, if_neg (Nat.ne_of_lt (lt_of_find? h))]
  exact h

/-- After a removal all other names are bound as before. -/
theorem find?_without : ((s.without owner name).scope id).find? other = some b ↔
    ¬(id = owner ∧ other = name) ∧ (s.scope id).find? other = some b := by
  rw [scope_without]
  split
  · next h =>
    obtain ⟨rfl, -⟩ := h
    rw [Scope.find?_unbind]
    split
    · next hn => exact ⟨nofun, fun h => absurd ⟨rfl, hn⟩ h.1⟩
    · next hn => exact ⟨fun h => ⟨fun h' => hn h'.2, h⟩, fun h => h.2⟩
  · next h =>
    refine ⟨fun h' => ⟨?_, h'⟩, fun h' => h'.2⟩
    rintro ⟨rfl, -⟩
    exact h ⟨rfl, lt_of_find? h'⟩

end Store

/-! ### In an evaluation -/

namespace Eval

/-- A change of the store that can fail. -/
def tryScope (f : Store → Except NameFault Store) : Eval Unit := fun _ st =>
  match f st.store with
  | .ok s => .ok () { st with store := s }
  | .error e => .error (.fault { code := e.code, message := e.message }) st

variable (scope : ScopeId) (name : Text) (v : Value)

/-- A change to names whose outcome is known. -/
theorem naming_eq {x : Naming Unit} {f : Store → Except NameFault Store}
    (h : ∀ s, x s = Naming.settle s (f s)) : naming x = tryScope f := by
  funext host st
  unfold naming tryScope
  dsimp only
  rw [h]
  cases f st.store <;> rfl

theorem define_eq : define scope name v = tryScope fun s => s.bind scope name v false :=
  naming_eq fun _ => Naming.define_eq ..

theorem declareConstant_eq :
    declareConstant scope name v = tryScope fun s => s.bind scope name v true :=
  naming_eq fun _ => Naming.declareConstant_eq ..

theorem introduce_eq (constant : Bool) :
    (if constant then declareConstant scope name v else define scope name v) =
      tryScope fun s => s.bind scope name v constant := by
  cases constant
  · exact define_eq scope name v
  · exact declareConstant_eq scope name v

theorem assign_eq : naming (Naming.assign scope name v) = tryScope fun s => s.assign scope name v :=
  naming_eq fun _ => Naming.assign_eq ..

theorem makeConstant_eq :
    naming (Naming.makeConstant scope name) = tryScope fun s => s.makeConstant scope name :=
  naming_eq fun _ => Naming.makeConstant_eq ..

/-- A removal gives the value that the name had. -/
theorem remove_eq (host : Host) (st : State) : naming (Naming.remove scope name) host st =
    match st.store.remove scope name with
    | .ok (v, t) => .ok v { st with store := t }
    | .error e => .error (.fault { code := e.code, message := e.message }) st := by
  unfold naming
  dsimp only
  rw [Naming.remove_eq]
  cases st.store.remove scope name <;> rfl

end Eval

end ScriptLang
