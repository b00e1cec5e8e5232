import ScriptLang.Proofs.Eval.Sound

/-!
# Changes of the store in accordance with a law

One rule for each primitive change of the store. Changes of arrays, objects and collections are in
accordance with a law when they put only values on the heap that may lie there. Of changes of cells and
scopes a law says itself when they are; nothing else in the evaluator changes them.
-/

namespace ScriptLang

open Eval

namespace Law.Pairing.Sound

variable {L : Law} {K : L.Pairing} {ε : Effect} {s : State} {α β : Type}
variable {Q : Store → α → Prop} {R : Store → β → Prop} {v w : Value}

theorem change {f : Store → α × Store} (hle : L.le noNames s.store (f s.store).2)
    (hinv : L.Inv s.store → L.Inv (f s.store).2)
    (hQ : L.Inv (f s.store).2 → Q (f s.store).2 (f s.store).1) :
    K.Sound ε s (Eval.change f) (Eval.change f) Q :=
  of_same (fun hs _ => ⟨le_quiet hle, .of_store, hinv hs, hQ (hinv hs)⟩) (fun _ _ _ => rfl)
    fun _ => rfl

/-! ### Arrays, objects and collections -/

/-- A change of the store apart from cells and scopes. -/
theorem changeHeap {f : Store → α × Store} (hc : (f s.store).2.cells = s.store.cells)
    (hs : (f s.store).2.scopes = s.store.scopes) (hf : s.store.ChecksFields (f s.store).2)
    (hv : ∀ v, (f s.store).2.Heap v → s.store.Heap v ∨ L.Bare s.store v)
    (hQ : Q (f s.store).2 (f s.store).1) :
    K.Sound ε s (Eval.change f) (Eval.change f) Q := by
  have hle : L.le noNames s.store (f s.store).2 := (L.heap hc hs hf).1
  refine change hle (fun hi => ?_) fun _ => hQ
  refine ⟨(L.heap hc hs hf (B := noNames)).2 hi.keeps, fun v h => ?_, fun v h => ?_⟩
  · rw [hc] at h
    exact (hi.cells v h).mono hle
  · exact ((hv v h).elim (hi.heap v) id).mono hle

theorem update {f : Store → Store} (hc : (f s.store).cells = s.store.cells)
    (hs : (f s.store).scopes = s.store.scopes) (hf : s.store.ChecksFields (f s.store))
    (hv : ∀ v, (f s.store).Heap v → s.store.Heap v ∨ L.Bare s.store v) :
    K.Sound ε s (Eval.update f) (Eval.update f) fun _ _ => True :=
  changeHeap (f := fun st => ((), f st)) hc hs hf hv trivial

theorem newNumber : K.Sound ε s Eval.newNumber Eval.newNumber fun _ _ => True :=
  changeHeap rfl rfl (.of_objects rfl) (fun _ h => .inl (Store.heap_congr h rfl rfl rfl)) trivial

theorem newArrayId {elems : List Value} {n : Nat} (h : ∀ v ∈ elems, L.Bare s.store v) :
    K.Sound ε s (Eval.change fun st => st.newArray elems n)
      (Eval.change fun st => st.newArray elems n) fun _ _ => True := by
  refine changeHeap rfl rfl (.of_objects rfl) (fun v hv => ?_) trivial
  rcases Store.heap_newArray hv with hv | hv | rfl
  · exact .inl hv
  · exact .inr (h v hv)
  · exact .inr bare_nil

theorem newArray {elems : List Value} (h : ∀ v ∈ elems, L.Bare s.store v) :
    K.Sound ε s (Eval.newArray elems) (Eval.newArray elems) L.Good :=
  map (newArrayId h) fun _ _ _ _ => trivial

theorem grownArray {elems : List Value} (h : ∀ v ∈ elems, L.Bare s.store v) :
    K.Sound ε s (Eval.grownArray elems) (Eval.grownArray elems) L.Good :=
  map (newArrayId h) fun _ _ _ _ => trivial

theorem newObjectId {fields : Fields} {type : Option StructType}
    (h : ∀ name v, (name, v) ∈ fields → L.Bare s.store v)
    (hf : s.store.ChecksFields (s.store.newObject fields type).2) :
    K.Sound ε s (Eval.change fun st => st.newObject fields type)
      (Eval.change fun st => st.newObject fields type) fun _ _ => True := by
  refine changeHeap rfl rfl hf (fun v hv => ?_) trivial
  rcases Store.heap_newObject hv with hv | ⟨name, hv⟩
  · exact .inl hv
  · exact .inr (h name v hv)

/-- A new object from a list of fields. -/
theorem newObject {entries : List (Text × Value)} (h : ∀ e ∈ entries, L.Bare s.store e.2) :
    K.Sound ε s (Eval.newObject (Fields.ofList entries)) (Eval.newObject (Fields.ofList entries))
      L.Bare := by
  refine map (newObjectId (fun name v hv => ?_) (Store.SameInstances.newObject _).checks)
    fun _ _ _ _ => .of trivial nofun
  obtain ⟨e, he, rfl⟩ := Store.mem_ofList hv
  exact h e he

theorem updateObject {o : ObjectId} {f : Fields → Fields} (hv : L.Bare s.store v)
    (hf : ∀ fields k w, (k, w) ∈ f fields → (k, w) ∈ fields ∨ w = v)
    (hchecks : s.store.ChecksFields (s.store.updateObject o f)) :
    K.Sound ε s (Eval.update fun st => st.updateObject o f)
      (Eval.update fun st => st.updateObject o f) fun _ _ => True := by
  refine update rfl rfl hchecks fun w hw => ?_
  rcases Store.heap_updateObject hf hw with hw | rfl
  · exact .inl hw
  · exact .inr hv

/-! ### Cells -/

theorem newCell (hv : L.Good s.store v) :
    K.Sound ε s (Eval.change fun st => st.newCell v) (Eval.change fun st => st.newCell v)
      L.cell := by
  refine of_inv fun hs => ?_
  obtain ⟨hle, hkeeps, hcell⟩ := L.newCell v hs.keeps hv.refersTo
  refine change hle (fun _ => ⟨hkeeps, fun w hw => ?_, fun w hw => ?_⟩) fun _ => hcell
  · rcases Array.mem_push.1 hw with hw | rfl
    · exact (hs.cells w hw).mono hle
    · exact hv.mono hle
  · exact (hs.heap w (Store.heap_congr hw rfl rfl rfl)).mono hle

/-- What is known after a write to a cell. -/
theorem written {c : CellId} (hs : L.Inv s.store) (hv : L.Good s.store v)
    (hc : L.cell s.store c ∨ ∃ owner name b, (s.store.scope owner).find? name = some b ∧
      b.constant = false ∧ c = b.cell) (hr : v.Replaces L.stored (s.store.read c))
    (hallows : L.allows s.store c v) :
    L.le noNames s.store (s.store.write c v) ∧ L.Inv (s.store.write c v) := by
  obtain ⟨hle, hkeeps⟩ := L.write hs.keeps hc hr hv.refersTo hallows
  refine ⟨hle, hkeeps, fun w hw => ?_, fun w hw => ?_⟩
  · rcases Array.mem_or_eq_of_mem_setIfInBounds hw with hw | rfl
    · exact (hs.cells w hw).mono hle
    · exact hv.mono hle
  · exact (hs.heap w (Store.heap_congr hw rfl rfl rfl)).mono hle

theorem writeCell {c : CellId} (hv : L.Good s.store v) (hc : L.cell s.store c)
    (hr : v.Replaces L.stored (s.store.read c)) (hallows : L.allows s.store c v) :
    K.Sound ε s (Eval.update fun st => st.write c v) (Eval.update fun st => st.write c v)
      fun _ _ => True :=
  of_inv fun hs =>
    have h := written hs hv (.inl hc) hr hallows
    change (f := fun st => ((), st.write c v)) h.1 (fun _ => h.2) fun _ => trivial

/-! ### Scopes -/

theorem newScopeOf (parent : Option ScopeId) :
    K.Sound ε s (Eval.change fun st => st.newScope parent)
      (Eval.change fun st => st.newScope parent) fun t id =>
        (L.ready t id [] ∧ (t.scope id).values = []) ∧ s.store.scopes.size ≤ id := by
  refine of_inv fun hs => ?_
  obtain ⟨hle, hkeeps, hready⟩ := L.newScope parent hs.keeps
  refine change hle (fun _ => ⟨hkeeps, fun w hw => ?_, fun w hw => ?_⟩) fun _ =>
    ⟨⟨hready, ?_⟩, Nat.le_refl _⟩
  · exact (hs.cells w hw).mono hle
  · exact (hs.heap w (Store.heap_congr hw rfl rfl rfl)).mono hle
  · rw [Store.scope_newScope]
    exact congrArg Scope.values (if_pos rfl)

theorem newScope (parent : ScopeId) :
    K.Sound ε s (Eval.newScope parent) (Eval.newScope parent) fun t id =>
      (L.ready t id [] ∧ (t.scope id).values = []) ∧ s.store.scopes.size ≤ id :=
  newScopeOf _

/-- Work in a scope that was made for it: what it binds there does not count. -/
theorem inScope {x y : Eval ScopeId} {f g : ScopeId → Eval β} {P : Store → ScopeId → Prop}
    (hx : K.Sound ε s x y fun t id => P t id ∧ s.store.scopes.size ≤ id)
    (hf : ∀ id t, L.le ε.binds s.store t.store → L.Inv t.store → P t.store id →
      K.Sound ⟨fun i name => i = id ∨ ε.binds i name, ε.leaves⟩ t (f id) (g id) R) :
    K.Sound ε s (x >>= f) (y >>= g) R :=
  bind_of (ζ := fun id => ⟨fun i name => i = id ∨ ε.binds i name, ε.leaves⟩) hx (Effect.le_refl ε)
    (fun _ _ h => h) (fun _ _ _ h hst htu => L.le_fresh hst h.2 htu)
    fun id t hst ht h => hf id t hst ht h.1

/-- A change of a scope that can fail. -/
theorem tryScope {f : Store → Except NameFault Store} {Q : Store → Unit → Prop}
    (hok : ∀ t, L.Inv s.store → f s.store = .ok t → L.le ε.binds s.store t ∧ L.Inv t ∧ Q t ())
    (herr : ∀ e, L.Inv s.store → f s.store = .error e →
      L.fails (.fault { code := e.code, message := e.message })) :
    K.Sound ε s (Eval.tryScope f) (Eval.tryScope f) Q := by
  refine of_same (fun hs h => ?_) (fun _ _ _ => rfl) fun h => ?_
  · unfold Eval.tryScope
    cases hf : f s.store with
    | ok t =>
      obtain ⟨hle, ht, hQ⟩ := hok t hs hf
      exact ⟨hle, .of_store, ht, hQ⟩
    | error e => exact ⟨L.le_refl, .refl, hs, herr e hs hf⟩
  · unfold Eval.tryScope
    cases f s.store <;> rfl

/-- A declaration in a scope that is ready for it. -/
theorem bindName {scope : ScopeId} {names : List Text} {name : Text} {constant : Bool} {x : Eval Unit}
    (hx : x = Eval.tryScope fun st => st.bind scope name v constant) (hε : ε.binds scope name)
    (hready : L.ready s.store scope names) (hname : L.tracks → name ≠ [])
    (hnew : L.tracks → Check.binds name = true → name ∉ names)
    (hv : L.Good s.store v) :
    K.Sound ε s x x fun t _ => L.ready t scope (Check.declare names name) ∧
      s.store.bind scope name v constant = .ok t := by
  rw [hx]
  refine tryScope (fun t hs ht => ?_) fun e hs he => L.bind_fails hs.keeps hready hnew hname he
  obtain ⟨hle, hkeeps, hready'⟩ := L.bind hs.keeps hready hname hv.refersTo ht
  refine ⟨L.le_mono ?_ hle, ⟨hkeeps, fun w hw => ?_, fun w hw => ?_⟩, hready', ht⟩
  · rintro i n ⟨rfl, rfl⟩
    exact hε
  · rcases Store.bind_eq_ok ht with ⟨-, rfl⟩ | ⟨-, -, rfl⟩
    · exact hs.cells w hw
    · rcases Array.mem_push.1 hw with hw | rfl
      · exact (hs.cells w hw).mono hle
      · exact hv.mono hle
  · rcases Store.bind_eq_ok ht with ⟨-, rfl⟩ | ⟨-, -, rfl⟩
    · exact hs.heap w hw
    · exact (hs.heap w (Store.heap_congr hw rfl rfl rfl)).mono hle

end Law.Pairing.Sound

end ScriptLang
