import ScriptLang.Library.Collections
import ScriptLang.Proofs.Store.Names
import ScriptLang.Value.Json

/-!
# What a store holds

A value lies in a store when a cell holds it or when it lies on the *heap*: in a slot of a block, in a
field of an object or in a collection. Whatever is read from a store is nil or lies in it, and after a
change only that lies in it which was there before or which the change put there. Everything that is
preserved by all evaluation because it is a property of single values rests on these lemmas.
-/

namespace ScriptLang

/-- The values in a collection. -/
def Collection.contents : Collection → List Value
  | set vs => vs
  | stack vs => vs
  | lru _ es _ => es.flatMap fun e => [e.1, e.2]

/-- Whether a value is neither a reference nor typed. -/
def Value.isRaw : Value → Bool
  | typed .. | reference .. => false
  | _ => true

/-- The fields after one was set. -/
theorem Fields.mem_set {fields : Fields} {name k : Text} {v w : Value} : (k, w) ∈ fields.set name v ↔
    (k = name ∧ w = v) ∨ (k ≠ name ∧ (k, w) ∈ fields) := by
  refine (insertEntry_perm ..).mem_iff.trans (List.mem_cons.trans ?_)
  rw [Prod.mk.injEq]
  refine or_congr_right ?_
  show (k, w) ∈ fields.entries.filter _ ↔ _
  rw [List.mem_filter, and_comm]
  simp only [bne_iff_ne]
  rfl

namespace Store

/-- Whether a value lies on the heap of a store. -/
inductive Heap (s : Store) (v : Value) : Prop
  /-- In a slot of a block. -/
  | slot {slots : Array Value} (hs : slots ∈ s.blocks) (h : v ∈ slots)
  /-- In a field of an object. -/
  | field {object : Object} {name : Text} (ho : object ∈ s.objects) (h : (name, v) ∈ object.fields)
  /-- In a collection. -/
  | member {content : Collection} (hc : content ∈ s.collections) (h : v ∈ content.contents)

variable {s t : Store} {v w : Value}

theorem mem_of_getD {α : Type} (xs : Array α) (i : Nat) (d : α) :
    xs.getD i d = d ∨ xs.getD i d ∈ xs := by
  rw [Array.getD_eq_getD_getElem?]
  cases h : xs[i]? with
  | none => exact .inl rfl
  | some x => exact .inr (Array.mem_of_getElem? h)

theorem mem_modify {α : Type} {xs : Array α} {i : Nat} {f : α → α} {x : α}
    (h : x ∈ xs.modify i f) : x ∈ xs ∨ ∃ y ∈ xs, x = f y := by
  obtain ⟨j, hj, rfl⟩ := Array.mem_iff_getElem.1 h
  rw [Array.size_modify] at hj
  rw [Array.getElem_modify]
  split
  · exact .inr ⟨_, Array.getElem_mem hj, rfl⟩
  · exact .inl (Array.getElem_mem hj)

/-! ### Reading -/

theorem mem_read (s : Store) (c : CellId) : s.read c = .nil ∨ s.read c ∈ s.cells :=
  mem_of_getD s.cells c .nil

/-- More steps lead to the same value. -/
theorem rawWithin_succ {n : Nat} (h : s.rawWithin n v = some w) : s.rawWithin (n + 1) v = some w := by
  induction n generalizing v with
  | zero =>
    unfold rawWithin at h ⊢
    split at h
    · exact h
    · cases h
    · exact h
  | succ n ih =>
    unfold rawWithin at h ⊢
    split at h
    · exact h
    · exact ih h
    · exact h

theorem read_of_cells (h : t.cells = s.cells) {c : CellId} : t.read c = s.read c := by
  unfold read
  rw [h]

/-- What is behind a value depends on cells only. -/
theorem raw?_of_cells (h : t.cells = s.cells) (v : Value) : t.raw? v = s.raw? v := by
  have key (n : Nat) : t.rawWithin n v = s.rawWithin n v := by
    induction n generalizing v with
    | zero =>
      unfold rawWithin
      rfl
    | succ n ih =>
      unfold rawWithin
      split
      · rfl
      · rw [read_of_cells h]
        exact ih _
      · rfl
  unfold raw?
  rw [h]
  exact key _

/-- What is behind a reference is behind the content of the cell. -/
theorem raw?_read {id : Nat} {c : CellId} (h : s.raw? (.reference id (some c)) = some w) :
    s.raw? (s.read c) = some w :=
  rawWithin_succ h

/-- What is behind all annotations and references is neither typed nor a reference. -/
theorem isRaw_of_raw? (h : s.raw? v = some w) : w.isRaw = true := by
  have untyped : ∀ u v : Value, u.untyped = v → (∀ id c, v ≠ .reference id c) → v.isRaw = true := by
    intro u
    induction u with
    | typed u _ ih => exact ih
    | reference => exact fun v hv hne => absurd hv.symm (hne _ _)
    | _ => exact fun v hv _ => hv ▸ rfl
  suffices key : ∀ (n : Nat) (v : Value), s.rawWithin n v = some w → w.isRaw = true from key _ _ h
  intro n
  induction n with
  | zero =>
    intro v h
    unfold rawWithin at h
    split at h
    · cases h
      rfl
    · cases h
    · next hne hsome =>
      cases h
      exact untyped _ _ rfl fun id c hc => by cases c with
        | none => exact hne _ hc
        | some c => exact hsome _ _ hc
  | succ n ih =>
    intro v h
    unfold rawWithin at h
    split at h
    · cases h
      rfl
    · exact ih _ h
    · next hne hsome =>
      cases h
      exact untyped _ _ rfl fun id c hc => by cases c with
        | none => exact hne _ hc
        | some c => exact hsome _ _ hc

theorem heap_of_mem_slots {b : Nat} (h : v ∈ s.slots b) : s.Heap v := by
  rcases mem_of_getD s.blocks b #[] with hb | hb
  · unfold slots at h
    rw [hb] at h
    exact absurd h (Array.not_mem_empty v)
  · exact .slot hb h

theorem heap_slot (s : Store) (b i : Nat) : s.slot b i = .nil ∨ s.Heap (s.slot b i) :=
  (mem_of_getD (s.slots b) i .nil).imp id heap_of_mem_slots

theorem heap_of_mem_elements {a : ArrayId} (h : v ∈ s.elements a) : s.Heap v :=
  heap_of_mem_slots (Array.mem_toList_iff.1 (List.mem_of_mem_take h))

theorem heap_of_mem_fields {o : ObjectId} {name : Text} (h : (name, v) ∈ s.fields o) :
    s.Heap v := by
  rcases mem_of_getD s.objects o {} with ho | ho
  · unfold fields at h
    rw [ho] at h
    exact absurd h List.not_mem_nil
  · exact .field ho h

theorem mem_of_get? {fields : Fields} {name : Text} (h : fields.get? name = some v) :
    (name, v) ∈ fields :=
  mem_of_lookup h

theorem heap_of_get? {o : ObjectId} {name : Text} (h : (s.fields o).get? name = some v) :
    s.Heap v :=
  heap_of_mem_fields (mem_of_get? h)

theorem heap_of_mem_contents {c : CollectionId} (h : v ∈ (s.collection c).contents) :
    s.Heap v := by
  rcases mem_of_getD s.collections c (.stack []) with hc | hc
  · unfold collection at h
    rw [hc] at h
    exact absurd h List.not_mem_nil
  · exact .member hc h

/-! ### Changes of cells and scopes -/

theorem heap_congr (h : t.Heap v) (hb : t.blocks = s.blocks) (ho : t.objects = s.objects)
    (hk : t.collections = s.collections) : s.Heap v := by
  cases h with
  | slot hs h => exact .slot (hb ▸ hs) h
  | field hf h => exact .field (ho ▸ hf) h
  | member hm h => exact .member (hk ▸ hm) h

theorem read_newCell {c : CellId} (hc : c < s.cells.size) : (s.newCell v).2.read c = s.read c := by
  simp [newCell, read, Array.getD_eq_getD_getElem?, Array.getElem?_push, Nat.ne_of_lt hc]

theorem read_newCell_self : (s.newCell v).2.read s.cells.size = v := by
  simp [newCell, read, Array.getD_eq_getD_getElem?]

theorem read_write {c d : CellId} (hd : d < s.cells.size) :
    (s.write c v).read d = if c = d then v else s.read d := by
  simp only [write, read, Array.getD_eq_getD_getElem?, Array.getElem?_setIfInBounds]
  by_cases h : c = d
  · subst h
    simp [hd]
  · simp [h]

theorem size_write {c : CellId} : (s.write c v).cells.size = s.cells.size :=
  Array.size_setIfInBounds

theorem read_of_size_le {c : CellId} (h : s.cells.size ≤ c) : s.read c = .nil := by
  unfold read
  rw [Array.getD_eq_getD_getElem?, Array.getElem?_eq_none h, Option.getD_none]

theorem read_write_of_ne {c d : CellId} (h : c ≠ d) : (s.write c v).read d = s.read d := by
  by_cases hd : d < s.cells.size
  · rw [read_write hd, if_neg h]
  · have hd := Nat.le_of_not_lt hd
    rw [read_of_size_le hd, read_of_size_le (by rwa [size_write])]

/-! ### Changes of arrays -/

theorem heap_of_blocks (h : t.Heap w) (ho : t.objects = s.objects)
    (hk : t.collections = s.collections)
    (hb : ∀ slots ∈ t.blocks, ∀ w ∈ slots, s.Heap w ∨ w = v ∨ w = .nil) :
    s.Heap w ∨ w = v ∨ w = .nil := by
  cases h with
  | slot hs h => exact hb _ hs _ h
  | field hf h => exact .inl (.field (ho ▸ hf) h)
  | member hm h => exact .inl (.member (hk ▸ hm) h)

theorem heap_newArray {elems : List Value} {n : Nat} (h : (s.newArray elems n).2.Heap w) :
    s.Heap w ∨ w ∈ elems ∨ w = .nil := by
  cases h with
  | slot hs h =>
    rcases Array.mem_push.1 hs with hs | rfl
    · exact .inl (.slot hs h)
    · rcases Array.mem_append.1 h with h | h
      · exact .inr (.inl (List.mem_toArray.1 h))
      · exact .inr (.inr (Array.mem_replicate.1 h).2)
  | field hf h => exact .inl (.field hf h)
  | member hm h => exact .inl (.member hm h)

theorem heap_writeSlot {b i : Nat} (h : (s.writeSlot b i v).Heap w) :
    s.Heap w ∨ w = v ∨ w = .nil := by
  refine heap_of_blocks h rfl rfl fun slots hs w hw => ?_
  simp only [writeSlot] at hs
  rcases mem_modify hs with hs | ⟨old, hold, rfl⟩
  · exact .inl (.slot hs hw)
  · rcases Array.mem_or_eq_of_mem_setIfInBounds hw with hw | rfl
    · exact .inl (.slot hold hw)
    · exact .inr (.inl rfl)

theorem heap_setElement {a : ArrayId} {i : Nat} (h : (s.setElement a i v).Heap w) :
    s.Heap w ∨ w = v ∨ w = .nil :=
  heap_writeSlot h

theorem heap_push {a : ArrayId} (h : (s.push a v).Heap w) : s.Heap w ∨ w = v ∨ w = .nil := by
  simp only [push] at h
  split at h
  · exact heap_writeSlot (heap_congr h rfl rfl rfl)
  · refine heap_of_blocks h rfl rfl fun slots hs w hw => ?_
    rcases Array.mem_push.1 hs with hs | rfl
    · exact .inl (.slot hs hw)
    · rcases Array.mem_append.1 hw with hw | hw
      · exact (Array.mem_push.1 hw).imp heap_of_mem_slots .inl
      · exact .inr (.inr (Array.mem_replicate.1 hw).2)

theorem heap_dropLast {a : ArrayId} (h : (s.dropLast a).Heap w) : s.Heap w :=
  heap_congr h rfl rfl rfl

/-- Moving elements down by one slot keeps what the slots hold. -/
theorem mem_shift {slots old : Array Value} (is : List Nat)
    (hs : ∀ w ∈ slots, w ∈ old ∨ w = .nil) :
    ∀ w ∈ is.foldl (fun slots k => slots.setIfInBounds k (slots.getD (k + 1) .nil)) slots,
      w ∈ old ∨ w = .nil := by
  induction is generalizing slots with
  | nil => exact hs
  | cons i is ih =>
    refine ih fun w hw => ?_
    rcases Array.mem_or_eq_of_mem_setIfInBounds hw with hw | rfl
    · exact hs w hw
    · rcases mem_of_getD slots (i + 1) .nil with h | h
      · exact .inr h
      · exact hs _ h

theorem heap_removeElement {a : ArrayId} {i : Nat} (h : (s.removeElement a i).Heap w) :
    s.Heap w ∨ w = .nil := by
  have key : s.Heap w ∨ w = .nil ∨ w = .nil := by
    refine heap_of_blocks h rfl rfl fun slots hs w hw => ?_
    simp only [removeElement] at hs
    rcases mem_modify hs with hs | ⟨old, hold, rfl⟩
    · exact .inl (.slot hs hw)
    · rcases mem_shift _ (fun _ h => .inl h) w hw with hw | rfl
      · exact .inl (.slot hold hw)
      · exact .inr (.inl rfl)
  exact key.imp id (fun h => h.elim id id)

/-! ### Changes of objects -/

theorem mem_set {fields : Fields} {name k : Text} (h : (k, w) ∈ fields.set name v) :
    (k, w) ∈ fields ∨ w = v :=
  (Fields.mem_set.1 h).elim (fun h => .inr h.2) fun h => .inl h.2

/-- The fields that a list of writes leaves hold only values of the list. -/
theorem mem_ofList {entries : List (Text × Value)} {k : Text} (h : (k, w) ∈ Fields.ofList entries) :
    ∃ e ∈ entries, w = e.2 := by
  suffices key : ∀ (start : Fields),
      (k, w) ∈ entries.foldl (fun fields e => fields.set e.1 e.2) start →
      (k, w) ∈ start ∨ ∃ e ∈ entries, w = e.2 by
    exact (key {} h).resolve_left List.not_mem_nil
  clear h
  induction entries with
  | nil => exact fun _ h => .inl h
  | cons e entries ih =>
    intro start h
    rcases ih _ h with h | ⟨e', he', rfl⟩
    · rcases mem_set h with h | rfl
      · exact .inl h
      · exact .inr ⟨e, List.mem_cons_self, rfl⟩
    · exact .inr ⟨e', List.mem_cons_of_mem _ he', rfl⟩

/-- A new instance has nil in its fields. -/
theorem eq_nil_of_mem_ofList {fields : List Param} {k : Text}
    (h : (k, w) ∈ Fields.ofList (fields.map fun f => (f.name, Value.nil))) : w = .nil := by
  obtain ⟨e, he, rfl⟩ := mem_ofList h
  obtain ⟨f, -, rfl⟩ := List.mem_map.1 he
  rfl

theorem heap_newObject {fields : Fields} {type : Option StructType}
    (h : (s.newObject fields type).2.Heap w) :
    s.Heap w ∨ ∃ name, (name, w) ∈ fields := by
  cases h with
  | slot hs h => exact .inl (.slot hs h)
  | field hf h =>
    rcases Array.mem_push.1 hf with hf | rfl
    · exact .inl (.field hf h)
    · exact .inr ⟨_, h⟩
  | member hm h => exact .inl (.member hm h)

theorem heap_updateObject {o : ObjectId} {f : Fields → Fields}
    (hf : ∀ fields k w, (k, w) ∈ f fields → (k, w) ∈ fields ∨ w = v)
    (h : (s.updateObject o f).Heap w) : s.Heap w ∨ w = v := by
  cases h with
  | slot hs h => exact .inl (.slot hs h)
  | field hm h =>
    have hm : _ ∈ s.objects.modify o fun object => { object with fields := f object.fields } := hm
    rcases mem_modify hm with hm | ⟨old, hold, rfl⟩
    · exact .inl (.field hm h)
    · exact (hf _ _ _ h).imp (.field hold) id
  | member hm h => exact .inl (.member hm h)

/-! ### Changes of collections -/

theorem heap_newCollection {content : Collection} (h : (s.newCollection content).2.Heap w) :
    s.Heap w ∨ w ∈ content.contents := by
  cases h with
  | slot hs h => exact .inl (.slot hs h)
  | field hf h => exact .inl (.field hf h)
  | member hm h =>
    rcases Array.mem_push.1 hm with hm | rfl
    · exact .inl (.member hm h)
    · exact .inr h

theorem heap_setCollection {c : CollectionId} {content : Collection}
    (h : (s.setCollection c content).Heap w) : s.Heap w ∨ w ∈ content.contents := by
  cases h with
  | slot hs h => exact .inl (.slot hs h)
  | field hf h => exact .inl (.field hf h)
  | member hm h =>
    rcases Array.mem_or_eq_of_mem_setIfInBounds hm with hm | rfl
    · exact .inl (.member hm h)
    · exact .inr h

end Store

end ScriptLang
