import ScriptLang.Proofs.Store.Content
import ScriptLang.Proofs.Store.Names
import ScriptLang.Proofs.Syntax.Spans

/-!
# Compartments

Code that was never handed anything of a store cannot get at it. A *compartment* is given by the store
before that code ran, its `origin`: the things of the origin are outside, and all later ones are inside.
A value is good if it names things inside only, and a store is *sealed* if it still holds the origin as
it was and everything inside refers to things inside only. Every change of the store that is made with
good values keeps it sealed.

A compartment also says which spans the nodes of programs may have, so that good values carry only code
with such spans. The compartment whose origin is the empty store asks nothing else.

One array inside can be *put aside*: then nothing is good that names it, and since no other array has its
block, a store that stays sealed keeps its elements.
-/

namespace ScriptLang

/-- An array that starts with the elements of another one; those that it has besides have a property. -/
structure Extends {α : Type} (old new : Array α) (p : α → Prop) : Prop where
  /-- No element is missing. -/
  size_le : old.size ≤ new.size
  /-- The elements of the old array are as they were. -/
  kept : ∀ i < old.size, new[i]? = old[i]?
  /-- The other elements have the property. -/
  added : ∀ i x, old.size ≤ i → new[i]? = some x → p x

namespace Extends

variable {α : Type} {old new : Array α} {p q : α → Prop} {i : Nat} {x d : α} {f : α → α}

theorem refl (old : Array α) (p : α → Prop) : Extends old old p where
  size_le := Nat.le_refl _
  kept _ _ := rfl
  added i x hi hx := by
    rw [Array.getElem?_eq_none hi] at hx
    cases hx

theorem trans {newer : Array α} (h : Extends old new p) (h' : Extends new newer p) :
    Extends old newer p where
  size_le := Nat.le_trans h.size_le h'.size_le
  kept i hi := (h'.kept i (Nat.lt_of_lt_of_le hi h.size_le)).trans (h.kept i hi)
  added i x hi hx := by
    by_cases hlt : i < new.size
    · exact h.added i x hi (h'.kept i hlt ▸ hx)
    · exact h'.added i x (Nat.le_of_not_lt hlt) hx

theorem mono (h : Extends old new p) (hpq : ∀ x, p x → q x) : Extends old new q :=
  ⟨h.size_le, h.kept, fun i x hi hx => hpq x (h.added i x hi hx)⟩

theorem push (h : Extends old new p) (hx : p x) : Extends old (new.push x) p where
  size_le := by
    rw [Array.size_push]
    exact Nat.le_succ_of_le h.size_le
  kept i hi := by
    rw [Array.getElem?_push, if_neg (Nat.ne_of_lt (Nat.lt_of_lt_of_le hi h.size_le))]
    exact h.kept i hi
  added i y hi hy := by
    rw [Array.getElem?_push] at hy
    split at hy
    · cases hy
      exact hx
    · exact h.added i y hi hy

theorem modify (h : Extends old new p) (hi : old.size ≤ i)
    (hf : ∀ x, new[i]? = some x → p x → p (f x)) : Extends old (new.modify i f) p where
  size_le := by
    rw [Array.size_modify]
    exact h.size_le
  kept j hj := by
    rw [Array.getElem?_modify, if_neg (Nat.ne_of_gt (Nat.lt_of_lt_of_le hj hi))]
    exact h.kept j hj
  added j y hj hy := by
    rw [Array.getElem?_modify] at hy
    split at hy
    · next hij =>
      obtain ⟨x, hx, rfl⟩ := Option.map_eq_some_iff.1 hy
      exact hf x (hij ▸ hx) (h.added j x hj hx)
    · exact h.added j y hj hy

theorem set (h : Extends old new p) (hi : old.size ≤ i) (hx : p x) :
    Extends old (new.setIfInBounds i x) p where
  size_le := by
    rw [Array.size_setIfInBounds]
    exact h.size_le
  kept j hj := by
    rw [Array.getElem?_setIfInBounds_ne (Nat.ne_of_gt (Nat.lt_of_lt_of_le hj hi))]
    exact h.kept j hj
  added j y hj hy := by
    rw [Array.getElem?_setIfInBounds] at hy
    split at hy
    · split at hy
      · cases hy
        exact hx
      · cases hy
    · exact h.added j y hj hy

/-- What is read at a new position has the property, if the default has it. -/
theorem getD (h : Extends old new p) (hi : old.size ≤ i) (hd : p d) : p (new.getD i d) := by
  rw [Array.getD_eq_getD_getElem?]
  cases hx : new[i]? with
  | none => exact hd
  | some x => exact h.added i x hi hx

/-- What is read at an old position is as it was. -/
theorem getD_kept (h : Extends old new p) (hi : i < old.size) : new.getD i d = old.getD i d := by
  rw [Array.getD_eq_getD_getElem?, Array.getD_eq_getD_getElem?, h.kept i hi]

end Extends

/-- Whether every block has at least the room that it had before. -/
def Roomier (old new : Array (Array Value)) : Prop :=
  ∀ (b : Nat) (slots : Array Value), old[b]? = some slots →
    ∃ slots', new[b]? = some slots' ∧ slots.size ≤ slots'.size

namespace Roomier

variable {blocks : Array (Array Value)}

theorem push (new : Array Value) : Roomier blocks (blocks.push new) := by
  intro b slots hslots
  obtain ⟨hlt, -⟩ := Array.getElem?_eq_some_iff.1 hslots
  refine ⟨slots, ?_, Nat.le_refl _⟩
  rw [Array.getElem?_push, if_neg (Nat.ne_of_lt hlt)]
  exact hslots

theorem refl : Roomier blocks blocks := fun _ slots hslots => ⟨slots, hslots, Nat.le_refl _⟩

theorem modify (c : Nat) {f : Array Value → Array Value}
    (hf : ∀ slots, (f slots).size = slots.size) : Roomier blocks (blocks.modify c f) := by
  intro b slots hslots
  rw [Array.getElem?_modify, hslots]
  split
  · exact ⟨f slots, rfl, Nat.le_of_eq (hf slots).symm⟩
  · exact ⟨slots, rfl, Nat.le_refl _⟩

end Roomier

theorem Store.slots_of_mem {s : Store} {b : Nat} {slots : Array Value} (h : s.blocks[b]? = some slots) :
    s.slots b = slots := by
  unfold Store.slots
  rw [Array.getD_eq_getD_getElem?, h]
  rfl

theorem Store.size_shift (is : List Nat) (slots : Array Value) :
    (is.foldl (fun slots k => slots.setIfInBounds k (slots.getD (k + 1) .nil)) slots).size =
      slots.size := by
  induction is generalizing slots with
  | nil => rfl
  | cons i is ih => rw [List.foldl_cons, ih, Array.size_setIfInBounds]

/-- Whether a store has all arrays of another one. -/
def Store.Grows (s t : Store) : Prop := s.arrays.size ≤ t.arrays.size

theorem Store.Grows.refl (s : Store) : s.Grows s := Nat.le_refl _

theorem Store.Grows.trans {s t u : Store} (hst : s.Grows t) (htu : t.Grows u) : s.Grows u :=
  Nat.le_trans hst htu

/-- An array that is put aside, with the block of its elements and what stands in that. -/
structure Aside where
  /-- The array. -/
  array : ArrayId
  /-- Its block. -/
  block : Nat
  /-- The slots of the block. -/
  slots : Array Value

/-- What is known of the surroundings of code: the store before it, and the spans of its nodes. -/
structure Compartment where
  /-- The store before. -/
  origin : Store := {}
  /-- The spans that nodes may have. -/
  spans : Span → Prop := fun _ => True
  /-- An array of which the code has nothing although it is later than the store before. -/
  aside : Option Aside := none

namespace Compartment

variable (C : Compartment)

/-- Whether a scope is inside. -/
def Owns (scope : ScopeId) : Prop := C.origin.scopes.size ≤ scope

/-- Whether an array is inside and was not put aside. -/
structure OwnsArray (a : ArrayId) : Prop where
  inside : C.origin.arrays.size ≤ a
  apart : ∀ x ∈ C.aside, a ≠ x.array

/-- Whether a block is inside and was not put aside. -/
structure OwnsBlock (b : Nat) : Prop where
  inside : C.origin.blocks.size ≤ b
  apart : ∀ x ∈ C.aside, b ≠ x.block

/-- A function whose nodes have spans that they may have. -/
def GoodFunction (f : FunctionDecl) : Prop := Spans.Within C.spans (Spans.function f)

/-- A struct that was declared inside. -/
structure GoodStruct (t : StructType) : Prop where
  scope : C.Owns t.scope
  methods : ∀ m ∈ t.methods, C.GoodFunction m
  ctor : ∀ c ∈ t.ctor, C.GoodFunction c

/-- A value that names things inside only, when there are `n` arrays. -/
def GoodAmong (n : Nat) : Value → Prop
  | .array a => C.OwnsArray a ∧ a < n
  | .object o type => C.origin.objects.size ≤ o ∧ ∀ t ∈ type, C.GoodStruct t
  | .function _ f scope => C.Owns scope ∧ C.GoodFunction f
  | .struct t => C.GoodStruct t
  | .reference _ (some c) => C.origin.cells.size ≤ c
  | .typed v _ => GoodAmong n v
  | .pair a b => GoodAmong n a ∧ GoodAmong n b
  | .method _ o t f => C.origin.objects.size ≤ o ∧ C.GoodStruct t ∧ C.GoodFunction f
  | .collection _ c => C.origin.collections.size ≤ c
  | .collectionMethod _ _ c _ => C.origin.collections.size ≤ c
  | .returnSignal v => GoodAmong n v
  | _ => True

/-- A value that names things inside only. -/
def Good (s : Store) (v : Value) : Prop := C.GoodAmong s.arrays.size v

/-- A scope that leads to scopes and cells inside only, and binds each name once. -/
structure GoodScope (scope : Scope) : Prop where
  parent : ∀ p ∈ scope.parent, C.Owns p
  cells : ∀ e ∈ scope.values, C.origin.cells.size ≤ e.2
  bound : ∀ e ∈ scope.values, e.1 ≠ discard
  once : (scope.values.map Prod.fst).Nodup

/-- A window of a block inside that has room for it. -/
structure GoodWindow (blocks : Array (Array Value)) (w : Window) : Prop where
  inside : C.origin.blocks.size ≤ w.block
  fits : ∃ slots, blocks[w.block]? = some slots ∧ w.length ≤ slots.size

/-- An array that was put aside is as it was, and no other one has its block. -/
structure StandsAside (blocks : Array (Array Value)) (arrays : Array Window) (x : Aside) : Prop where
  lt : x.array < arrays.size
  kept : blocks[x.block]? = some x.slots
  alone : ∀ a w, C.OwnsArray a → arrays[a]? = some w → w.block ≠ x.block

/-- A store that still holds the origin as it was, and in which everything inside leads to things inside
only. -/
structure Sealed (s : Store) : Prop where
  cells : Extends C.origin.cells s.cells (C.Good s)
  scopes : Extends C.origin.scopes s.scopes C.GoodScope
  blocks : Extends C.origin.blocks s.blocks fun slots => ∀ v ∈ slots, C.Good s v
  arrays : Extends C.origin.arrays s.arrays (C.GoodWindow s.blocks)
  objects : Extends C.origin.objects s.objects fun o => ∀ f ∈ o.fields, C.Good s f.2
  collections : Extends C.origin.collections s.collections fun c => ∀ v ∈ c.contents, C.Good s v
  aside : ∀ x ∈ C.aside, C.StandsAside s.blocks s.arrays x

variable {C}
variable {s t : Store} {v w : Value} {c : CellId} {id : ScopeId} {name : Text}

/-- A method of a good instance is good. -/
theorem good_method {o : ObjectId} {type : StructType} {m : FunctionDecl}
    (h : C.Good s (.object o (some type))) (hm : type.method? name = some m) :
    C.Good s (.method 0 o type m) :=
  have ht := h.2 type rfl
  ⟨h.1, ht, ht.methods m (List.mem_of_find?_eq_some hm)⟩

/-- A scope that binds nothing. -/
theorem goodScope_empty {parent : Option ScopeId} (h : ∀ p ∈ parent, C.Owns p) :
    C.GoodScope { parent } :=
  ⟨h, fun _ hb => absurd hb List.not_mem_nil, fun _ hb => absurd hb List.not_mem_nil, .nil⟩

/-! ### Good values -/

theorem Good.mono (h : C.Good s v) (hst : s.Grows t) : C.Good t v := by
  induction v with
  | array a => exact ⟨h.1, Nat.lt_of_lt_of_le h.2 hst⟩
  | typed _ _ ih => exact ih h
  | returnSignal _ ih => exact ih h
  | pair _ _ iha ihb => exact ⟨iha h.1, ihb h.2⟩
  | reference _ c => cases c <;> exact h
  | _ => exact h

theorem Good.plain (h : C.Good s v) : C.Good s v.plain := by
  cases v <;> exact h

theorem Good.untyped (h : C.Good s v) : C.Good s v.untyped := by
  induction v with
  | typed _ _ ih => exact ih h
  | _ => exact h

theorem Good.unwrap (h : C.Good s v) : C.Good s v.unwrap := by
  cases v <;> exact h

/-- A smaller window of a block that has lost no room. -/
theorem GoodWindow.mono {old new : Array (Array Value)} {w : Window} {n : Nat}
    (h : C.GoodWindow old w) (hblocks : Roomier old new) (hn : n ≤ w.length) :
    C.GoodWindow new ⟨w.block, n⟩ := by
  obtain ⟨slots, hslots, hfits⟩ := h.fits
  obtain ⟨slots', hslots', hle⟩ := hblocks w.block slots hslots
  exact ⟨h.inside, slots', hslots', Nat.le_trans hn (Nat.le_trans hfits hle)⟩

theorem GoodWindow.block_lt {blocks : Array (Array Value)} {w : Window}
    (h : C.GoodWindow blocks w) : w.block < blocks.size := by
  obtain ⟨slots, hslots, -⟩ := h.fits
  obtain ⟨hlt, -⟩ := Array.getElem?_eq_some_iff.1 hslots
  exact hlt

/-! ### Arrays put aside -/

namespace StandsAside

variable {blocks : Array (Array Value)} {arrays : Array Window} {x : Aside} {new : Window}
  {a : ArrayId} {b : Nat} (h : C.StandsAside blocks arrays x)
include h

theorem block_lt : x.block < blocks.size := by
  obtain ⟨hlt, -⟩ := Array.getElem?_eq_some_iff.1 h.kept
  exact hlt

theorem pushBlock (slots : Array Value) : C.StandsAside (blocks.push slots) arrays x where
  lt := h.lt
  kept := by
    rw [Array.getElem?_push, if_neg (Nat.ne_of_lt h.block_lt)]
    exact h.kept
  alone := h.alone

theorem modifyBlock (f : Array Value → Array Value) (hb : b ≠ x.block) :
    C.StandsAside (blocks.modify b f) arrays x where
  lt := h.lt
  kept := by
    rw [Array.getElem?_modify, if_neg hb]
    exact h.kept
  alone := h.alone

theorem pushWindow (hnew : new.block ≠ x.block) : C.StandsAside blocks (arrays.push new) x where
  lt := by
    rw [Array.size_push]
    exact Nat.lt_succ_of_lt h.lt
  kept := h.kept
  alone a w howns hw := by
    rw [Array.getElem?_push] at hw
    split at hw
    · cases hw
      exact hnew
    · exact h.alone a w howns hw

theorem setWindow (hnew : new.block ≠ x.block) :
    C.StandsAside blocks (arrays.setIfInBounds a new) x where
  lt := by
    rw [Array.size_setIfInBounds]
    exact h.lt
  kept := h.kept
  alone a' w howns hw := by
    rw [Array.getElem?_setIfInBounds] at hw
    split at hw
    · split at hw
      · cases hw
        exact hnew
      · cases hw
    · exact h.alone a' w howns hw

end StandsAside

/-! ### What is read from a sealed store -/

namespace Sealed

variable (h : C.Sealed s)
include h

theorem read (hc : C.origin.cells.size ≤ c) : C.Good s (s.read c) :=
  h.cells.getD hc trivial

theorem rawWithin {n : Nat} (hv : C.Good s v) (hw : s.rawWithin n v = some w) : C.Good s w := by
  induction n generalizing v with
  | zero =>
    unfold Store.rawWithin at hw
    split at hw
    · cases hw
      trivial
    · cases hw
    · cases hw
      exact hv.untyped
  | succ n ih =>
    unfold Store.rawWithin at hw
    split at hw
    · cases hw
      trivial
    · next hr =>
      have hc := hv.untyped
      rw [hr] at hc
      exact ih (h.read hc) hw
    · cases hw
      exact hv.untyped

theorem raw (hv : C.Good s v) (hw : s.raw? v = some w) : C.Good s w := h.rawWithin hv hw

theorem deref (hv : C.Good s v) : C.Good s (s.deref v) := by
  unfold Store.deref
  split
  · exact h.read hv
  · exact hv

theorem slots {b : Nat} (hb : C.origin.blocks.size ≤ b) : ∀ v ∈ s.slots b, C.Good s v :=
  h.blocks.getD hb fun v hv => absurd hv (Array.not_mem_empty v)

theorem slot {b : Nat} (hb : C.origin.blocks.size ≤ b) (i : Nat) : C.Good s (s.slot b i) := by
  rcases Store.mem_of_getD (s.slots b) i .nil with hi | hi
  · unfold Store.slot
    rw [hi]
    trivial
  · exact h.slots hb _ hi

omit h in
theorem getElem?_window {a : ArrayId} (ha : C.Good s (.array a)) :
    s.arrays[a]? = some (s.window a) := by
  unfold Store.window
  rw [Array.getD_eq_getD_getElem?, Array.getElem?_eq_getElem ha.2]
  rfl

theorem goodWindow {a : ArrayId} (ha : C.Good s (.array a)) : C.GoodWindow s.blocks (s.window a) :=
  h.arrays.added a _ ha.1.inside (getElem?_window ha)

theorem window {a : ArrayId} (ha : C.Good s (.array a)) :
    C.origin.blocks.size ≤ (s.window a).block :=
  (h.goodWindow ha).inside

theorem ownsBlock {a : ArrayId} (ha : C.Good s (.array a)) : C.OwnsBlock (s.window a).block where
  inside := h.window ha
  apart x hx := (h.aside x hx).alone a _ ha.1 (getElem?_window ha)

theorem elements {a : ArrayId} (ha : C.Good s (.array a)) : ∀ v ∈ s.elements a, C.Good s v :=
  fun v hv => h.slots (h.window ha) v (Array.mem_toList_iff.1 (List.mem_of_mem_take hv))

theorem fields {o : ObjectId} (ho : C.origin.objects.size ≤ o) :
    ∀ f ∈ s.fields o, C.Good s f.2 :=
  h.objects.getD ho fun _ hf => absurd hf List.not_mem_nil

theorem field {o : ObjectId} (ho : C.origin.objects.size ≤ o)
    (hv : (s.fields o).get? name = some v) : C.Good s v :=
  h.fields ho _ (Store.mem_of_get? hv)

theorem contents {k : CollectionId} (hk : C.origin.collections.size ≤ k) :
    ∀ v ∈ (s.collection k).contents, C.Good s v :=
  h.collections.getD hk fun _ hv => absurd hv List.not_mem_nil

theorem scope (hid : C.Owns id) : C.GoodScope (s.scope id) :=
  h.scopes.getD hid (goodScope_empty fun _ hp => nomatch hp)

theorem owns_newScope : C.Owns s.scopes.size := h.scopes.size_le

/-- From inside, names lead to scopes and cells inside. -/
theorem resolve {owner : ScopeId} {b : Binding} (hid : C.Owns id)
    (hr : s.resolve id name = some (owner, b)) : C.Owns owner ∧ C.origin.cells.size ≤ b.cell := by
  suffices key : ∀ (n : Nat) (id : ScopeId), C.Owns id →
      s.locateWithin name n id = some (owner, b.cell) →
        C.Owns owner ∧ C.origin.cells.size ≤ b.cell from key _ id hid (Store.resolve_eq_some.1 hr).1
  intro n
  induction n with
  | zero =>
    intro id _ hr
    cases hr
  | succ n ih =>
    intro id hid hr
    unfold Store.locateWithin at hr
    dsimp only at hr
    split at hr
    · next hfind =>
      cases hr
      exact ⟨hid, (h.scope hid).cells _ (mem_of_lookup hfind)⟩
    · split at hr
      · next p hp => exact ih p ((h.scope hid).parent p hp) hr
      · cases hr

theorem lookup (hid : C.Owns id) (hv : s.lookup id name = .ok v) : C.Good s v := by
  unfold Store.lookup at hv
  split at hv
  · cases hv
    trivial
  · split at hv
    · cases hv
    · next c hr =>
      cases hv
      exact h.read (h.resolve (b := ⟨name, c, _⟩) hid (Store.resolve_eq_some.2 ⟨hr, rfl, rfl⟩)).2

/-! ### Changes that keep a store sealed -/

/-- A change that moves arrays, or adds some, and puts good values into blocks. -/
theorem of_arrays {blocks : Array (Array Value)} {arrays : Array Window}
    (hsize : s.arrays.size ≤ arrays.size)
    (hblocks : Extends C.origin.blocks blocks fun slots =>
      ∀ v ∈ slots, C.Good { s with blocks, arrays } v)
    (harrays : Extends C.origin.arrays arrays (C.GoodWindow blocks))
    (haside : ∀ x ∈ C.aside, C.StandsAside blocks arrays x) :
    C.Sealed { s with blocks, arrays } where
  cells := h.cells.mono fun _ hv => hv.mono hsize
  scopes := h.scopes
  blocks := hblocks
  arrays := harrays
  objects := h.objects.mono fun _ ho f hf => (ho f hf).mono hsize
  collections := h.collections.mono fun _ hc v hv => (hc v hv).mono hsize
  aside := haside

/-- Windows stay good when no block loses room. -/
theorem goodWindows {blocks : Array (Array Value)} (hblocks : Roomier s.blocks blocks) :
    Extends C.origin.arrays s.arrays (C.GoodWindow blocks) :=
  h.arrays.mono fun _ hw => hw.mono hblocks (Nat.le_refl _)

theorem newCell (hv : C.Good s v) : C.Sealed (s.newCell v).2 :=
  { h with cells := h.cells.push hv }

theorem write (hc : C.origin.cells.size ≤ c) (hv : C.Good s v) : C.Sealed (s.write c v) :=
  { h with cells := h.cells.set hc hv }

theorem newNumber : C.Sealed s.newNumber.2 := { h with }

theorem newScope {parent : Option ScopeId} (hparent : ∀ p ∈ parent, C.Owns p) :
    C.Sealed (s.newScope parent).2 :=
  { h with scopes := h.scopes.push (goodScope_empty hparent) }

theorem updateScope {f : Scope → Scope} (hid : C.Owns id)
    (hf : C.GoodScope (s.scope id) → C.GoodScope (f (s.scope id))) : C.Sealed (s.updateScope id f) :=
  have hscopes : Extends C.origin.scopes (s.scopes.modify id f) C.GoodScope := by
    refine h.scopes.modify hid fun scope hscope hgood => ?_
    have heq : s.scope id = scope := by
      unfold Store.scope
      rw [Array.getD_eq_getD_getElem?, hscope]
      rfl
    exact heq ▸ hf (heq ▸ hgood)
  { h with scopes := hscopes }

theorem bind {constant : Bool} (hid : C.Owns id) (hv : C.Good s v)
    (ht : s.bind id name v constant = .ok t) : C.Sealed t ∧ s.Grows t := by
  rcases Store.bind_eq_ok ht with ⟨-, rfl⟩ | ⟨hname, hnew, rfl⟩
  · exact ⟨h, .refl _⟩
  · refine ⟨(h.newCell hv).updateScope hid fun hs => ⟨?_, ?_, ?_, ?_⟩, Nat.le_refl _⟩
    · rw [Scope.parent_bindAs]
      exact hs.parent
    · rw [Scope.values_bindAs]
      exact List.forall_mem_cons.2 ⟨h.cells.size_le, hs.cells⟩
    · rw [Scope.values_bindAs]
      exact List.forall_mem_cons.2 ⟨hname, hs.bound⟩
    · rw [Scope.values_bindAs]
      exact List.nodup_cons.2 ⟨Scope.binds_eq_false_iff.1 hnew, hs.once⟩

theorem makeConstant (hid : C.Owns id) (ht : s.makeConstant id name = .ok t) :
    C.Sealed t ∧ s.Grows t := by
  unfold Store.makeConstant at ht
  split at ht
  · cases ht
    exact ⟨h, .refl _⟩
  · split at ht
    · cases ht
    · next owner _ hr =>
      cases ht
      -- only the mark of a name is changed
      exact ⟨h.updateScope (h.resolve hid hr).1 fun hs => ⟨hs.parent, hs.cells, hs.bound, hs.once⟩,
        Nat.le_refl _⟩

theorem assign (hid : C.Owns id) (hv : C.Good s v) (ht : s.assign id name v = .ok t) :
    C.Sealed t ∧ s.Grows t := by
  unfold Store.assign at ht
  split at ht
  · cases ht
    exact ⟨h, .refl _⟩
  · split at ht
    · cases ht
    · next hr =>
      split at ht
      · cases ht
      · cases ht
        exact ⟨h.write (h.resolve hid hr).2 hv, Nat.le_refl _⟩

theorem remove (hid : C.Owns id) (ht : s.remove id name = .ok (v, t)) :
    C.Sealed t ∧ s.Grows t ∧ C.Good t v := by
  unfold Store.remove at ht
  split at ht
  · cases ht
    exact ⟨h, .refl _, trivial⟩
  · split at ht
    · cases ht
    · next hr =>
      cases ht
      obtain ⟨howner, hcell⟩ := h.resolve hid hr
      refine ⟨h.updateScope howner fun hs => ⟨hs.parent, ?_, ?_, ?_⟩, Nat.le_refl _, h.read hcell⟩
      · exact fun e he => hs.cells e (List.mem_filter.1 he).1
      · exact fun e he => hs.bound e (List.mem_filter.1 he).1
      · exact hs.once.sublist (List.filter_sublist.map Prod.fst)

theorem newArray {elems : List Value} {n : Nat} (hv : ∀ v ∈ elems, C.Good s v) :
    C.Sealed (s.newArray elems n).2 ∧ s.Grows (s.newArray elems n).2 := by
  have hgrows : s.Grows (s.newArray elems n).2 := by
    unfold Store.Grows Store.newArray
    rw [Array.size_push]
    exact Nat.le_succ _
  refine ⟨h.of_arrays hgrows ?_ ((h.goodWindows (.push _)).push ?_) ?_, hgrows⟩
  · refine (h.blocks.mono fun slots hs v hv => (hs v hv).mono hgrows).push fun v hv' => ?_
    rcases Array.mem_append.1 hv' with hv' | hv'
    · exact (hv v (List.mem_toArray.1 hv')).mono hgrows
    · rw [(Array.mem_replicate.1 hv').2]
      trivial
  · exact ⟨h.blocks.size_le, _, Array.getElem?_push_size, by simp⟩
  · intro x hx
    have hpushed := (h.aside x hx).pushBlock (elems.toArray ++ Array.replicate (n - elems.length) .nil)
    exact hpushed.pushWindow (Nat.ne_of_gt (h.aside x hx).block_lt)

theorem newArray_good {elems : List Value} {n : Nat} :
    C.Good (s.newArray elems n).2 (.array (s.newArray elems n).1) :=
  ⟨⟨h.arrays.size_le, fun x hx => Nat.ne_of_gt (h.aside x hx).lt⟩, by simp [Store.newArray]⟩

theorem writeSlot {b i : Nat} (hb : C.OwnsBlock b) (hv : C.Good s v) :
    C.Sealed (s.writeSlot b i v) :=
  { h with
    blocks := h.blocks.modify hb.inside fun _ _ hs w hw =>
      (Array.mem_or_eq_of_mem_setIfInBounds hw).elim (hs w) fun e => e ▸ hv
    arrays := h.goodWindows (.modify b fun _ => Array.size_setIfInBounds)
    aside := fun x hx =>
      (h.aside x hx).modifyBlock (fun slots => slots.setIfInBounds i v) (hb.apart x hx) }

theorem setWindow {a : ArrayId} {w : Window} (ha : C.Good s (.array a)) (hw : C.OwnsBlock w.block)
    (hgood : C.GoodWindow s.blocks w) : C.Sealed { s with arrays := s.arrays.setIfInBounds a w } := by
  have hgrows : s.arrays.size ≤ (s.arrays.setIfInBounds a w).size :=
    Nat.le_of_eq Array.size_setIfInBounds.symm
  refine h.of_arrays hgrows (h.blocks.mono fun slots hs v hv => (hs v hv).mono hgrows) ?_ ?_
  · exact h.arrays.set ha.1.inside hgood
  · exact fun x hx => (h.aside x hx).setWindow (hw.apart x hx)

theorem push {a : ArrayId} (ha : C.Good s (.array a)) (hv : C.Good s v) :
    C.Sealed (s.push a v) ∧ s.Grows (s.push a v) := by
  have howns := h.ownsBlock ha
  unfold Store.push
  dsimp only
  split
  · next hroom =>
    refine ⟨(h.writeSlot howns hv).setWindow ha howns ?_, ?_⟩
    · obtain ⟨slots, hslots, -⟩ := (h.goodWindow ha).fits
      obtain ⟨slots', hslots', hle⟩ :=
        Roomier.modify (s.window a).block (fun _ => Array.size_setIfInBounds) _ slots hslots
      rw [Store.slots_of_mem hslots] at hroom
      exact ⟨howns.inside, slots', hslots', Nat.le_trans hroom hle⟩
    · unfold Store.Grows
      rw [Array.size_setIfInBounds]
      exact Nat.le_refl _
  · have hsize : s.arrays.size = (s.arrays.setIfInBounds a
        ⟨s.blocks.size, (s.window a).length + 1⟩).size := Array.size_setIfInBounds.symm
    have good : ∀ {v : Value}, C.Good s v → C.GoodAmong (s.arrays.setIfInBounds a
        ⟨s.blocks.size, (s.window a).length + 1⟩).size v := fun hv => hsize ▸ hv
    refine ⟨h.of_arrays (Nat.le_of_eq hsize) ?_
      ((h.goodWindows (.push _)).set ha.1.inside
        ⟨h.blocks.size_le, _, Array.getElem?_push_size, ?_⟩) ?_, Nat.le_of_eq hsize⟩
    · refine (h.blocks.mono fun slots hs v hv => good (hs v hv)).push fun w hw => ?_
      rcases Array.mem_append.1 hw with hw | hw
      · rcases Array.mem_push.1 hw with hw | rfl
        · exact good (h.slots howns.inside w hw)
        · exact good hv
      · rw [(Array.mem_replicate.1 hw).2]
        trivial
    · obtain ⟨slots, hslots, hfits⟩ := (h.goodWindow ha).fits
      rw [Store.slots_of_mem hslots, Array.size_append, Array.size_push]
      dsimp only
      omega
    · intro x hx
      exact ((h.aside x hx).pushBlock _).setWindow (Nat.ne_of_gt (h.aside x hx).block_lt)

theorem dropLast {a : ArrayId} (ha : C.Good s (.array a)) :
    C.Sealed (s.dropLast a) ∧ s.Grows (s.dropLast a) :=
  ⟨h.setWindow ha (h.ownsBlock ha) ((h.goodWindow ha).mono .refl (Nat.sub_le _ _)),
    Nat.le_of_eq Array.size_setIfInBounds.symm⟩

theorem removeElement {a : ArrayId} {i : Nat} (ha : C.Good s (.array a)) :
    C.Sealed (s.removeElement a i) ∧ s.Grows (s.removeElement a i) := by
  have howns := h.ownsBlock ha
  have hgrows : s.Grows (s.removeElement a i) := Nat.le_of_eq Array.size_setIfInBounds.symm
  have hroomier : Roomier s.blocks (s.removeElement a i).blocks :=
    .modify _ fun slots => Store.size_shift _ slots
  refine ⟨h.of_arrays hgrows ?_ ((h.goodWindows hroomier).set ha.1.inside
    ((h.goodWindow ha).mono hroomier (Nat.sub_le _ _))) (fun x hx => ?_), hgrows⟩
  · refine (h.blocks.mono fun slots hs v hv => (hs v hv).mono hgrows).modify howns.inside
      fun slots _ hs w hw => ?_
    rcases Store.mem_shift _ (fun _ h => .inl h) w hw with hw | rfl
    · exact hs w hw
    · trivial
  · exact ((h.aside x hx).modifyBlock _ (howns.apart x hx)).setWindow (howns.apart x hx)

theorem newObject {fields : Fields} {type : Option StructType}
    (hf : ∀ f ∈ fields, C.Good s f.2) : C.Sealed (s.newObject fields type).2 :=
  { h with objects := h.objects.push hf }

theorem updateObject {o : ObjectId} {f : Fields → Fields} (ho : C.origin.objects.size ≤ o)
    (hf : ∀ fields, (∀ e ∈ fields, C.Good s e.2) → ∀ e ∈ f fields, C.Good s e.2) :
    C.Sealed (s.updateObject o f) :=
  have hobjects : Extends C.origin.objects (s.objects.modify o fun object =>
      { object with fields := f object.fields }) fun o => ∀ f ∈ o.fields, C.Good s f.2 :=
    h.objects.modify ho fun object _ hobject => hf object.fields hobject
  { h with objects := hobjects }

theorem newCollection {content : Collection} (hv : ∀ v ∈ content.contents, C.Good s v) :
    C.Sealed (s.newCollection content).2 :=
  { h with collections := h.collections.push hv }

theorem setCollection {k : CollectionId} {content : Collection}
    (hk : C.origin.collections.size ≤ k) (hv : ∀ v ∈ content.contents, C.Good s v) :
    C.Sealed (s.setCollection k content) :=
  { h with collections := h.collections.set hk hv }

end Sealed

/-! ### Putting a new array aside -/

/-- The compartment in which an array is put aside. -/
def putAside (C : Compartment) (x : Aside) : Compartment := { C with aside := some x }

variable {x : Aside}

theorem GoodStruct.putAside {type : StructType} (h : C.GoodStruct type) :
    (C.putAside x).GoodStruct type :=
  ⟨h.scope, h.methods, h.ctor⟩

/-- A value from before the array was made does not name it. -/
theorem GoodAmong.putAside {n m : Nat} (h : C.GoodAmong n v) (hn : n ≤ x.array) (hm : n ≤ m) :
    (C.putAside x).GoodAmong m v := by
  induction v with
  | array a =>
    refine ⟨⟨h.1.inside, fun y hy => ?_⟩, Nat.lt_of_lt_of_le h.2 hm⟩
    cases hy
    exact Nat.ne_of_lt (Nat.lt_of_lt_of_le h.2 hn)
  | object o type => exact ⟨h.1, fun t ht => (h.2 t ht).putAside⟩
  | struct type => exact GoodStruct.putAside h
  | reference _ c => cases c <;> exact h
  | typed _ _ ih => exact ih h
  | returnSignal _ ih => exact ih h
  | pair _ _ iha ihb => exact ⟨iha h.1, ihb h.2⟩
  | method _ _ _ _ => exact ⟨h.1, h.2.1.putAside, h.2.2⟩
  | _ => exact h

/-- A new array can be put aside as long as nobody was given it. -/
theorem Sealed.newArray_aside (h : C.Sealed s) {elems : List Value} {n : Nat}
    (hv : ∀ v ∈ elems, C.Good s v) (hx : x = ⟨s.arrays.size, s.blocks.size,
      elems.toArray ++ Array.replicate (n - elems.length) .nil⟩) :
    (C.putAside x).Sealed (s.newArray elems n).2 := by
  have hle : s.arrays.size ≤ (s.newArray elems n).2.arrays.size := by
    unfold Store.newArray
    rw [Array.size_push]
    exact Nat.le_succ _
  have good {v : Value} (h : C.Good s v) : (C.putAside x).Good (s.newArray elems n).2 v :=
    GoodAmong.putAside h (Nat.le_of_eq (by rw [hx])) hle
  refine ⟨h.cells.mono fun _ => good, h.scopes.mono fun _ hs => ⟨hs.parent, hs.cells, hs.bound, hs.once⟩,
    (h.blocks.mono fun _ hs v hv => good (hs v hv)).push fun v hv' => ?_,
    ((h.goodWindows (.push _)).mono fun _ hw => ⟨hw.inside, hw.fits⟩).push
      ⟨h.blocks.size_le, _, Array.getElem?_push_size, by simp⟩,
    h.objects.mono fun _ ho f hf => good (ho f hf),
    h.collections.mono fun _ hc v hv => good (hc v hv), fun y hy => ?_⟩
  · rcases Array.mem_append.1 hv' with hv' | hv'
    · exact good (hv v (List.mem_toArray.1 hv'))
    · rw [(Array.mem_replicate.1 hv').2]
      trivial
  · cases hy
    subst hx
    refine ⟨?_, Array.getElem?_push_size, fun a w howns hw => ?_⟩
    · unfold Store.newArray
      rw [Array.size_push]
      exact Nat.lt_succ_self _
    · -- every other array has a block from before
      have hne : a ≠ s.arrays.size := howns.apart _ rfl
      have hw : (s.arrays.push ⟨s.blocks.size, elems.length⟩)[a]? = some w := hw
      rw [Array.getElem?_push, if_neg hne] at hw
      exact Nat.ne_of_lt (h.arrays.added a w howns.inside hw).block_lt

/-! ### JSON -/

mutual

theorem ofJson {s : Store} (h : C.Sealed s) : ∀ j : Json,
    C.Sealed (s.ofJson j).2 ∧ s.Grows (s.ofJson j).2 ∧ C.Good (s.ofJson j).2 (s.ofJson j).1
  | .null => ⟨h, .refl _, trivial⟩
  | .bool _ => ⟨h, .refl _, trivial⟩
  | .integer _ => ⟨h, .refl _, trivial⟩
  | .number _ => ⟨h, .refl _, trivial⟩
  | .text _ => ⟨h, .refl _, trivial⟩
  | .array items => by
    obtain ⟨hs, hgrows, hgood⟩ := ofJsonItems h items
    obtain ⟨hs', hgrows'⟩ := hs.newArray (n := 0) hgood
    exact ⟨hs', hgrows.trans hgrows', hs.newArray_good⟩
  | .object entries => by
    obtain ⟨hs, hgrows, hgood⟩ := ofJsonFields h entries
    refine ⟨hs.newObject fun f hf => ?_, hgrows, hs.objects.size_le, fun _ ht => nomatch ht⟩
    obtain ⟨e, he, hv⟩ := Store.mem_ofList (k := f.1) (w := f.2) hf
    exact hv ▸ hgood e he

theorem ofJsonItems {s : Store} (h : C.Sealed s) : ∀ js : List Json,
    C.Sealed (s.ofJsonItems js).2 ∧ s.Grows (s.ofJsonItems js).2 ∧
      ∀ v ∈ (s.ofJsonItems js).1, C.Good (s.ofJsonItems js).2 v
  | [] => ⟨h, .refl _, fun v hv => absurd hv List.not_mem_nil⟩
  | j :: js => by
    obtain ⟨hs, hgrows, hgood⟩ := ofJson h j
    obtain ⟨hs', hgrows', hgood'⟩ := ofJsonItems hs js
    refine ⟨hs', hgrows.trans hgrows', fun v hv => ?_⟩
    rcases List.mem_cons.1 hv with rfl | hv
    · exact hgood.mono hgrows'
    · exact hgood' v hv

theorem ofJsonFields {s : Store} (h : C.Sealed s) : ∀ fs : List (Text × Json),
    C.Sealed (s.ofJsonFields fs).2 ∧ s.Grows (s.ofJsonFields fs).2 ∧
      ∀ e ∈ (s.ofJsonFields fs).1, C.Good (s.ofJsonFields fs).2 e.2
  | [] => ⟨h, .refl _, fun e he => absurd he List.not_mem_nil⟩
  | (k, j) :: fs => by
    obtain ⟨hs, hgrows, hgood⟩ := ofJson h j
    obtain ⟨hs', hgrows', hgood'⟩ := ofJsonFields hs fs
    refine ⟨hs', hgrows.trans hgrows', fun e he => ?_⟩
    rcases List.mem_cons.1 he with rfl | he
    · exact hgood.mono hgrows'
    · exact hgood' e he

end

/-- The origin itself is sealed. -/
theorem sealed_origin (h : C.aside = none) : C.Sealed C.origin :=
  ⟨.refl _ _, .refl _ _, .refl _ _, .refl _ _, .refl _ _, .refl _ _, fun _ hx => nomatch h ▸ hx⟩

end Compartment

end ScriptLang
