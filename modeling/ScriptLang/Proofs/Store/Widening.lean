import ScriptLang.Proofs.Store.Compartment

/-!
# Stores with more arrays and objects

Many functions only add arrays and objects to the store. Such a store is *wider*: its cells are the same, and
what was there before is there as it was. So are the elements of an array that is there, and the fields of an
object.
-/

namespace ScriptLang

namespace Store

variable {s t u : Store} {a : ArrayId} {o : ObjectId} {vs : List Value} {n : Nat}

/-- Whether an array is there, with the block of its elements. -/
structure HasArray (s : Store) (a : ArrayId) : Prop where
  /-- The array. -/
  lt : a < s.arrays.size
  /-- The block. -/
  block_lt : (s.window a).block < s.blocks.size

/-- Nothing that can be reached names an array that is not there. -/
theorem hasArray_of_good {C : Compartment} (hs : C.Sealed s) (ha : C.Good s (.array a)) :
    s.HasArray a := ⟨ha.2, (hs.goodWindow ha).block_lt⟩

/-- Whether a store is another one with more blocks, arrays and objects. -/
structure Widens (s t : Store) : Prop where
  /-- The cells are the same. -/
  cells : t.cells = s.cells
  /-- All blocks are there. -/
  blocks : Extends s.blocks t.blocks fun _ => True
  /-- All arrays are there. -/
  arrays : Extends s.arrays t.arrays fun _ => True
  /-- All objects are there. -/
  objects : Extends s.objects t.objects fun _ => True

namespace Widens

theorem refl (s : Store) : s.Widens s := ⟨rfl, .refl _ _, .refl _ _, .refl _ _⟩

theorem trans (h : s.Widens t) (h' : t.Widens u) : s.Widens u :=
  ⟨h'.cells.trans h.cells, h.blocks.trans h'.blocks, h.arrays.trans h'.arrays,
    h.objects.trans h'.objects⟩

theorem newArray (s : Store) (vs : List Value) (n : Nat) : s.Widens (s.newArray vs n).2 :=
  ⟨rfl, (Extends.refl _ _).push trivial, (Extends.refl _ _).push trivial, .refl _ _⟩

theorem newObject (s : Store) (fields : Fields) (type : Option StructType) :
    s.Widens (s.newObject fields type).2 :=
  ⟨rfl, .refl _ _, .refl _ _, (Extends.refl _ _).push trivial⟩

theorem raw? (h : s.Widens t) (v : Value) : t.raw? v = s.raw? v := raw?_of_cells h.cells v

theorem window (h : s.Widens t) (ha : s.HasArray a) : t.window a = s.window a :=
  h.arrays.getD_kept ha.lt

theorem elements (h : s.Widens t) (ha : s.HasArray a) : t.elements a = s.elements a := by
  have hslots : t.slots (s.window a).block = s.slots (s.window a).block :=
    h.blocks.getD_kept ha.block_lt
  unfold Store.elements
  rw [h.window ha]
  dsimp only
  rw [hslots]

theorem hasArray (h : s.Widens t) (ha : s.HasArray a) : t.HasArray a where
  lt := Nat.lt_of_lt_of_le ha.lt h.arrays.size_le
  block_lt := by
    rw [h.window ha]
    exact Nat.lt_of_lt_of_le ha.block_lt h.blocks.size_le

theorem fields (h : s.Widens t) (ho : o < s.objects.size) : t.fields o = s.fields o := by
  unfold Store.fields
  rw [h.objects.getD_kept ho]

theorem lt_objects (h : s.Widens t) (ho : o < s.objects.size) : o < t.objects.size :=
  Nat.lt_of_lt_of_le ho h.objects.size_le

end Widens

/-! ### What is new -/

theorem window_newArray : (s.newArray vs n).2.window s.arrays.size = ⟨s.blocks.size, vs.length⟩ := by
  unfold window newArray
  simp [Array.getD_eq_getD_getElem?]

theorem hasArray_newArray : (s.newArray vs n).2.HasArray s.arrays.size where
  lt := by simp [newArray]
  block_lt := by
    rw [window_newArray]
    simp [newArray]

/-- A new array has the elements that it is made of. -/
theorem elements_newArray : (s.newArray vs n).2.elements s.arrays.size = vs := by
  unfold elements
  rw [window_newArray]
  unfold slots newArray
  simp [Array.getD_eq_getD_getElem?]

theorem lt_newObject {fields : Fields} {type : Option StructType} :
    s.objects.size < (s.newObject fields type).2.objects.size := by simp [newObject]

/-- A new object has the fields that it is made of. -/
theorem fields_newObject {fields : Fields} {type : Option StructType} :
    (s.newObject fields type).2.fields s.objects.size = fields := by
  unfold Store.fields newObject
  simp [Array.getD_eq_getD_getElem?]

end Store

end ScriptLang
