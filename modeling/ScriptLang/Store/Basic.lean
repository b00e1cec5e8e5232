import ScriptLang.Store.Growth
import ScriptLang.Value.Basic

/-!
# The store

Everything that programs can change lives in the store: storage cells, scopes, arrays, objects and
collections. A name of a thing is its position, so things are never removed.

The elements of an array stand in a block of slots of which the array uses the first ones; that part
is its *window*. An array that outgrows its block moves to a new one. Whoever holds on to a window
keeps reading the old block: it sees later writes to that block, and nothing that is written after
the move.
-/

namespace ScriptLang

/-- A scope: the names bound in it, the names that are constants, and the scope around it. -/
structure Scope where
  /-- The names that are bound, each with the cell that holds its value. -/
  values : List (Text × CellId) := []
  /-- The names that are marked as constants. -/
  constants : List Text := []
  /-- The scope around this one. -/
  parent : Option ScopeId := none
deriving DecidableEq, Repr, Inhabited

/-- The first slots of a block. -/
structure Window where
  /-- The number of the block. -/
  block : Nat
  /-- How many of its slots are used. -/
  length : Nat
deriving DecidableEq, Repr, Inhabited

/-- The fields of an object, no two of the same name. Writes leave them in ascending order of their
names. -/
structure Fields where
  /-- The names with their values. -/
  entries : List (Text × Value) := []
  /-- No name comes twice. -/
  distinct : (entries.map Prod.fst).Nodup := by exact List.nodup_nil

namespace Fields

instance : Inhabited Fields := ⟨{}⟩

instance : Membership (Text × Value) Fields := ⟨fun fields f => f ∈ fields.entries⟩

/-- How many fields there are. -/
def length (fields : Fields) : Nat := fields.entries.length

/-- The names of the fields. -/
def names (fields : Fields) : List Text := fields.entries.map Prod.fst

/-- The value of a field. -/
def get? (fields : Fields) (name : Text) : Option Value := fields.entries.lookup name

/-- The fields without one of them. -/
def erase (fields : Fields) (name : Text) : Fields where
  entries := fields.entries.filter fun f => f.1 != name
  distinct := fields.distinct.sublist (List.filter_sublist.map _)

/-- Entries with a new one before the first that has a later name. -/
def insertEntry (name : Text) (v : Value) (entries : List (Text × Value)) : List (Text × Value) :=
  entries.takeWhile (fun f => f.1 < name) ++ (name, v) :: entries.dropWhile fun f => f.1 < name

theorem insertEntry_perm (name : Text) (v : Value) (entries : List (Text × Value)) :
    (insertEntry name v entries).Perm ((name, v) :: entries) := by
  unfold insertEntry
  refine List.perm_middle.trans (.cons _ ?_)
  rw [List.takeWhile_append_dropWhile]

/-- The fields after a write. -/
def set (fields : Fields) (name : Text) (v : Value) : Fields where
  entries := insertEntry name v (fields.erase name).entries
  distinct := by
    refine ((insertEntry_perm name v _).map _).nodup_iff.2 (List.nodup_cons.2 ⟨?_, ?_⟩)
    · simp [erase]
    · exact (fields.erase name).distinct

/-- The fields that a list of writes leaves. -/
def ofList (entries : List (Text × Value)) : Fields :=
  entries.foldl (fun fields e => fields.set e.1 e.2) {}

end Fields

/-- An object. -/
structure Object where
  /-- The fields. -/
  fields : Fields := {}
  /-- The struct that it is an instance of. -/
  type : Option StructType := none

instance : Inhabited Object := ⟨{}⟩

/-- The content of a collection. -/
inductive Collection where
  /-- The members of a set, in the order in which they were added. -/
  | set (members : List Value)
  /-- The items of a stack, the top first. -/
  | stack (items : List Value)
  /-- The entries of a cache, the one used last first, and the greatest number of them. A key that does
  not equal itself cannot be found, so it stays behind when its entry is dropped: it is a stray. -/
  | lru (capacity : Nat) (entries : List (Value × Value)) (strays : Nat)

instance : Inhabited Collection := ⟨.stack []⟩

/-- Everything that programs can change. -/
structure Store where
  /-- The storage cells. -/
  cells : Array Value := #[]
  /-- The scopes. -/
  scopes : Array Scope := #[]
  /-- The blocks of slots. -/
  blocks : Array (Array Value) := #[]
  /-- The arrays. -/
  arrays : Array Window := #[]
  /-- The objects. -/
  objects : Array Object := #[]
  /-- The collections. -/
  collections : Array Collection := #[]
  /-- The next number for a thing that needs one. -/
  fresh : Nat := 0

namespace Store

/-! ### Cells -/

/-- The content of a cell. -/
def read (s : Store) (c : CellId) : Value := s.cells.getD c .nil

/-- The store after a write to a cell. -/
def write (s : Store) (c : CellId) (v : Value) : Store := { s with cells := s.cells.setIfInBounds c v }

/-- A new cell. -/
def newCell (s : Store) (v : Value) : CellId × Store :=
  (s.cells.size, { s with cells := s.cells.push v })

/-- A number that was never given out before. -/
def newNumber (s : Store) : Nat × Store := (s.fresh, { s with fresh := s.fresh + 1 })

/-- What a value refers to, one step on. -/
def deref (s : Store) : Value → Value
  | .reference _ (some c) => s.read c
  | v => v

/-- The value without annotations and references, if it is reached within `n` references. -/
def rawWithin (s : Store) : Nat → Value → Option Value
  | n, v =>
    match v.untyped with
    | .reference _ none => some .nil
    | .reference _ (some c) =>
      match n with
      | 0 => none
      | n + 1 => rawWithin s n (s.read c)
    | w => some w

/-- The value without annotations and references. There is none exactly when the references go
round in a circle: a chain that does not come back has at most as many references as there are
cells. -/
def raw? (s : Store) (v : Value) : Option Value := s.rawWithin (s.cells.size + 1) v

/-! ### Arrays -/

/-- The part of a block that an array uses. -/
def window (s : Store) (a : ArrayId) : Window := s.arrays.getD a ⟨0, 0⟩

/-- The slots of a block. -/
def slots (s : Store) (b : Nat) : Array Value := s.blocks.getD b #[]

/-- The value in a slot of a block. -/
def slot (s : Store) (b i : Nat) : Value := (s.slots b).getD i .nil

/-- The number of elements of an array. -/
def length (s : Store) (a : ArrayId) : Nat := (s.window a).length

/-- The elements of an array. -/
def elements (s : Store) (a : ArrayId) : List Value :=
  let w := s.window a
  (s.slots w.block).toList.take w.length

/-- A new array in a block with room for `capacity` elements, or as many as there are. -/
def newArray (s : Store) (elems : List Value) (capacity : Nat) : ArrayId × Store :=
  let slots := elems.toArray ++ Array.replicate (capacity - elems.length) Value.nil
  (s.arrays.size,
    { s with
      blocks := s.blocks.push slots
      arrays := s.arrays.push ⟨s.blocks.size, elems.length⟩ })

/-- The store after a write to a slot. -/
def writeSlot (s : Store) (b i : Nat) (v : Value) : Store :=
  { s with blocks := s.blocks.modify b fun slots => slots.setIfInBounds i v }

/-- The store after a write to an element of an array. -/
def setElement (s : Store) (a : ArrayId) (i : Nat) (v : Value) : Store :=
  s.writeSlot (s.window a).block i v

/-- The store after a value was added at the end of an array. A full block is left for a larger
one. -/
def push (s : Store) (a : ArrayId) (v : Value) : Store :=
  let w := s.window a
  let size := (s.slots w.block).size
  if w.length < size then
    let s := s.writeSlot w.block w.length v
    { s with arrays := s.arrays.setIfInBounds a ⟨w.block, w.length + 1⟩ }
  else
    let elems := (s.slots w.block).push v
    let slots := elems ++ Array.replicate (Growth.next size - elems.size) Value.nil
    { s with
      blocks := s.blocks.push slots
      arrays := s.arrays.setIfInBounds a ⟨s.blocks.size, w.length + 1⟩ }

/-- The store after the last element of an array was removed. Its slot keeps the value. -/
def dropLast (s : Store) (a : ArrayId) : Store :=
  let w := s.window a
  { s with arrays := s.arrays.setIfInBounds a ⟨w.block, w.length - 1⟩ }

/-- The store after an element of an array was removed: the later ones move down by one slot of the
same block. -/
def removeElement (s : Store) (a : ArrayId) (i : Nat) : Store :=
  let w := s.window a
  let shift (slots : Array Value) : Array Value :=
    (List.range' i (w.length - 1 - i)).foldl
      (fun slots k => slots.setIfInBounds k (slots.getD (k + 1) .nil)) slots
  { s with
    blocks := s.blocks.modify w.block shift
    arrays := s.arrays.setIfInBounds a ⟨w.block, w.length - 1⟩ }

/-! ### Objects and collections -/

/-- The fields of an object. -/
def fields (s : Store) (o : ObjectId) : Fields := (s.objects.getD o {}).fields

/-- The struct that an object is an instance of. -/
def structOf? (s : Store) (o : ObjectId) : Option StructType := (s.objects.getD o {}).type

/-- A new object, an instance of a struct or of none. -/
def newObject (s : Store) (fields : Fields) (type : Option StructType := none) : ObjectId × Store :=
  (s.objects.size, { s with objects := s.objects.push { fields, type } })

/-- The store after a change to the fields of an object. -/
def updateObject (s : Store) (o : ObjectId) (f : Fields → Fields) : Store :=
  { s with objects := s.objects.modify o fun object => { object with fields := f object.fields } }

/-- The content of a collection. -/
def collection (s : Store) (c : CollectionId) : Collection := s.collections.getD c (.stack [])

/-- A new collection. -/
def newCollection (s : Store) (content : Collection) : CollectionId × Store :=
  (s.collections.size, { s with collections := s.collections.push content })

/-- The store after a collection got a new content. -/
def setCollection (s : Store) (c : CollectionId) (content : Collection) : Store :=
  { s with collections := s.collections.setIfInBounds c content }

end Store

end ScriptLang
