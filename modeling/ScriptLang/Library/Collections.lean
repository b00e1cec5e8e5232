import ScriptLang.Library.Arguments
import ScriptLang.Library.Sorting

/-!
# Collections

The methods of sets, stacks and caches. Members of a set and keys of a cache are taken without
annotations and references; scalars and pairs are told apart by what they are, everything else by
which thing it is. A set is listed in the order of values, a stack from its top down, and a cache
from the key used least recently on; a cache with strays cannot be listed.
-/

namespace ScriptLang

open Eval

/-! ### Contents -/

namespace Collection

/-- The members of a set. -/
def members : Collection → List Value
  | set vs => vs
  | _ => []

/-- The items of a stack, the top first. -/
def items : Collection → List Value
  | stack vs => vs
  | _ => []

/-- The entries of a cache, the one used last first. -/
def entries : Collection → List (Value × Value)
  | lru _ es _ => es
  | _ => []

/-- The greatest number of entries of a cache. -/
def capacity : Collection → Nat
  | lru n _ _ => n
  | _ => 0

/-- How many keys a cache dropped without finding them. -/
def strays : Collection → Nat
  | lru _ _ n => n
  | _ => 0

/-- How many members there are. -/
def size : Collection → Nat
  | set vs => vs.length
  | stack vs => vs.length
  | lru _ es _ => es.length

/-- The values that do not equal themselves. -/
def unfindable (vs : List Value) : List Value := vs.filter fun v => !v.same v

/-- The collection without members. What does not equal itself is never found, so it stays in a set,
and in a cache it becomes a stray. -/
def cleared : Collection → Collection
  | set vs => set (unfindable vs)
  | stack _ => stack []
  | lru n es strays => lru n [] (strays + (unfindable (es.map Prod.fst)).length)

end Collection

namespace Members

/-- Whether a value is among the members of a set. -/
def has (vs : List Value) (v : Value) : Bool := vs.any fun w => v.same w

/-- The members of a set after one was added. A member that is the same already gives way to it. -/
def insert (vs : List Value) (v : Value) : List Value :=
  if has vs v then vs.map fun w => if v.same w then v else w else vs ++ [v]

/-- The members of a set after one was removed. -/
def erase (vs : List Value) (v : Value) : List Value := vs.filter fun w => !v.same w

/-- The members of one set or another. -/
def union (vs ws : List Value) : List Value := ws.foldl insert vs

/-- The members of both sets, as they stand in the set with fewer members, or in the second. -/
def inter (vs ws : List Value) : List Value :=
  if vs.length < ws.length then vs.filter (has ws) else ws.filter (has vs)

end Members

namespace Entries

/-- The value under a key. -/
def get? (es : List (Value × Value)) (k : Value) : Option Value :=
  (es.find? fun e => k.same e.1).map Prod.snd

/-- The entries without a key. -/
def erase (es : List (Value × Value)) (k : Value) : List (Value × Value) :=
  es.filter fun e => !k.same e.1

/-- The entries after a key was used. -/
def touch (es : List (Value × Value)) (k : Value) : List (Value × Value) :=
  match es.find? fun e => k.same e.1 with
  | some e => e :: erase es k
  | none => es

/-- The entries after a value was put under a key, and the keys of those that were dropped for it. -/
def put (capacity : Nat) (es : List (Value × Value)) (k v : Value) :
    List (Value × Value) × List Value :=
  match es.find? fun e => k.same e.1 with
  | some e => ((e.1, v) :: erase es k, [])
  | none =>
    let es := (k, v) :: es
    (es.take capacity, (es.drop capacity).map Prod.fst)

end Entries

namespace Library

/-! ### Listing -/

/-- Whether a member of a set is listed before another one: members are listed in the order of values, and
those that are equal in it in the order of their texts. -/
def goesFirst (s : Store) (v w : Value) : Option Bool :=
  match v.order w with
  | .lt => some true
  | .gt => some false
  | .eq => do return decide ((← s.render? v) < (← s.render? w))

/-- The members of a set in the order in which they are listed. -/
def listMembers (s : Store) (vs : List Value) : Option (List Value) := Sorting.sortM (goesFirst s) vs

/-- The members of a collection in the order in which it is listed. -/
def listing (c : CollectionId) : Eval (List Value) := do
  let s ← store
  match s.collection c with
  | .set vs => orStuck (listMembers s vs)
  | .stack vs => return vs
  | .lru _ es strays => if strays > 0 then throw .crash else return (es.map Prod.fst).reverse

/-- The text of a member. -/
def memberText (run : Runner) (v : Value) : Eval Text := do
  let t ← run.stringify v
  match ← raw v with
  | .text _ => return "\"" ++ t ++ "\""
  | _ => return t

/-- The text of a collection. -/
def collectionText (run : Runner) (k : CollectionKind) (c : CollectionId) : Eval Text := do
  let parts ← (← listing c).mapM (memberText run)
  return k.name ++ "(" ++ Text.join ", " parts ++ ")"

/-! ### Construction -/

/-- A new collection. -/
def newCollection (k : CollectionKind) (content : Collection) : Eval Value :=
  return .collection k (← change fun s => s.newCollection content)

/-- A new collection from the arguments of its construction. -/
def construct (k : CollectionKind) (args : List Value) : Eval Value := do
  match k with
  | .set => newCollection k (.set ((← args.mapM raw).foldl Members.insert []))
  | .stack => newCollection k (.stack (args.map Value.plain).reverse)
  | .lru =>
    let a : Arguments := ⟨"LRU", args⟩
    if let some message := (Arity.exactly 1).mismatch? a.name args.length then
      fail .invalidConstructorArity message
    else
      let size ← a.integer 0
      if size ≤ 0 then
        fail .outOfRange ("LRU: capacity must be positive, got " ++ Text.ofInt size)
      else newCollection k (.lru size.toNat [] 0)

/-! ### Methods -/

/-- The members of a set that is given as an argument. -/
def otherSet (a : Arguments) : Eval (List Value) := do
  match ← a.value 0 with
  | .collection .set c => return ((← store).collection c).members
  | _ => a.mismatch 0 "a Set"

/-- Replace the content of a collection. -/
def setContent (c : CollectionId) (content : Collection) : Eval Unit :=
  update fun s => s.setCollection c content

/-- The top of a stack and what is below it. -/
def topOf (a : Arguments) (items : List Value) : Eval (Value × List Value) :=
  match items with
  | v :: rest => pure (v, rest)
  | [] => fail .indexOutOfBounds (a.name ++ ": stack is empty")

/-- A method that every kind of collection has. -/
def commonMethod (run : Runner) (k : CollectionKind) (c : CollectionId) (m : CollectionMethod) :
    Eval Value := do
  match m with
  | .clear =>
    setContent c ((← store).collection c).cleared
    return .nil
  | .size => return .number (Number.ofNat ((← store).collection c).size)
  | .items => newArray (← listing c)
  | .str => return .text (← collectionText run k c)
  | _ => return .nil

/-- A method of a set. -/
def setMethod (c : CollectionId) (m : CollectionMethod) (a : Arguments) : Eval Value := do
  match m with
  | .add =>
    let vs ← a.values.mapM raw
    setContent c (.set (vs.foldl Members.insert ((← store).collection c).members))
    return .collection .set c
  | .remove =>
    let v ← a.value 0
    let vs := ((← store).collection c).members
    setContent c (.set (Members.erase vs v))
    return .boolean (Members.has vs v)
  | .has =>
    let v ← a.value 0
    return .boolean (Members.has ((← store).collection c).members v)
  | .union =>
    let ws ← otherSet a
    newCollection .set (.set (Members.union ((← store).collection c).members ws))
  | .intersect =>
    let ws ← otherSet a
    newCollection .set (.set (Members.inter ((← store).collection c).members ws))
  | _ => return .nil

/-- A method of a stack. -/
def stackMethod (c : CollectionId) (m : CollectionMethod) (a : Arguments) : Eval Value := do
  let vs := ((← store).collection c).items
  match m with
  | .push =>
    setContent c (.stack ((a.values.map Value.plain).reverse ++ vs))
    return .collection .stack c
  | .pop =>
    let (top, rest) ← topOf a vs
    setContent c (.stack rest)
    return top
  | .peek => return (← topOf a vs).1
  | _ => return .nil

/-- A method of a cache. -/
def cacheMethod (c : CollectionId) (m : CollectionMethod) (a : Arguments) : Eval Value := do
  let k ← a.value 0
  let content := (← store).collection c
  let es := content.entries
  match m with
  | .put =>
    let (es, dropped) := Entries.put content.capacity es k (a.get 1).plain
    let lost := (Collection.unfindable dropped).length
    setContent c (.lru content.capacity es (content.strays + lost))
    return .boolean !dropped.isEmpty
  | .get =>
    setContent c (.lru content.capacity (Entries.touch es k) content.strays)
    return (Entries.get? es k).getD .nil
  | .has => return .boolean (Entries.get? es k).isSome
  | .remove =>
    setContent c (.lru content.capacity (Entries.erase es k) content.strays)
    return .boolean (Entries.get? es k).isSome
  | _ => return .nil

/-- Call a method of a collection. -/
def callMethod (run : Runner) (k : CollectionKind) (c : CollectionId) (m : CollectionMethod)
    (args : List Value) : Eval Value := do
  let name := k.name ++ "." ++ m.name
  if let some message := m.arity.mismatch? name args.length then
    fail .arityMismatch message
  else
    let a : Arguments := ⟨name, args⟩
    match m with
    | .clear | .size | .items | .str => commonMethod run k c m
    | _ =>
      match k with
      | .set => setMethod c m a
      | .stack => stackMethod c m a
      | .lru => cacheMethod c m a

end Library

end ScriptLang
