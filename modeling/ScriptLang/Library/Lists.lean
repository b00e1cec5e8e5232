import ScriptLang.Library.Arguments
import ScriptLang.Library.Sorting

/-!
# Arrays and objects

The functions that every program has for working on arrays and objects. A function that is given to
`map` or `filter` sees the elements as they were at the start.
-/

namespace ScriptLang

open Eval

namespace Library

/-- Add values at the end of an array. -/
def push (a : Arguments) : Eval Value := do
  let id ← a.array 0
  update fun s => (a.values.drop 1).foldl (fun s v => s.push id v.plain) s
  return .array id

/-- Remove the last element of an array. -/
def pop (a : Arguments) : Eval Value := do
  let id ← a.array 0
  let w := (← store).window id
  if w.length = 0 then fail .indexOutOfBounds "pop: array is empty"
  else
    let last := (← store).slot w.block (w.length - 1)
    update fun s => s.dropLast id
    return last

/-- The names of the fields of an object. -/
def keys (a : Arguments) : Eval Value := do
  let id ← a.object 0
  newTexts ((← store).fields id).names

/-- The values of the fields of an object, in the order of their names. -/
def values (a : Arguments) : Eval Value := do
  let id ← a.object 0
  newArray (((← store).fields id).entries.map Prod.snd)

/-- The elements in the order of values. -/
def sorted (s : Store) (vs : List Value) : Option (List Value) :=
  Sorting.sortM (fun v w => do return (← s.order? v w) == .lt) vs

/-- Whether one value goes before another by a function of the program: it gives true, or a number
below zero. -/
def goesBefore (run : Runner) (less : Value) (x y : Value) : Eval Bool := do
  match ← raw (← run.call less [x, y]) with
  | .boolean b => return b
  | .number n => return n < 0
  | v =>
    fail .typeMismatch ("sort: comparator must return a Boolean or Number, got " ++ v.typeName)

/-- A sorted copy of an array. -/
def sort (run : Runner) (a : Arguments) : Eval Value := do
  let vs := (← store).elements (← a.array 0)
  if a.has 1 then newArray (← Sorting.sortM (goesBefore run (a.get 1)) vs)
  else newArray (← orStuck (sorted (← store) vs))

/-- Call a function on an element; a function of the program with two parameters gets the position
too. -/
def callOn (run : Runner) (f : Value) (v : Value) (i : Nat) : Eval Value := do
  match ← raw f with
  | .function _ decl _ =>
    if decl.params.length == 2 then run.call f [v, .number (Number.ofNat i)] else run.call f [v]
  | _ => run.call f [v]

/-- A new array with room for as many elements as another list has. -/
def newArrayLike (elems like : List Value) : Eval Value :=
  return .array (← change fun s => s.newArray elems like.length)

/-- The results of a function on the elements of an array. -/
def map (run : Runner) (a : Arguments) : Eval Value := do
  let vs := (← store).elements (← a.array 0)
  newArray (← vs.zipIdx.mapM fun (v, i) => return (← callOn run (a.get 1) v i).plain)

/-- The elements of an array for which a function gives something true. -/
def filter (run : Runner) (a : Arguments) : Eval Value := do
  let vs := (← store).elements (← a.array 0)
  let kept ← vs.zipIdx.filterM fun (v, i) => do run.truthy (← callOn run (a.get 1) v i)
  newArrayLike (kept.map Prod.fst) vs

end Library

end ScriptLang
