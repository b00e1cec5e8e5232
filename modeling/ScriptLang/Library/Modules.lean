import ScriptLang.Library.Chance
import ScriptLang.Library.Math

/-!
# Modules of the library

A module is imported by its name and becomes an object whose fields are functions and constants. The
catalogue describes everything that the library offers.
-/

namespace ScriptLang

open Eval

/-- A module of the library. -/
inductive Module where
  /-- Numbers. -/
  | math
  /-- Strings. -/
  | string
  /-- Files. -/
  | fs
  /-- JSON. -/
  | json
  /-- The clock. -/
  | time
  /-- Random numbers. -/
  | random
deriving DecidableEq, Repr

namespace Module

/-- All modules, in ascending order of their names. -/
def all : List Module := [fs, json, math, random, string, time]

/-- The name of a module. -/
def name : Module → Text
  | math => "math"
  | string => "string"
  | fs => "fs"
  | json => "json"
  | time => "time"
  | random => "random"

/-- The module with a name. -/
def ofName? (name : Text) : Option Module := all.find? fun m => m.name == name

/-- What a module offers. -/
def doc : Module → Text
  | math => "sqrt pow floor ceil abs min max round, constants pi and e"
  | string => "upper lower trim split join contains replace starts ends repeat"
  | fs => "read write exists list remove"
  | json => "parse stringify"
  | time => "now millis sleep"
  | random => "int float choice seed"

/-- The functions of a module; those of `random` use the given source. -/
def functions (source : Nat) : Module → List Builtin
  | math => [.sqrt, .floor, .ceil, .abs, .round, .pow, .min, .max]
  | string => [.upper, .lower, .trim, .split, .join, .contains, .starts, .ends, .replace, .repetition]
  | fs => [.readFile, .writeFile, .existsFile, .listFiles, .removeFile]
  | json => [.parseJson, .stringify]
  | time => [.now, .millis, .sleep]
  | random => [.randomInt source, .randomFloat source, .randomChoice source, .randomSeed source]

/-- The constants of a module. -/
def constants : Module → List (Text × Value)
  | math => [("pi", .number Number.pi), ("e", .number Number.e)]
  | _ => []

/-- The name of a function inside of its module. -/
def shortName (m : Module) (f : Builtin) : Text := f.name.drop (m.name.length + 1)

/-- A function of a module as a field. -/
def field (m : Module) (f : Builtin) : Eval (Text × Value) :=
  return (m.shortName f, .native (← newNumber) f)

/-- The object of a module, made anew for every import. -/
def load (m : Module) : Eval Value := do
  let source ← if m = .random then Library.newSource else pure 0
  let fields ← (m.functions source).mapM m.field
  newObject (Fields.ofList (m.constants ++ fields))

end Module

/-- What a function that every program has does. -/
def Builtin.doc : Builtin → Text
  | .print => "print(values...) writes values separated by spaces"
  | .println => "println(values...) writes values and a newline"
  | .len => "len(x) length of an array, string, object or sized instance"
  | .str => "str(x) string form of a value"
  | .num => "num(x) converts a string or boolean to a number"
  | .ref => "ref(name) reference to a variable's storage"
  | .deref => "deref(r) value a reference points at"
  | .range => "range([start,] end [, step]) numbers up to end, exclusive"
  | .push => "push(arr, values...) appends in place"
  | .pop => "pop(arr) removes and returns the last element"
  | .keys => "keys(obj) sorted field names"
  | .values => "values(obj) field values in key order"
  | .sort => "sort(arr [, less]) sorted copy"
  | .map => "map(arr, fn) applies fn to each element"
  | .filter => "filter(arr, fn) elements for which fn is truthy"
  | _ => []

/-- What a collection is. -/
def CollectionKind.doc : CollectionKind → Text
  | .set => "new Set(values...) unordered collection of distinct values"
  | .stack => "new Stack(values...) last-in first-out collection"
  | .lru => "new LRU(capacity) cache evicting the least recently used key"

/-- An entry of the catalogue. -/
structure CatalogueEntry where
  /-- A function, a module or a struct. -/
  kind : Text
  /-- The name. -/
  name : Text
  /-- What it is. -/
  doc : Text
deriving DecidableEq, Repr

namespace Library

/-- Entries in ascending order of their names. -/
def byName (es : List CatalogueEntry) : List CatalogueEntry :=
  es.mergeSort fun a b => decide (a.name ≤ b.name)

/-- Everything that the library offers: functions, modules and structs, each in ascending order of
their names. -/
def catalogue : List CatalogueEntry :=
  byName (Builtin.globals.map fun f => ⟨"function", f.name, f.doc⟩) ++
    byName (Module.all.map fun m => ⟨"module", m.name, m.doc⟩) ++
    byName (CollectionKind.all.map fun k => ⟨"struct", k.name, k.doc⟩)

end Library

end ScriptLang
