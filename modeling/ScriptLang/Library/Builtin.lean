import ScriptLang.Text.Basic

/-!
# The functions of the library

The functions that every program has, and the modules that a program can import. Each function has
a name, under which its faults are reported, and a least and greatest number of arguments.
-/

namespace ScriptLang

/-- A function of the library. -/
inductive Builtin where
  /-- Write values. -/
  | print | println
  /-- Convert and measure values. -/
  | len | str | num | ref | deref | range
  /-- Work on arrays and objects. -/
  | push | pop | keys | values | sort | map | filter
  /-- The module `math`. -/
  | sqrt | floor | ceil | abs | round | pow | min | max
  /-- The module `string`. -/
  | upper | lower | trim | split | join | contains | starts | ends | replace | repetition
  /-- The module `fs`. -/
  | readFile | writeFile | existsFile | listFiles | removeFile
  /-- The module `json`. -/
  | parseJson | stringify
  /-- The module `time`. -/
  | now | millis | sleep
  /-- The module `random`; every import has a source of numbers of its own. -/
  | randomInt (source : Nat) | randomFloat (source : Nat) | randomChoice (source : Nat)
  | randomSeed (source : Nat)
deriving DecidableEq, Repr

namespace Builtin

/-- The name of a function, with the module it belongs to. -/
def name : Builtin → Text
  | print => "print"
  | println => "println"
  | len => "len"
  | str => "str"
  | num => "num"
  | ref => "ref"
  | deref => "deref"
  | range => "range"
  | push => "push"
  | pop => "pop"
  | keys => "keys"
  | values => "values"
  | sort => "sort"
  | map => "map"
  | filter => "filter"
  | sqrt => "math.sqrt"
  | floor => "math.floor"
  | ceil => "math.ceil"
  | abs => "math.abs"
  | round => "math.round"
  | pow => "math.pow"
  | min => "math.min"
  | max => "math.max"
  | upper => "string.upper"
  | lower => "string.lower"
  | trim => "string.trim"
  | split => "string.split"
  | join => "string.join"
  | contains => "string.contains"
  | starts => "string.starts"
  | ends => "string.ends"
  | replace => "string.replace"
  | repetition => "string.repeat"
  | readFile => "fs.read"
  | writeFile => "fs.write"
  | existsFile => "fs.exists"
  | listFiles => "fs.list"
  | removeFile => "fs.remove"
  | parseJson => "json.parse"
  | stringify => "json.stringify"
  | now => "time.now"
  | millis => "time.millis"
  | sleep => "time.sleep"
  | randomInt _ => "random.int"
  | randomFloat _ => "random.float"
  | randomChoice _ => "random.choice"
  | randomSeed _ => "random.seed"

/-- The functions that every program has. -/
def globals : List Builtin :=
  [print, println, len, str, num, ref, deref, range, push, pop, keys, values, sort, map, filter]

/-- The function with a name that every program has. -/
def global? (name : Text) : Option Builtin := globals.find? fun b => b.name == name

end Builtin

/-- How many arguments a function takes. -/
structure Arity where
  /-- The least number. -/
  least : Nat
  /-- The greatest number, if there is one. -/
  most : Option Nat
deriving DecidableEq, Repr

namespace Arity

/-- Exactly `n` arguments. -/
def exactly (n : Nat) : Arity := ⟨n, some n⟩

/-- From `n` to `m` arguments. -/
def between (n m : Nat) : Arity := ⟨n, some m⟩

/-- At least `n` arguments. -/
def atLeast (n : Nat) : Arity := ⟨n, none⟩

/-- What is wrong with a number of arguments. -/
def mismatch? (a : Arity) (name : Text) (got : Nat) : Option Text :=
  match a.most with
  | none =>
    if got < a.least then
      some (name ++ " expects at least " ++ Text.ofNat a.least ++ " argument(s), got " ++
        Text.ofNat got)
    else none
  | some most =>
    if a.least ≤ got && got ≤ most then none
    else if a.least == most then
      some (name ++ " expects " ++ Text.ofNat most ++ " argument(s), got " ++ Text.ofNat got)
    else
      some (name ++ " expects " ++ Text.ofNat a.least ++ " to " ++ Text.ofNat most ++
        " arguments, got " ++ Text.ofNat got)

end Arity

/-- How many arguments a function of the library takes. -/
def Builtin.arity : Builtin → Arity
  | print | println => .atLeast 0
  | push => .atLeast 2
  | min | max => .atLeast 1
  | range => .between 1 3
  | sort | stringify => .between 1 2
  | writeFile => .between 2 3
  | replace => .exactly 3
  | map | filter | pow | split | join | contains | starts | ends | repetition
  | randomInt _ => .exactly 2
  | now | millis | randomFloat _ => .exactly 0
  | len | str | num | ref | deref | pop | keys | values | sqrt | floor | ceil | abs | round
  | upper | lower | trim | readFile | existsFile | listFiles | removeFile | parseJson | sleep
  | randomChoice _ | randomSeed _ => .exactly 1

/-- The collections of the library. -/
inductive CollectionKind where
  /-- Distinct values. -/
  | set
  /-- Values of which the last is taken first. -/
  | stack
  /-- Values under keys, of which the one that was not used for the longest time is dropped. -/
  | lru
deriving DecidableEq, Repr

namespace CollectionKind

/-- The name of a kind of collection. -/
def name : CollectionKind → Text
  | set => "Set"
  | stack => "Stack"
  | lru => "LRU"

/-- All kinds of collections. -/
def all : List CollectionKind := [set, stack, lru]

/-- The kind of collection with a name. -/
def ofName? (name : Text) : Option CollectionKind := all.find? fun k => k.name == name

end CollectionKind

/-- A method of a collection. -/
inductive CollectionMethod where
  /-- Change the members. -/
  | add | remove | clear | push | pop | put
  /-- Ask about the members. -/
  | has | peek | get | size | items | str
  /-- Combine two sets. -/
  | union | intersect
deriving DecidableEq, Repr

namespace CollectionMethod

/-- The name of a method. -/
def name : CollectionMethod → Text
  | add => "add"
  | remove => "remove"
  | clear => "clear"
  | push => "push"
  | pop => "pop"
  | put => "set"
  | has => "has"
  | peek => "peek"
  | get => "get"
  | size => "size"
  | items => "items"
  | str => "str"
  | union => "union"
  | intersect => "intersect"

/-- How many arguments a method takes. -/
def arity : CollectionMethod → Arity
  | add | push => .atLeast 1
  | remove | has | get | union | intersect => .exactly 1
  | put => .exactly 2
  | clear | pop | peek | size | items | str => .exactly 0

end CollectionMethod

namespace CollectionKind

/-- The methods of a kind of collection. -/
def methods : CollectionKind → List CollectionMethod
  | set => [.add, .remove, .has, .union, .intersect, .clear, .size, .items, .str]
  | stack => [.push, .pop, .peek, .clear, .size, .items, .str]
  | lru => [.put, .get, .has, .remove, .clear, .size, .items, .str]

/-- The method of a kind of collection with a name. -/
def method? (k : CollectionKind) (name : Text) : Option CollectionMethod :=
  k.methods.find? fun m => m.name == name

end CollectionKind

end ScriptLang
