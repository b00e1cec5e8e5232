import ScriptLang.Text.Basic

/-!
# TOML documents

A document is read in two steps: into the list of its lines that say something, and from that into a
tree of tables. Every table and every value remembers the line at which it was complete. A table may
be named once, but the tables around it come into being by themselves, and so do tables inside of
braces; such a table may still be named later, which adds to it. Tables in braces inside of a sequence
make the key a sequence of tables, whatever else stands in the sequence.
-/

namespace ScriptLang

/-- A value. Numbers that are no integers, truth values and dates are only told apart from the
rest. -/
inductive TomlValue where
  /-- A string. -/
  | text (t : Text)
  /-- An integer, as it was written but without underscores. -/
  | integer (digits : Text)
  /-- A number with a fraction or an exponent. -/
  | float
  /-- A truth value. -/
  | boolean
  /-- A date or a time. -/
  | moment
  /-- A sequence. -/
  | array (items : List TomlValue)
  /-- A table in braces, with the line where it starts and the lines of its entries. -/
  | inlineTable (line : Nat) (entries : List (Text × TomlValue × Nat))

namespace TomlValue

mutual

/-- Whether a value is a table in braces, or a sequence with one in it. -/
def hasTable : TomlValue → Bool
  | .inlineTable .. => true
  | .array items => anyTable items
  | _ => false

/-- Whether there is a table in braces among the elements of a sequence. -/
def anyTable : List TomlValue → Bool
  | [] => false
  | v :: rest => hasTable v || anyTable rest

end

end TomlValue

/-- Something that a document says. -/
inductive TomlItem where
  /-- The entries that follow belong to this table. -/
  | table (names : List Text) (line : Nat)
  /-- The entries that follow belong to a new table of this sequence of tables. -/
  | tableOfMany (names : List Text) (line : Nat)
  /-- An entry. -/
  | entry (key : Text) (value : TomlValue) (line : Nat)

/-- What stands under a key. -/
inductive TomlNode where
  /-- A value. -/
  | value (v : TomlValue) (line : Nat)
  /-- A table; `named` says whether it was named itself. -/
  | table (named : Bool) (line : Nat) (entries : List (Text × TomlNode))
  /-- A sequence of tables, of which only the last can grow; the line is that of the first. -/
  | tables (line : Nat) (last : List (Text × TomlNode))

/-- The entries of a table, in the order in which they came. -/
abbrev TomlTable := List (Text × TomlNode)

namespace TomlNode

/-- The line of what stands under a key. -/
def line : TomlNode → Nat
  | value _ n => n
  | table _ n _ => n
  | tables n _ => n

/-- The entries of a table, or of the last of a sequence of tables. -/
def entries : TomlNode → List (Text × TomlNode)
  | value _ _ => []
  | table _ _ es => es
  | tables _ es => es

end TomlNode

namespace TomlTable

/-- What stands under a key. -/
def get? (t : TomlTable) (key : Text) : Option TomlNode := t.lookup key

/-- The table with something put under a key, in the place of what stood there. -/
def put (t : TomlTable) (key : Text) (n : TomlNode) : TomlTable :=
  match t with
  | [] => [(key, n)]
  | (k, m) :: rest => if k = key then (k, n) :: rest else (k, m) :: TomlTable.put rest key n

/-- Change the table that a list of names leads to, starting from a table. Missing tables come into
being, and of a sequence of tables the last is meant. -/
def within (line : Nat) (change : TomlTable → Option TomlTable) :
    List Text → TomlTable → Option TomlTable
  | [], t => change t
  | name :: names, t => do
    match t.get? name with
    | none => return t.put name (.table false line (← within line change names []))
    | some (.table named l es) => return t.put name (.table named l (← within line change names es))
    | some (.tables l es) => return t.put name (.tables l (← within line change names es))
    | some (.value ..) => none

/-- Add a table under a name; the table may have come into being already, but not been named. -/
def addTable (named : Bool) (line : Nat) (name : Text) (t : TomlTable) : Option TomlTable :=
  match t.get? name with
  | none => some (t.put name (.table named line []))
  | some (.table false _ es) => some (t.put name (.table named line es))
  | some _ => none

/-- Add a value under a key that has none yet. -/
def addPlain (key : Text) (line : Nat) (v : TomlValue) (t : TomlTable) : Option TomlTable :=
  if (t.get? key).isSome then none else some (t.put key (.value v line))

/-- Add a table to a sequence of tables. -/
def addTableOfMany (line : Nat) (name : Text) (t : TomlTable) : Option TomlTable :=
  match t.get? name with
  | none => some (t.put name (.tables line []))
  | some (.tables l _) => some (t.put name (.tables l []))
  | some _ => none

mutual

/-- Add an entry to a table that has nothing under its key yet. Inside of a sequence, a table in braces
is one of a sequence of tables. -/
def addEntry (inArray : Bool) (key : Text) (line : Nat) (t : TomlTable) :
    TomlValue → Option TomlTable
  | .inlineTable start entries => do
    if inArray then
      let t ← addTableOfMany start key t
      let inner ← addEntries true [] entries
      return t.put key (.tables ((t.get? key).elim start TomlNode.line) inner)
    else
      let t ← addTable false start key t
      let inner ← addEntries false ((t.get? key).elim [] TomlNode.entries) entries
      return t.put key (.table false start inner)
  | .array items =>
    if TomlValue.anyTable items then addItems key t items
    else addPlain key line (.array items) t
  | v => addPlain key line v t

/-- Add entries to a table. -/
def addEntries (inArray : Bool) (t : TomlTable) : List (Text × TomlValue × Nat) → Option TomlTable
  | [] => some t
  | (key, v, line) :: rest => do addEntries inArray (← addEntry inArray key line t v) rest

/-- Add the tables in a sequence to a table. -/
def addItems (key : Text) (t : TomlTable) : List TomlValue → Option TomlTable
  | [] => some t
  | .inlineTable start entries :: rest => do
    let t ← addEntry true key start t (.inlineTable start entries)
    addItems key t rest
  | .array items :: rest => do addItems key (← addItems key t items) rest
  | _ :: rest => addItems key t rest

end

/-- The document's table after one more item, and the names of the table that entries go to. -/
def addItem (t : TomlTable) (here : List Text) : TomlItem → Option (TomlTable × List Text)
  | .table names line => do
    let name ← names.getLast?
    return (← within line (addTable true line name) names.dropLast t, names)
  | .tableOfMany names line => do
    let name ← names.getLast?
    return (← within line (addTableOfMany line name) names.dropLast t, names)
  | .entry key v line => return (← within line (fun t => addEntry false key line t v) here t, here)

/-- The table of a document; there is none if the items contradict each other. -/
def ofItems (items : List TomlItem) : Option TomlTable := do
  let (t, _) ← items.foldlM (fun (t, here) item => addItem t here item) (([], []) : TomlTable × List Text)
  return t

end TomlTable

end ScriptLang
