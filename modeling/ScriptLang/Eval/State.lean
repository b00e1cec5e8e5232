import ScriptLang.Eval.Failure
import ScriptLang.Files.Basic
import ScriptLang.Log
import ScriptLang.Policy
import ScriptLang.Store.Scope
import ScriptLang.Value.Compare
import ScriptLang.Value.Render

/-!
# The state of a run

A run works on the store and on everything outside of the program that it can touch: the files, what
was written, the log, the clock and the sources of random numbers. The host decides what the program
may do and when it is stopped.

An evaluation is a function of the host and the state. A failure keeps the state it arose in, so the
effects before a failure are never undone.
-/

namespace ScriptLang

/-- What the surroundings of a run decide. -/
structure Host where
  /-- The modules that may be imported. -/
  policy : Policy := Policy.allowAll
  /-- How many imported files are kept after they were parsed. -/
  cacheSize : Nat := 64
  /-- The run is cancelled after this number of writes. -/
  cancelAfter : Option Nat := none
  /-- Writes fail after this number of writes. -/
  failAfter : Option Nat := none
  /-- Whether the log is kept. -/
  logging : Bool := false
  /-- Whether failures are reported when they leave the program. -/
  echo : Bool := false

/-- Imported files after parsing, the one used last first. -/
abbrev KeptFiles := List (Text × Block)

/-- The state of a run. -/
structure State where
  /-- Everything that programs can change. -/
  store : Store := {}
  /-- The files whose import is in progress, the innermost first. -/
  importing : List Text := []
  /-- The directory for relative imports; empty for the working directory. -/
  dir : Text := []
  /-- The imported files that are kept. -/
  parsed : KeptFiles := []
  /-- The files. -/
  files : Files := {}
  /-- What was written, write by write. -/
  writes : Array Text := #[]
  /-- The log. -/
  log : Array LogRecord := #[]
  /-- The reports of failures. -/
  reports : Text := []
  /-- The sources of random numbers. -/
  randomness : Array UInt64 := #[]
  /-- The time in nanoseconds. -/
  clock : Nat := 0

/-- An evaluation. -/
abbrev Eval := ReaderT Host (EStateM Failure State)

namespace Eval

/-! ### Failing -/

/-- Fail with an error of the program. -/
def fail {α : Type} (code : Code) (message : Text) : Eval α :=
  throw (.fault { code := code, message := message })

/-- Fail with an error of the program that comes with a hint. -/
def failWithHint {α : Type} (code : Code) (message hint : Text) : Eval α :=
  throw (.fault { code := code, message := message, hint := hint })

/-- An evaluation whose faults are placed at a span, unless they have a place already. -/
def located {α : Type} (span : Span) (x : Eval α) : Eval α :=
  fun host s =>
    match x host s with
    | .ok a s => .ok a s
    | .error e s => .error (e.located span) s

/-- The answer, or stuck if there is none. -/
def orStuck {α : Type} : Option α → Eval α
  | some a => pure a
  | none => throw .stuck

/-- A result of work on names. -/
def named {α : Type} : Except NameFault α → Eval α
  | .ok a => pure a
  | .error e => fail e.code e.message

/-! ### The store -/

/-- The store. -/
def store : Eval Store := return (← get).store

/-- Change the store and keep what the change gives. -/
def change {α : Type} (f : Store → α × Store) : Eval α :=
  modifyGet fun st => let (a, s) := f st.store; (a, { st with store := s })

/-- Change the store. -/
def update (f : Store → Store) : Eval Unit := modify fun st => { st with store := f st.store }

/-- The value without annotations and references. -/
def raw (v : Value) : Eval Value := do orStuck ((← store).raw? v)

/-- A number that was never given out before. -/
def newNumber : Eval Nat := change Store.newNumber

/-- A new array with exactly these elements. -/
def newArray (elems : List Value) : Eval Value :=
  return .array (← change fun s => s.newArray elems elems.length)

/-- A new array of elements that were added one by one. -/
def grownArray (elems : List Value) : Eval Value :=
  return .array (← change fun s => s.newArray elems (Growth.sizeFor elems.length))

/-- A new object that belongs to no struct. -/
def newObject (fields : Fields) : Eval Value :=
  return .object (← change fun s => s.newObject fields) none

/-- A new scope inside of another one. -/
def newScope (parent : ScopeId) : Eval ScopeId := change fun s => s.newScope (some parent)

/-- A change to names. -/
@[inline]
def naming {α : Type} (x : Naming α) : Eval α := fun _ st =>
  let s := st.store
  -- The state lets go of the store, so that the change can be made in place.
  let st := { st with store := {} }
  match x s with
  | .ok a t => .ok a { st with store := t }
  | .error e t => .error (.fault { code := e.code, message := e.message }) { st with store := t }

/-- Bind a variable. -/
def define (scope : ScopeId) (name : Text) (v : Value) : Eval Unit :=
  naming (Naming.define scope name v)

/-- Bind a constant. -/
def declareConstant (scope : ScopeId) (name : Text) (v : Value) : Eval Unit :=
  naming (Naming.declareConstant scope name v)

/-- The value of a name. -/
def lookup (scope : ScopeId) (name : Text) : Eval Value := do named ((← store).lookup scope name)

/-- The text of a value when no method is asked. -/
def display (v : Value) : Eval Text := do orStuck ((← store).render? v)

/-- The name of the type of what a value holds. -/
def typeName (v : Value) : Eval Text := return (← raw v).typeName

/-! ### The outside -/

/-- Note a record in the log. -/
def note (message : Text) (details : List (Text × LogValue)) : Eval Unit := do
  if (← read).logging then
    modify fun st => { st with log := st.log.push { message, details } }

/-- Whether the run was cancelled. -/
def isCancelled : Eval Bool := do
  return (← read).cancelAfter.any (· ≤ (← get).writes.size)

/-- Stop here if the run was cancelled. -/
def checkCancelled : Eval Unit := do
  if ← isCancelled then throw (.cancelled "evaluation stopped")

/-- Write a text; the answer is false when the sink refused it. -/
def write (t : Text) : Eval Bool := do
  if (← read).failAfter.any (· ≤ (← get).writes.size) then return false
  modify fun st => { st with writes := st.writes.push t }
  return true

end Eval

end ScriptLang
