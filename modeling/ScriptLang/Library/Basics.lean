import ScriptLang.Decimal.Reader
import ScriptLang.Library.Arguments
import ScriptLang.Text.Space

/-!
# Output, conversion and ranges

The functions that every program has for writing values, for measuring and converting them and for
counting.
-/

namespace ScriptLang

open Eval

namespace Library

/-- Write the texts of the arguments with spaces between them, and `ending` after them, in a single
write. -/
def print (run : Runner) (a : Arguments) (ending : Text) : Eval Value := do
  let parts ← a.values.mapM run.stringify
  if ← write (Text.join " " parts ++ ending) then return .nil
  else fail .transfer (a.name ++ ": sink closed")

/-- The length of a value. -/
def len (run : Runner) (a : Arguments) : Eval Value :=
  return .number (Number.ofInt (← run.len (a.get 0)))

/-- The text of a value. -/
def str (run : Runner) (a : Arguments) : Eval Value := return .text (← run.stringify (a.get 0))

/-- The number that a value stands for. -/
def num (a : Arguments) : Eval Value := do
  match ← a.value 0 with
  | .number n => return .number n
  | .boolean b => return .number (if b then 1 else 0)
  | .text t =>
    match Number.read? (Text.trim t) with
    | some n => return .number n
    | none => fail .typeMismatch ("num: cannot convert " ++ Text.quoted t ++ " to a Number")
  | _ => a.mismatch 0 "a String, Number or Boolean"

/-- A reference to a cell; a cell that holds a reference gives that reference. -/
def refTo (cell : CellId) : Eval Value := do
  match (← store).read cell with
  | .reference id target => return .reference id target
  | _ => return .reference (← newNumber) (some cell)

/-- A reference to a new cell that holds a value. -/
def refNew (v : Value) : Eval Value := do
  let cell ← change fun s => s.newCell v
  return .reference (← newNumber) (some cell)

/-- A reference to an argument, which lives in a cell of its own. -/
def ref (a : Arguments) : Eval Value := do refTo (← change fun s => s.newCell (a.get 0))

/-- What a reference refers to. -/
def deref (a : Arguments) : Eval Value := return (← store).deref (a.get 0)

/-- The numbers from `n` on by `step` before `last` is reached, after those in `done`; `fuel` bounds
their number. -/
def countFrom (step last : Float) : Nat → Float → Array Value → Option (Array Value)
  | 0, _, _ => none
  | fuel + 1, n, done =>
    if (step > 0 && n < last) || (step < 0 && n > last) then
      countFrom step last fuel (n + step) (done.push (.number n))
    else some done

/-- A bound on the length of a progression. None that comes to an end is as long: a step that changes every
number on its way is not that small beside them. -/
def progressionLimit : Nat := 1152921504606846976

/-- The numbers from `first` on by `step` before `last` is reached. -/
def progression (first last step : Float) : Eval Value := do
  let ns ← orStuck (countFrom step last progressionLimit first #[])
  grownArray ns.toList

/-- The numbers of a range. One argument is the end, two are start and end, and a third is the
step. -/
def range (a : Arguments) : Eval Value := do
  let first ← if a.has 1 then a.number 0 else pure 0
  let last ← if a.has 1 then a.number 1 else a.number 0
  let step ← if a.has 2 then a.number 2 else pure 1
  if step == 0 then fail .invalidStep "range: step must not be zero"
  else if (step > 0 && first > last) || (step < 0 && first < last) then
    fail .invalidRange ("range: cannot go from " ++ Number.print first ++ " to " ++
      Number.print last ++ " with step " ++ Number.print step)
  else progression first last step

end Library

end ScriptLang
