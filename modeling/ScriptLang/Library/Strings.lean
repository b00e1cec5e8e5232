import ScriptLang.Library.Arguments
import ScriptLang.Text.Case
import ScriptLang.Text.Search
import ScriptLang.Text.Space

/-!
# The module `string`
-/

namespace ScriptLang

open Eval

namespace Library

/-- A function of one string. -/
def onText (f : Text → Text) (a : Arguments) : Eval Value := return .text (f (← a.text 0))

/-- A question about two strings. -/
def askTexts (f : Text → Text → Bool) (a : Arguments) : Eval Value := do
  let t ← a.text 0
  return .boolean (f t (← a.text 1))

/-- The parts of a string between separators. -/
def split (a : Arguments) : Eval Value := do
  let t ← a.text 0
  newTexts (Text.splitOn (← a.text 1) t)

/-- The texts of the elements of an array with a separator between them. Each element is read when
its turn comes. -/
def join (run : Runner) (a : Arguments) : Eval Value := do
  let id ← a.array 0
  let sep ← a.text 1
  let w := (← store).window id
  let parts ← (List.range w.length).mapM fun i => do run.stringify ((← store).slot w.block i)
  return .text (Text.join sep parts)

/-- A string with every occurrence of a part replaced. -/
def replace (a : Arguments) : Eval Value := do
  let t ← a.text 0
  let old ← a.text 1
  return .text (Text.replaceAll old (← a.text 2) t)

/-- A string several times; one that is too large to be held ends the process. -/
def repetition (a : Arguments) : Eval Value := do
  let t ← a.text 0
  let n ← a.integer 1
  if n < 0 then fail .outOfRange "string.repeat: count must not be negative"
  else if t.length * n.toNat > Text.sizeLimit then throw .crash
  else return .text (Text.times n.toNat t)

end Library

end ScriptLang
