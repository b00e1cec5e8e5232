import ScriptLang.Library.Basics
import ScriptLang.Library.Chance
import ScriptLang.Library.Collections
import ScriptLang.Library.Lists
import ScriptLang.Library.Math
import ScriptLang.Library.Persistence
import ScriptLang.Library.Strings

/-!
# Calls of library functions

What each function of the library does with its arguments.
-/

namespace ScriptLang

open Eval

namespace Library

/-- What a function of the library does. -/
def perform (run : Runner) (f : Builtin) (a : Arguments) : Eval Value :=
  match f with
  | .print => print run a []
  | .println => print run a "\n"
  | .len => len run a
  | .str => str run a
  | .num => num a
  | .ref => ref a
  | .deref => deref a
  | .range => range a
  | .push => push a
  | .pop => pop a
  | .keys => keys a
  | .values => values a
  | .sort => sort run a
  | .map => map run a
  | .filter => filter run a
  | .sqrt => onNumber Float.sqrt a
  | .floor => onNumber Float.floor a
  | .ceil => onNumber Float.ceil a
  | .abs => onNumber Float.abs a
  | .round => onNumber Float.round a
  | .pow => pow a
  | .min => least a
  | .max => greatest a
  | .upper => onText Text.toUpper a
  | .lower => onText Text.toLower a
  | .trim => onText Text.trim a
  | .split => split a
  | .join => join run a
  | .contains => askTexts (fun t part => Text.contains part t) a
  | .starts => askTexts (fun t part => part.isPrefixOf t) a
  | .ends => askTexts (fun t part => part.isSuffixOf t) a
  | .replace => replace a
  | .repetition => repetition a
  | .readFile => readFile a
  | .writeFile => writeFile a
  | .existsFile => existsFile a
  | .listFiles => listFiles a
  | .removeFile => removeFile a
  | .parseJson => parseJson a
  | .stringify => stringify a
  | .now => now
  | .millis => millis
  | .sleep => sleep a
  | .randomInt source => randomInt source a
  | .randomFloat source => randomFloat source
  | .randomChoice source => randomChoice source a
  | .randomSeed source => randomSeed source a

/-- Fail if a function of the library does not take this number of arguments. -/
def checkArity (f : Builtin) (got : Nat) : Eval Unit :=
  match f.arity.mismatch? f.name got with
  | some message => fail .arityMismatch message
  | none => pure ()

/-- Call a function of the library. -/
def call (run : Runner) (f : Builtin) (args : List Value) : Eval Value := do
  checkArity f args.length
  perform run f ⟨f.name, args⟩

/-- Call a function of the library by its name, with arguments that are not evaluated yet. The number
of arguments is checked before any of them is evaluated, and a reference to a variable is a reference
to the cell of the variable. -/
def callByName (run : Runner) (f : Builtin) (args : List Expr) (scope : ScopeId) : Eval Value := do
  checkArity f args.length
  match f, args with
  | .ref, [.ident _ name] => refTo (← named ((← store).cellOf scope name))
  | .ref, [e] => refNew (← run.expr e scope)
  | _, _ => perform run f ⟨f.name, ← run.exprs args scope⟩

end Library

end ScriptLang
