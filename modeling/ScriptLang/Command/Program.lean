import ScriptLang.Command.Shell
import ScriptLang.Syntax.Print
import ScriptLang.Table

/-!
# Commands on programs

Running, checking and formatting a program, and listing its tokens.
-/

namespace ScriptLang

open Shell

namespace Workplace

/-- Print the value of the last statement. -/
def resultFlag : Flag := ⟨["result"], false⟩

/-- Write the result to the file. -/
def writeFlag : Flag := ⟨["write", "w"], false⟩

/-- Only tell whether the file is formatted. -/
def checkFlag : Flag := ⟨["check"], false⟩

/-- List tokens. -/
def tokensFlag : Flag := ⟨["tokens"], false⟩

/-- Run a program. -/
def runCommand (w : Workplace) : Shell Unit := do
  let (source, file) ← w.readSource "run" "<file|->"
  let (result, i) := w.settings.run w.call.files source file
  w.absorb 0 0 i
  match result with
  | .error e => w.report source e
  | .ok v =>
    if resultFlag.isOn w.flags then print ((i.state.store.render? v).getD [] ++ "\n")

/-- Check a program. -/
def checkCommand (w : Workplace) : Shell Unit := do
  let (source, file) ← w.readSource "check" "<file|->"
  let ds := Program.diagnose source file
  if !ds.isEmpty then w.report source (.rejected ds)
  else print (if w.pretty then "No errors found.\n" else "[]\n")

/-- Write a formatted program to its file. -/
def writeBack (w : Workplace) (file formatted : Text) : Shell Unit := do
  if file = "<stdin>" then
    complain "ember: cannot write formatted output back to stdin\n"
    exit exitFailure
  else
    match (← get).files.write file formatted with
    | .error e => w.reportFile ("cannot write " ++ file ++ ": " ++ e.message)
    | .ok files =>
      modify fun c => { c with files := files }
      w.log { message := "formatted file", details := [("file", .text file)], level := .info }

/-- Format a program. -/
def formatCommand (w : Workplace) : Shell Unit := do
  let (source, file) ← w.readSource "fmt" "<file>"
  match Program.parse source file with
  | .error e => w.report source (.rejected [e.diagnostic])
  | .ok b =>
    let formatted := Program.print b
    if Token.hasComments false source then
      complain "warning: comments are not preserved by the formatter\n"
    if checkFlag.isOn w.flags then
      if formatted ≠ source then
        print (file ++ "\n")
        exit exitFailure
    else if writeFlag.isOn w.flags then w.writeBack file formatted
    else print formatted

/-- A token as a row of a table. -/
def tokenRow (t : Token) : List Text :=
  [Text.ofNat t.span.line, Text.ofNat t.span.col, t.kind.name, t.value]

/-- The table of tokens. -/
def tokenTable (ts : List Token) : Table := ⟨["Line", "Col", "Kind", "Value"], ts.map tokenRow, false⟩

/-- List the tokens of a program, or show the program. -/
def parseCommand (w : Workplace) : Shell Unit := do
  let (source, file) ← w.readSource "parse" "<file|->"
  if tokensFlag.isOn w.flags then
    match Token.scan source file with
    | .error e => w.report source (.rejected [e.diagnostic])
    | .ok ts => print (tokenTable ts).render
  else
    match Program.parse source file with
    | .error e => w.report source (.rejected [e.diagnostic])
    | .ok b => print (Program.print b)

end Workplace

end ScriptLang
