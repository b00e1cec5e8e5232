import ScriptLang.Settings
import ScriptLang.Text.Space

/-!
# Sessions

A session takes input line by line and runs it in one interpreter, so what one input binds is there
for the next. Lines are collected until they make up a complete program; an expression without a
semicolon at its end is complete too.
-/

namespace ScriptLang

/-- A session. -/
structure Session where
  /-- The interpreter. -/
  interpreter : Interpreter
  /-- The lines of an input that is not complete. -/
  pending : Text := []

/-- What a line of input led to. -/
inductive FeedResult where
  /-- The input is not complete. -/
  | more
  /-- There was nothing to run. -/
  | nothing
  /-- The input was run. -/
  | value (v : Value)
  /-- The input was rejected or failed. -/
  | error (e : RunError)

namespace Session

/-- The file that diagnostics of a session name. -/
def fileName : Text := "<repl>"

/-- A new session. Relative imports start from the directory in the settings, or else from the working
directory. -/
def new (s : Settings) (files : Files) : Session :=
  let here := files.workingDir.toOption.getD []
  { interpreter := s.interpreter files (if s.baseDir.isEmpty then here else s.baseDir) }

/-- Drop the collected lines. -/
def reset (s : Session) : Session := { s with pending := [] }

/-- Whether lines wait for the rest of an input. -/
def isPending (s : Session) : Bool := !s.pending.isEmpty

/-- The program that consists of an expression. -/
def expressionProgram (e : Expr) : Block := ⟨e.span, [.expr e.span e]⟩

/-- A complete program, a rejected one, or nothing if the text is not complete. -/
def read (source : Text) : Option (Except SyntaxError Block) :=
  match Program.parse source fileName with
  | .ok b => some (.ok b)
  | .error e =>
    if e.incomplete then (Expr.parse source fileName).toOption.map fun e => .ok (expressionProgram e)
    else some (.error e)

/-- Check and run a program. -/
def execute (s : Session) (b : Block) : FeedResult × Session :=
  let ds := Program.check b
  if !ds.isEmpty then (.error (.rejected ds), s)
  else
    match s.interpreter.run b with
    | (.ok v, i) => (.value v, { s with interpreter := i })
    | (.error e, i) => (.error (.failed e), { s with interpreter := i })

/-- Add a line of input. -/
def feed (s : Session) (line : Text) : FeedResult × Session :=
  let source := if s.isPending then s.pending ++ "\n" ++ line else line
  if Text.isAllBlank source then (.nothing, s.reset)
  else
    match read source with
    | none => (.more, { s with pending := source })
    | some (.error e) => (.error (.rejected [e.diagnostic]), s.reset)
    | some (.ok b) => s.reset.execute b

end Session

end ScriptLang
