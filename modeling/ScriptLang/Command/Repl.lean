import ScriptLang.Command.Shell

/-!
# Sessions on the command line

Input is taken line by line and run as soon as it is complete. The value of an input is printed unless
it is nil; errors are reported, and the session goes on. `:quit` ends it and `:reset` drops an input
that is not complete.
-/

namespace ScriptLang

open Shell

namespace Workplace

/-- The longest line that is taken. -/
def longestLine : Nat := 65535

/-- The lines of an input; a line break at the end starts no line. -/
def inputLines (t : Text) : List Text :=
  let ls := Text.lines t
  if ls.getLast? == some [] then ls.dropLast else ls

/-- A line without the carriage return at its end. -/
def withoutReturn (line : Text) : Text := if line.getLast? == some 0x0d then line.dropLast else line

/-- Report what went wrong with an input; `source` is all of its lines. -/
def reportInput (w : Workplace) (source : Text) (e : RunError) : Shell Unit :=
  if e = .failed .crash then crash
  else if e.diagnostics.isEmpty then complain ("error: " ++ e.message ++ "\n")
  else w.diagnose source e.diagnostics

/-- Report why a value has no text. -/
def reportFailure (e : Failure) : Shell Unit :=
  if e = .crash then crash else complain ("error: " ++ e.message ++ "\n")

/-- Print the value of an input. -/
def printValue (w : Workplace) (s : Session) (v : Value) : Shell Session := do
  match s.interpreter.state.store.raw? v with
  | some .nil => return s
  | _ =>
    let (writes, records) := (s.interpreter.state.writes.size, s.interpreter.state.log.size)
    let (text, i) := s.interpreter.stringify v
    w.absorb writes records i
    match text with
    | .ok t => print (w.paint "32" t ++ "\n")
    | .error e => reportFailure e
    return { s with interpreter := i }

/-- Take a line; `chunk` holds the lines of the input so far, the last first. -/
def takeLine (w : Workplace) (s : Session) (chunk : List Text) (line : Text) :
    Shell (Session × List Text) := do
  let chunk := line :: chunk
  let (writes, records) := (s.interpreter.state.writes.size, s.interpreter.state.log.size)
  let (result, s) := s.feed line
  w.absorb writes records s.interpreter
  match result with
  | .more => return (s, chunk)
  | .nothing => return (s, [])
  | .error e =>
    w.reportInput (Text.join "\n" chunk.reverse) e
    return (s, [])
  | .value v => return (← w.printValue s v, [])

/-- Go through the lines of an input. -/
def session (w : Workplace) (s : Session) (chunk : List Text) : List Text → Shell Unit
  | [] => return
  | raw :: rest => do
    let line := withoutReturn raw
    let word := Text.trim line
    if raw.length > longestLine then
      complain "ember: bufio.Scanner: token too long\n"
      exit exitFailure
    else if word = ":quit" ∨ word = ":q" then return
    else if word = ":reset" then w.session s.reset [] rest
    else
      let (s, chunk) ← w.takeLine s chunk line
      w.session s chunk rest

/-- Run a session over the standard input. -/
def replCommand (w : Workplace) : Shell Unit :=
  w.session (Session.new w.settings w.call.files) [] (inputLines w.call.stdin)

end Workplace

end ScriptLang
