import ScriptLang.Eval.Run
import ScriptLang.Syntax.Check

/-!
# Running program texts

A program text is parsed and checked before it is run. It is rejected with diagnostics if that finds
anything, and otherwise fails or ends with a value. The exit code of a process tells these apart.
-/

namespace ScriptLang

/-- Why a program text gave no value. -/
inductive RunError where
  /-- The text was rejected before it was run. -/
  | rejected (findings : List Diagnostic)
  /-- The program failed. -/
  | failed (failure : Failure)
deriving DecidableEq, Repr

namespace RunError

/-- The message of an error. -/
def message : RunError → Text
  | rejected ds => Diagnostic.summary ds
  | failed e => e.message

/-- The diagnostics of an error. -/
def diagnostics : RunError → List Diagnostic
  | rejected ds => ds
  | failed e => e.diagnostics

/-- The exit code for an error: 2 for a rejected text, 3 for a program that failed or was cancelled,
and 1 for everything else. -/
def exitCode : RunError → Nat
  | rejected _ => 2
  | failed (.fault _) | failed (.cancelled _) => 3
  | failed _ => 1

end RunError

/-- The program that a text holds, or everything that is wrong with the text. -/
def Program.accept (source file : Text) : Except (List Diagnostic) Block :=
  match Program.parse source file with
  | .error e => .error [e.diagnostic]
  | .ok b => if (Program.check b).isEmpty then .ok b else .error (Program.check b)

/-- Everything that is wrong with a program text. -/
def Program.diagnose (source file : Text) : List Diagnostic :=
  match Program.accept source file with
  | .error ds => ds
  | .ok _ => []

/-- How programs are run. -/
structure Settings where
  /-- The modules that may be imported; without a policy there are none. -/
  policy : Option Policy := some Policy.allowAll
  /-- How many imported files are kept; a number that is not positive means the default. -/
  cacheSize : Int := 0
  /-- The directory for relative imports; empty for the directory of the file that is run. -/
  baseDir : Text := []
  /-- Whether failures are reported when they leave a program. -/
  echo : Bool := false
  /-- Whether the log is kept. -/
  logging : Bool := false
  /-- Runs are cancelled after this number of writes. -/
  cancelAfter : Option Nat := none
  /-- Writes fail after this number of writes. -/
  failAfter : Option Nat := none
  /-- The time in nanoseconds. -/
  clock : Nat := 0

namespace Settings

/-- The number of imported files that are kept by default. -/
def defaultCacheSize : Nat := 64

/-- The host of runs under these settings. -/
def host (s : Settings) : Host :=
  { policy := s.policy.getD Policy.denyAll
    cacheSize := if s.cacheSize ≤ 0 then defaultCacheSize else s.cacheSize.toNat
    cancelAfter := s.cancelAfter
    failAfter := s.failAfter
    logging := s.logging
    echo := s.echo }

/-- A new interpreter. -/
def interpreter (s : Settings) (files : Files) (dir : Text) : Interpreter :=
  Interpreter.new s.host files dir s.clock

/-- The directory for relative imports of a file. A name that starts with an angle bracket is no
file. -/
def dirFor (s : Settings) (file : Text) : Text :=
  if !s.baseDir.isEmpty then s.baseDir
  else if file.isEmpty || file.head? == some 0x3c then []
  else Path.dir file

/-- Run a program that was accepted. -/
def runProgram (s : Settings) (files : Files) (file : Text) (b : Block) :
    Except Failure Value × Interpreter :=
  let i := s.interpreter files (s.dirFor file)
  let (_, i) := i.perform
    (Eval.note "running program" [("file", .text file), ("statements", .int b.body.length)])
  match i.run b with
  | (.ok v, i) => (.ok v, i)
  | (.error .crash, i) => (.error .crash, i)
  | (.error e, i) =>
    let (_, i) := i.perform
      (Eval.note "program failed" [("file", .text file), ("err", .text e.message)])
    (.error e, i)

/-- Parse, check and run a program text. -/
def run (s : Settings) (files : Files) (source file : Text) :
    Except RunError Value × Interpreter :=
  match Program.accept source file with
  | .error ds => (.error (.rejected ds), s.interpreter files (s.dirFor file))
  | .ok b =>
    match s.runProgram files file b with
    | (.ok v, i) => (.ok v, i)
    | (.error e, i) => (.error (.failed e), i)

end Settings

end ScriptLang
