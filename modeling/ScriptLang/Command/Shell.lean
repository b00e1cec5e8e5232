import ScriptLang.Command.Flags
import ScriptLang.Config
import ScriptLang.Session

/-!
# What commands work with

A command writes to two streams, may change files and ends with an exit code. Before it starts, the
configuration is loaded and the flags in front of the command are applied to it. Diagnostics are
written as JSON or, for people, with the source line and possibly in colour.
-/

namespace ScriptLang

/-- What a command was called with. -/
structure Invocation where
  /-- The arguments after the name of the program. -/
  args : List Text
  /-- The standard input. -/
  stdin : Text := []
  /-- The files. -/
  files : Files := {}
  /-- Whether the error stream is read by a person. -/
  forPeople : Bool := false
  /-- Whether the error stream shows colours. -/
  showsColour : Bool := false
  /-- The time in nanoseconds. -/
  clock : Nat := 0

/-- What a command has done so far. -/
structure Console where
  /-- What was written to the output. -/
  out : Text := []
  /-- What was written to the error stream. -/
  err : Text := []
  /-- The files. -/
  files : Files
  /-- Whether the process ended in the middle of the work. -/
  crashed : Bool := false

/-- The work of a command; it can end early with an exit code. -/
abbrev Shell := ExceptT Nat (StateM Console)

namespace Shell

/-- Write to the output. -/
def print (t : Text) : Shell Unit := modify fun c => { c with out := c.out ++ t }

/-- Write to the error stream. -/
def complain (t : Text) : Shell Unit := modify fun c => { c with err := c.err ++ t }

/-- End with an exit code. -/
def exit {α : Type} (code : Nat) : Shell α := throw code

/-- End in the middle of the work. -/
def crash {α : Type} : Shell α := do
  modify fun c => { c with crashed := true }
  exit 2

end Shell

/-- The exit code for wrong use and for files that cannot be read or written. -/
def exitFailure : Nat := 1

/-! ### The flags in front of a command -/

namespace GlobalFlag

/-- The configuration file. -/
def config : Flag := ⟨["config"], true⟩

/-- The level of the log. -/
def logLevel : Flag := ⟨["log-level"], true⟩

/-- When colours are used. -/
def color : Flag := ⟨["color"], true⟩

/-- Diagnostics for people. -/
def pretty : Flag := ⟨["pretty"], false⟩

/-- Diagnostics as JSON. -/
def json : Flag := ⟨["json"], false⟩

/-- Explain the commands. -/
def help : Flag := ⟨["help", "h"], false⟩

/-- Tell the version. -/
def version : Flag := ⟨["version", "v"], false⟩

/-- All flags in front of a command. -/
def all : List Flag := [config, logLevel, color, pretty, json, help, version]

end GlobalFlag

/-- What a command starts with. -/
structure Workplace where
  /-- How the program was called. -/
  call : Invocation
  /-- The configuration. -/
  config : Config
  /-- The file it was read from; empty for the defaults. -/
  configPath : Text
  /-- Whether diagnostics are written for people. -/
  pretty : Bool
  /-- Whether colours are used. -/
  colour : Bool
  /-- The flags and arguments of the command. -/
  flags : Parsed

namespace Workplace

/-- Log a record, if the configuration asks for its level. -/
def log (w : Workplace) (r : LogRecord) : Shell Unit := do
  if w.config.logs r.level then Shell.complain (w.config.logLine r)

/-- Whether colours are used under a setting. -/
def usesColour (call : Invocation) (setting : Text) : Bool :=
  setting == "always" || (setting == "auto" && call.showsColour)

/-- The configuration with the flags in front of the command applied to it. -/
def override (globals : Parsed) (c : Config) : Config :=
  let level := GlobalFlag.logLevel.value globals
  let color := GlobalFlag.color.value globals
  { c with
    level := if level.isEmpty then c.level else level
    color := if color.isEmpty then c.color else color }

/-- Load the configuration and apply the flags in front of the command. -/
def configure (call : Invocation) (globals : Parsed) : Except ConfigError (Config × Text) := do
  let (c, path) ← Config.load call.files (GlobalFlag.config.value globals) call.files.cwd
  let c := override globals c
  match c.fault? with
  | some reason => .error (.refused none reason)
  | none => .ok (c, path)

/-- Prepare for a command. -/
def setUp (call : Invocation) (globals flags : Parsed) : Shell Workplace := do
  match configure call globals with
  | .error e =>
    Shell.complain ("ember: " ++ e.message ++ "\n")
    Shell.exit exitFailure
  | .ok (config, path) =>
    let pretty :=
      !GlobalFlag.json.isOn globals && (GlobalFlag.pretty.isOn globals || call.forPeople)
    let w : Workplace := ⟨call, config, path, pretty, usesColour call config.color, flags⟩
    unless path.isEmpty do
      w.log { message := "loaded configuration", details := [("path", .text path)] }
    return w

/-! ### Diagnostics -/

/-- A text in a colour. -/
def paint (w : Workplace) (code : Text) (t : Text) : Text :=
  if w.colour then "\x1b[" ++ code ++ "m" ++ t ++ "\x1b[0m" else t

/-- A line of a diagnostic in its colour. -/
def paintLine (w : Workplace) (first : Bool) (line : Text) : Text :=
  let content := Text.trim line
  if first then w.paint "31;1" line
  else if ("-->" : Text).isPrefixOf content then w.paint "34" line
  else if ("hint:" : Text).isPrefixOf content then w.paint "36" line
  else line

/-- A diagnostic for people. -/
def paintDiagnostic (w : Workplace) (source : Text) (d : Diagnostic) : Text :=
  Text.join "\n" ((Text.lines (d.withSource source)).zipIdx.map fun (l, i) => w.paintLine (i == 0) l)

/-- Write diagnostics about a source. -/
def diagnose (w : Workplace) (source : Text) (ds : List Diagnostic) : Shell Unit :=
  if w.pretty then
    Shell.complain (Text.join "\n\n" (ds.map (w.paintDiagnostic source)) ++ "\n")
  else Shell.complain (Diagnostic.jsonTexts ds ++ "\n")

/-- Report an error about a source, and end. -/
def report {α : Type} (w : Workplace) (source : Text) (e : RunError) : Shell α := do
  if e = .failed .crash then Shell.crash
  else if e.diagnostics.isEmpty then Shell.complain ("ember: " ++ e.message ++ "\n")
  else w.diagnose source e.diagnostics
  Shell.exit e.exitCode

/-- Report that a file cannot be read or written, and end. -/
def reportFile {α : Type} (w : Workplace) (message : Text) : Shell α := do
  w.diagnose [] [{ code := .transfer, message := message }]
  Shell.exit exitFailure

/-! ### Running programs -/

/-- The modules that a program may import, unless the settings say otherwise. -/
def allowFlag : Flag := ⟨["allow"], true⟩

/-- The modules that a program may not import, unless the settings say otherwise. -/
def denyFlag : Flag := ⟨["deny"], true⟩

/-- The modules that may be imported: either list of the configuration is replaced by the flags. -/
def policy (w : Workplace) : Policy :=
  let pick (f : Flag) (configured : Option (List Text)) : List Text :=
    if f.isGiven w.flags then f.values w.flags else configured.getD []
  Policy.ofLists (pick allowFlag w.config.allow) (pick denyFlag w.config.deny)

/-- How programs are run. -/
def settings (w : Workplace) : Settings :=
  { policy := some w.policy
    cacheSize := w.config.cacheSize
    baseDir := w.config.baseDir
    logging := w.config.logs .debug
    clock := w.call.clock }

/-- Take over what an interpreter did since it had made `writes` writes and `records` records. -/
def absorb (w : Workplace) (writes records : Nat) (i : Interpreter) : Shell Unit := do
  Shell.print (i.state.writes.toList.drop writes).flatten
  (i.state.log.toList.drop records).forM w.log
  modify fun c => { c with files := i.state.files }

/-! ### Sources -/

/-- The program that the first argument names, and the name of its file; a dash is the standard
input. -/
def readSource (w : Workplace) (command usage : Text) : Shell (Text × Text) := do
  let file := w.flags.args.head?.getD []
  if file.isEmpty then
    Shell.complain ("usage: ember " ++ command ++ " " ++ usage ++ "\n")
    Shell.exit exitFailure
  else if file = "-" then return (w.call.stdin, "<stdin>")
  else
    match w.call.files.read file with
    | .ok source => return (source, file)
    | .error e => w.reportFile ("cannot read " ++ file ++ ": " ++ e.message)

end Workplace

end ScriptLang
