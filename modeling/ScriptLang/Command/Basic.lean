import ScriptLang.Command.Listing
import ScriptLang.Command.Program
import ScriptLang.Command.Repl

/-!
# The command line

A command line consists of flags, the name of a command, and the flags and arguments of the command.
-/

namespace ScriptLang

open Shell

/-- A command. -/
structure Command where
  /-- The name. -/
  name : Text
  /-- What it does, in a few words. -/
  summary : Text
  /-- Its flags. -/
  flags : List Flag
  /-- What it does. -/
  action : Workplace → Shell Unit

namespace Command

/-- The version of the program. -/
def version : Text := "0.3.0"

/-- All commands. -/
def all : List Command :=
  [ ⟨"run", "Run an Ember program",
      [Workplace.allowFlag, Workplace.denyFlag, Workplace.resultFlag], Workplace.runCommand⟩,
    ⟨"check", "Parse and check a program without running it", [], Workplace.checkCommand⟩,
    ⟨"fmt", "Print a program in canonical form", [Workplace.writeFlag, Workplace.checkFlag],
      Workplace.formatCommand⟩,
    ⟨"parse", "Dump the syntax tree or tokens of a program", [Workplace.tokensFlag],
      Workplace.parseCommand⟩,
    ⟨"repl", "Start an interactive session", [Workplace.allowFlag, Workplace.denyFlag],
      Workplace.replCommand⟩,
    ⟨"modules", "List builtin functions, modules and std structs",
      [Workplace.allowFlag, Workplace.denyFlag], Workplace.modulesCommand⟩,
    ⟨"dumpconfig", "Show configuration values", [], Workplace.configCommand⟩ ]

/-- The command with a name. -/
def find? (name : Text) : Option Command := all.find? fun c => c.name == name

/-- The line that explains a command. -/
def helpLine (c : Command) : Text :=
  "   " ++ Table.atLeft 12 c.name ++ c.summary ++ "\n"

/-- What the program says about itself. -/
def helpText : Text :=
  "NAME:\n   ember - the Ember scripting language\n\n" ++
    "USAGE:\n   ember [global options] command [command options] [arguments...]\n\n" ++
    "VERSION:\n   " ++ version ++ "\n\nCOMMANDS:\n" ++ all.flatMap helpLine

/-- Complain about the flags, and end. -/
def refuse {α : Type} (e : FlagError) : Shell α := do
  print ("Incorrect Usage. " ++ e.message ++ "\n\n" ++ helpText)
  complain ("ember: " ++ e.message ++ "\n")
  exit exitFailure

/-- Run a command with its arguments. -/
def start (call : Invocation) (globals : Parsed) (c : Command) (args : List Text) : Shell Unit := do
  match Flag.read (c.flags ++ [GlobalFlag.help]) (Flag.reorder args) with
  | .error e => refuse e
  | .ok flags =>
    if GlobalFlag.help.isOn flags then print c.helpLine
    else c.action (← Workplace.setUp call globals flags)

/-- Carry out a command line. -/
def dispatch (call : Invocation) : Shell Unit := do
  match Flag.read GlobalFlag.all call.args with
  | .error e => refuse e
  | .ok globals =>
    if GlobalFlag.help.isOn globals then print helpText
    else if GlobalFlag.version.isOn globals then print ("ember version " ++ version ++ "\n")
    else
      match globals.args with
      | [] => print helpText
      | name :: args =>
        match find? name with
        | some c => start call globals c args
        | none =>
          if name = "help" ∨ name = "h" then print helpText
          else
            complain ("No help topic for '" ++ name ++ "'\n")
            exit 3

/-- What a command line leaves: the exit code, and everything that was written. -/
def run (call : Invocation) : Nat × Console :=
  match (dispatch call).run { files := call.files } with
  | (.ok (), c) => (0, c)
  | (.error code, c) => (code, c)

end Command

end ScriptLang
