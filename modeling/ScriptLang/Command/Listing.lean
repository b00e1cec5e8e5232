import ScriptLang.Command.Shell
import ScriptLang.Table

/-!
# Commands that list things

The catalogue of the library and the configuration in force.
-/

namespace ScriptLang

open Shell

namespace Workplace

/-- Whether an entry of the catalogue can be imported, as the table shows it. -/
def importable (w : Workplace) (e : CatalogueEntry) : Text :=
  if e.kind ≠ "module" then "-" else if w.policy.allows e.name then "yes" else "no"

/-- The table of the catalogue. -/
def catalogueTable (w : Workplace) : Table :=
  { header := ["Kind", "Name", "Importable", "Description"]
    rows := Library.catalogue.map fun e => [e.kind, e.name, w.importable e, e.doc]
    border := true }

/-- List the functions, modules and structs of the library. -/
def modulesCommand (w : Workplace) : Shell Unit := print w.catalogueTable.render

/-- The configuration in force, after a line that tells where it came from. -/
def configText (w : Workplace) : Text :=
  let origin : Text :=
    if w.configPath.isEmpty then "# No configuration file found; these are the defaults.\n\n"
    else "# Loaded from " ++ w.configPath ++ "\n\n"
  origin ++ w.config.encode

/-- Show the configuration in force, or write it to a file. -/
def configCommand (w : Workplace) : Shell Unit := do
  match w.flags.args with
  | [] => print w.configText
  | file :: _ =>
    match (← get).files.write file w.configText with
    | .ok files => modify fun c => { c with files := files }
    | .error e =>
      complain ("ember: " ++ e.message ++ "\n")
      exit exitFailure

end Workplace

end ScriptLang
