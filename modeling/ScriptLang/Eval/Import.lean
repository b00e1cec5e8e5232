import ScriptLang.Eval.Task
import ScriptLang.Library.Modules
import ScriptLang.Syntax.Parse

/-!
# Imports

A module of the library is imported by its name, if the policy admits it. From a file one name or all
names are imported, as constants. The declarations of the file are carried out in a scope of their
own; relative imports in it start from its directory, and a file cannot import itself, directly or
through others. A file that was parsed is kept and not read again for a while.
-/

namespace ScriptLang

open Eval

/-- Whether a statement counts when a file is imported. -/
def Stmt.isImported : Stmt → Bool
  | .declare .. | .function _ | .struct .. | .enum .. | .importing .. => true
  | _ => false

/-- Import a module of the library. -/
def Eval.importModule (name : Text) (scope : ScopeId) : Eval Unit := do
  match Module.ofName? name with
  | none => fail .undefinedIdentifier ("unknown module '" ++ name ++ "'")
  | some m =>
    if !(← read).policy.allows name then
      failWithHint .moduleDenied
        ("module '" ++ name ++ "' is not allowed by the module policy")
        "add it to [modules] allow in ember.toml"
    else
      note "import module" [("module", .text name)]
      declareConstant scope name (← m.load)

/-- The file that an import names, from the directory for relative imports or else from the working
directory. -/
def Eval.resolveImport (path : Text) : Eval Text := do
  let st ← get
  let path := if Path.isAbsolute path || st.dir.isEmpty then path else Path.join st.dir path
  match st.files.absolute path with
  | .ok file => return file
  | .error e => fail .transfer ("resolving " ++ path ++ ": " ++ e.lostDirectory)

namespace KeptFiles

/-- The files that are kept after one of them was used. -/
def touch (kept : KeptFiles) (path : Text) : KeptFiles :=
  match kept.lookup path with
  | some program => (path, program) :: kept.filter fun e => e.1 != path
  | none => kept

/-- The files that are kept after one was put in, where there is room for `size` of them. -/
def add (size : Nat) (kept : KeptFiles) (path : Text) (program : Block) : KeptFiles :=
  ((path, program) :: kept.filter fun e => e.1 != path).take size

end KeptFiles

/-- A file after parsing: as it was kept, or read and parsed now. -/
def Eval.loadFile (path : Text) : Eval Block := do
  let st ← get
  match st.parsed.lookup path with
  | some program =>
    modify fun st => { st with parsed := st.parsed.touch path }
    note "import cache hit" [("path", .text path)]
    return program
  | none =>
    match st.files.read path with
    | .error e => fail .transfer ("reading " ++ path ++ ": " ++ e.message)
    | .ok source =>
      match Program.parse source path with
      | .error e => fail .parseFailure ("parsing " ++ path ++ ": " ++ e.message)
      | .ok program =>
        let size := (← read).cacheSize
        modify fun st => { st with parsed := st.parsed.add size path program }
        return program

/-- The state after an import of a file that began in the directory `dir`: the file is no longer in
progress. -/
def State.endImport (s : State) (path dir : Text) : State :=
  { s with importing := s.importing.filter fun p => p != path, dir }

/-- Work that belongs to the import of a file: it is in progress until the work ends, however it ends,
and paths are relative to its directory. -/
def Eval.duringImport {α : Type} (path : Text) (x : Eval α) : Eval α := fun host s =>
  let dir := s.dir
  match x host { s with importing := s.importing.insert path, dir := Path.dir path } with
  | .ok a t => .ok a (t.endImport path dir)
  | .error e t => .error e (t.endImport path dir)

/-- Carry out the declarations of a file, up to the one that binds `wanted`. -/
def Runner.declarations (run : Runner) (scope : ScopeId) (wanted : Option Text) :
    List Stmt → Eval Unit
  | [] => return
  | s :: rest => do
    if s.isImported then
      let _ ← run.stmt s scope
      let found ← match wanted with
        | some name => pure ((← store).hasLocal scope name)
        | none => pure false
      if found then return
    run.declarations scope wanted rest

/-- Bind a name of one scope as a constant of another. -/
def Eval.importName (source target : ScopeId) (name : Text) : Eval Unit := do
  define target name (← lookup source name)
  naming (Naming.makeConstant target name)

/-- Import from a file. -/
def Runner.importFile (run : Runner) (name : Text) (wildcard : Bool) (path : Text)
    (scope : ScopeId) : Eval Unit := do
  let file ← resolveImport path
  if (← get).importing.contains file then
    failWithHint .importCycle ("import cycle through " ++ path)
      "move the shared declarations into a file both can import"
  else
    let program ← loadFile file
    note "import" [("path", .text file), ("name", .text name), ("wildcard", .bool wildcard)]
    duringImport file do
      let inner ← change fun s => s.newScope none
      run.declarations inner (if wildcard then none else some name) program.body
      if wildcard then
        for n in (← store).names inner do importName inner scope n
      else if (← store).hasLocal inner name then importName inner scope name
      else fail .undefinedIdentifier ("'" ++ name ++ "' is not declared in " ++ path)

/-- Carry out an import. -/
def Runner.importInto (run : Runner) (name : Text) (wildcard : Bool) (path : Text)
    (scope : ScopeId) : Eval Unit :=
  if path.isEmpty then importModule name scope else run.importFile name wildcard path scope

end ScriptLang
