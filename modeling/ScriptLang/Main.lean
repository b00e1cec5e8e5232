import ScriptLang.Command.Basic
import ScriptLang.Files.Changes
import Std.Time.DateTime.Timestamp

/-!
# The program

The outer layer: it takes a picture of the files, the streams and the time, carries out the command
line, writes what the command wrote and makes its changes to the files.
-/

namespace ScriptLang

namespace Program

/-- A text as a string of characters. -/
def toPath (t : Text) : String := String.fromUTF8! ⟨(Text.mend t).toArray⟩

/-- How many directories deep the picture of the files goes. -/
def pictureDepth : Nat := 16

/-- The size in bytes up to which files are in the picture. -/
def pictureSize : Nat := 4194304

/-- Directories that hold no files of the user. -/
def systemDirs : List String := ["/dev", "/proc", "/sys"]

/-- The node at a path, if there is one that can be read. -/
def picture : Nat → String → IO (Option FileNode)
  | 0, _ => return none
  | depth + 1, path =>
    try
      let place ← IO.FS.realPath path
      if systemDirs.contains place.toString then return none
      let info ← place.metadata
      match info.type with
      | .dir =>
        let mut entries : List (Text × FileNode) := []
        for e in ← place.readDir do
          if let some n ← picture depth e.path.toString then
            entries := FileNode.insertEntry (Text.ofString e.fileName) n entries
        return some (.dir entries)
      | .file =>
        if info.byteSize.toNat ≤ pictureSize then
          return some (.file (← IO.FS.readBinFile place).toList)
        else return none
      | _ => return none
    catch _ => return none

/-- The files with a picture of what stands at an absolute path. -/
def addPicture (f : Files) (path : Text) : IO Files := do
  match ← picture pictureDepth (toPath path) with
  | some n => return { f with root := f.root.put n ((Path.pieces path).filter (· ≠ [])) }
  | none => return f

/-- What has to be in the picture for an argument: the directory of a path that leads out of the
working directory. -/
def surroundings (cwd : Text) (arg : String) : Option Text :=
  let path := Path.absolute cwd (Text.ofString arg)
  if path = cwd || (cwd ++ [Text.slash]).isPrefixOf path then none
  else if Path.dir path = "/" then some path
  else some (Path.dir path)

/-- A picture of the working directory, of the user's configuration and of the surroundings of the
arguments. -/
def pictureOf (args : List String) : IO Files := do
  let cwd := Text.ofString (← IO.currentDir).toString
  let home := Text.ofString ((← IO.getEnv "HOME").getD "")
  let places := args.filterMap (surroundings cwd) ++ [Path.join home ".ember", cwd]
  places.foldlM addPicture { cwd := cwd, home := home }

/-- The path of a file that is changed. -/
def placeOf (path : List Text) : String := toPath ("/" ++ Text.join "/" path)

/-- Make a change to the files. -/
def commit : FileChange → IO Unit
  | .write path content => IO.FS.writeBinFile (placeOf path) ⟨content.toArray⟩
  | .makeDir path => IO.FS.createDirAll (placeOf path)
  | .removeFile path => IO.FS.removeFile (placeOf path)
  | .removeDir path => IO.FS.removeDir (placeOf path)

/-- Whether a command line reads the standard input. -/
def readsInput (args : List String) : Bool := args.contains "-" || args.contains "repl"

/-- The time in nanoseconds. -/
def now : IO Nat := return (← Std.Time.Timestamp.now).toNanosecondsSinceUnixEpoch.val.toNat

/-- Write bytes to a stream. -/
def emit (stream : IO.FS.Stream) (t : Text) : IO Unit := do
  stream.write ⟨t.toArray⟩
  stream.flush

end Program

end ScriptLang

open ScriptLang in
/-- Carry out a command line. -/
def main (args : List String) : IO UInt32 := do
  let stdin : Text ←
    if Program.readsInput args then pure (← (← IO.getStdin).readBinToEnd).toList else pure []
  let err ← IO.getStderr
  let forPeople ← err.isTty
  let showsColour := forPeople && ((← IO.getEnv "NO_COLOR").getD "").isEmpty
  let files ← Program.pictureOf args
  let clock ← Program.now
  let (code, console) := Command.run ⟨args.map Text.ofString, stdin, files, forPeople, showsColour, clock⟩
  Program.emit (← IO.getStdout) console.out
  Program.emit err console.err
  (files.changes console.files).forM Program.commit
  return UInt32.ofNat code
