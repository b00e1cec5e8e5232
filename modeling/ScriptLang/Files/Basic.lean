import ScriptLang.Files.Path

/-!
# Files

A tree of directories and files, and the working directory. An operation gives the changed tree or
the reason why it failed, in the words of the operating system; one that consists of several steps
gives the tree after the steps that succeeded, and the reason.
-/

namespace ScriptLang

/-- A file or a directory. -/
inductive FileNode where
  /-- A file with its content. -/
  | file (content : Text)
  /-- A directory, in ascending order of the names. -/
  | dir (entries : List (Text × FileNode))

instance : Inhabited FileNode := ⟨.dir []⟩

/-- Why an operation on files failed. -/
inductive FileFault where
  /-- There is nothing of that name. -/
  | missing
  /-- A file stands where a directory is needed. -/
  | notDirectory
  /-- A directory stands where a file is needed. -/
  | isDirectory
  /-- A directory that is not empty. -/
  | notEmpty
  /-- A name that no file can have. -/
  | invalid
  /-- A name that is too long. -/
  | tooLong
deriving DecidableEq, Repr

/-- The words for a fault. -/
def FileFault.text : FileFault → Text
  | .missing => "no such file or directory"
  | .notDirectory => "not a directory"
  | .isDirectory => "is a directory"
  | .notEmpty => "directory not empty"
  | .invalid => "invalid argument"
  | .tooLong => "file name too long"

/-- A failed operation: what was tried, on which path, and why it failed. -/
structure FileError where
  /-- What was tried. -/
  action : Text
  /-- The path as it was given. -/
  path : Text
  /-- Why it failed. -/
  fault : FileFault
deriving DecidableEq, Repr

/-- The message for a working directory that is not there. -/
def FileFault.lostDirectory (e : FileFault) : Text := "getwd: " ++ e.text

/-- The message of a failed operation. -/
def FileError.message (e : FileError) : Text := e.action ++ " " ++ e.path ++ ": " ++ e.fault.text

namespace FileNode

/-- The entries of a directory. -/
def entries : FileNode → List (Text × FileNode)
  | dir es => es
  | file _ => []

/-- Whether a node is a directory. -/
def isDir : FileNode → Bool
  | dir _ => true
  | file _ => false

/-- The entries of a directory after one was added or replaced. -/
def insertEntry (name : Text) (node : FileNode) : List (Text × FileNode) → List (Text × FileNode)
  | [] => [(name, node)]
  | (k, n) :: rest =>
    if name = k then (name, node) :: rest
    else if name < k then (name, node) :: (k, n) :: rest
    else (k, n) :: insertEntry name node rest

/-- The node after the given components. -/
def get : FileNode → List Text → Except FileFault FileNode
  | n, [] => .ok n
  | file _, _ :: _ => .error .notDirectory
  | dir es, c :: cs =>
    if c.length > 255 then .error .tooLong
    else match es.lookup c with
      | some n => n.get cs
      | none => .error .missing

/-- The tree with a node put at the given components; missing directories are added. -/
def put (tree node : FileNode) : List Text → FileNode
  | [] => node
  | c :: cs =>
    let child := (tree.entries.lookup c).getD (.dir [])
    .dir (insertEntry c (child.put node cs) tree.entries)

/-- The tree without the node at the given components. -/
def erase : FileNode → List Text → FileNode
  | n, [] => n
  | n, [c] => .dir (n.entries.filter fun e => e.1 != c)
  | n, c :: cs =>
    match n.entries.lookup c with
    | some child => .dir (insertEntry c (child.erase cs) n.entries)
    | none => n

end FileNode

/-- A tree of files and the working directory in it. -/
structure Files where
  /-- The root directory. -/
  root : FileNode := .dir []
  /-- The working directory, as a path from the root. -/
  cwd : Text := "/"
  /-- Whether the working directory was removed. A new directory of that name is another one. -/
  adrift : Bool := false
  /-- The home directory of the user. -/
  home : Text := []

namespace Files

/-- The components of the working directory from the root. -/
def place (f : Files) : List Text := (Path.pieces f.cwd).filter (· ≠ [])

/-- The components of a path from the root. A slash at the end counts as the component `.`, which
only a directory has. -/
def components (f : Files) (path : Text) : List Text :=
  let given := (Path.pieces path).filter (· ≠ [])
  let base := if Path.isAbsolute path then [] else f.place
  let tail : List Text := if path.getLast? == some Text.slash then ["."] else []
  base ++ given ++ tail

/-- Follow components from the node `n`, which stands at `done` (the last first). -/
def walk (f : Files) : List Text → FileNode → List Text → Except FileFault (List Text × FileNode)
  | done, n, [] => .ok (done, n)
  | done, n, c :: cs =>
    if !n.isDir then .error .notDirectory
    else if c = "." then f.walk done n cs
    else if c = ".." then
      match f.root.get done.tail.reverse with
      | .ok p => f.walk done.tail p cs
      | .error e => .error e
    else match n.get [c] with
      | .ok child => f.walk (c :: done) child cs
      | .error e => .error e

/-- The length of the longest path. -/
def pathLimit : Nat := 4095

/-- What is wrong with a path in any tree of files. -/
def pathFault? (path : Text) : Option FileFault :=
  if path.contains 0 then some .invalid
  else if path = [] then some .missing
  else if path.length > pathLimit then some .tooLong
  else none

/-- The node that a path names, with its components from the root. -/
def locate (f : Files) (path : Text) : Except FileFault (List Text × FileNode) :=
  match pathFault? path with
  | some e => .error e
  | none =>
    match f.walk [] f.root (f.components path) with
    | .ok (done, n) => .ok (done.reverse, n)
    | .error e => .error e

/-- The working directory, if it is still there. -/
def workingDir (f : Files) : Except FileFault Text :=
  if f.adrift then .error .missing else .ok f.cwd

/-- The path as seen from the root, cleaned. Only a path from the root is one when the working
directory is not there. -/
def absolute (f : Files) (path : Text) : Except FileFault Text :=
  if Path.isAbsolute path then .ok (Path.clean path)
  else f.workingDir.map fun cwd => Path.join cwd path

/-- Whether a path names something. -/
def exist (f : Files) (path : Text) : Bool := (f.locate path).isOk

/-- The content of a file. -/
def read (f : Files) (path : Text) : Except FileError Text :=
  match f.locate path with
  | .ok (_, .file content) => .ok content
  | .ok (_, .dir _) => .error ⟨"read", path, .isDirectory⟩
  | .error e => .error ⟨"open", path, e⟩

/-- The names and nodes of a directory, in ascending order of the names. -/
def list (f : Files) (path : Text) : Except FileError (List (Text × FileNode)) :=
  match f.locate path with
  | .ok (_, .dir es) => .ok es
  | .ok (_, .file _) => .error ⟨"open", path, .notDirectory⟩
  | .error e => .error ⟨"open", path, e⟩

/-- Where a file can be made that does not exist: in a directory that does. -/
def freePlace (f : Files) (path : Text) : Except FileFault (List Text) :=
  let cs := f.components path
  match f.walk [] f.root cs.dropLast, cs.getLast? with
  | .ok (done, .dir _), some name => .ok (name :: done).reverse
  | .ok _, _ => .error .notDirectory
  | .error e, _ => .error e

/-- Where the file that a path names is written. A path with a slash at its end names no file, whether
or not there is something of that name in its directory. -/
def filePlace (f : Files) (path : Text) : Except FileFault (List Text) :=
  match f.locate path with
  | .ok (_, .dir _) => .error .isDirectory
  | .ok (cs, .file _) => .ok cs
  | .error e =>
    if (pathFault? path).isNone && path.getLast? == some Text.slash then
      match f.walk [] f.root (f.components path).dropLast.dropLast with
      | .ok (_, n) => .error (if n.isDir then .isDirectory else .notDirectory)
      | .error e => .error e
    else if e = .missing && path ≠ [] then f.freePlace path
    else .error e

/-- The files after a file got a new content. -/
def write (f : Files) (path content : Text) : Except FileError Files :=
  match f.filePlace path with
  | .ok cs => .ok { f with root := f.root.put (.file content) cs }
  | .error e => .error ⟨"open", path, e⟩

/-- The files after the directories `cs` below the directory at `done` (the last first) were made,
where they were missing, and why it ended before the last. -/
def makeDirsFrom : Files → List Text → List Text → Files × Option FileError
  | f, _, [] => (f, none)
  | f, done, c :: cs =>
    let here : Text := "/" ++ Text.join "/" (c :: done).reverse
    match f.locate here with
    | .ok (_, .dir _) => f.makeDirsFrom (c :: done) cs
    | .ok (_, .file _) => (f, some ⟨"mkdir", here, .notDirectory⟩)
    | .error .missing =>
      makeDirsFrom { f with root := f.root.put (.dir []) (c :: done).reverse } (c :: done) cs
    | .error e => (f, some ⟨"mkdir", here, e⟩)

/-- The files after a directory and the directories around it were made, where they were missing, and
why it ended before the last. The path is clean and starts at the root. -/
def makeDirs (f : Files) (path : Text) : Files × Option FileError :=
  f.makeDirsFrom [] ((Path.pieces path).filter (· ≠ []))

/-- The files after a file or an empty directory was removed. -/
def remove (f : Files) (path : Text) : Except FileError Files :=
  match f.locate path with
  | .ok (cs, .file _) => .ok { f with root := f.root.erase cs }
  | .ok (cs, .dir []) =>
    .ok { f with root := f.root.erase cs, adrift := f.adrift || cs == f.place }
  | .ok (_, .dir _) => .error ⟨"remove", path, .notEmpty⟩
  | .error e => .error ⟨"remove", path, e⟩

/-- The tree with a file, whose directories are made where they are missing. -/
def plant (f : Files) (path content : Text) : Files :=
  { f with root := f.root.put (.file content) ((f.components path).filter (· ≠ ".")) }

/-- The tree with a directory, made where it is missing. -/
def plantDir (f : Files) (path : Text) : Files :=
  match f.locate path with
  | .ok _ => f
  | .error _ => { f with root := f.root.put (.dir []) ((f.components path).filter (· ≠ ".")) }

end Files

end ScriptLang
