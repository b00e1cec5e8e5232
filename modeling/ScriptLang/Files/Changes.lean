import ScriptLang.Files.Basic

/-!
# Changes to files

What has to be done to a tree of files so that it becomes another tree.
-/

namespace ScriptLang

/-- A change to a tree of files; the path consists of the components from the root. -/
inductive FileChange where
  /-- A file gets a content. -/
  | write (path : List Text) (content : Text)
  /-- A directory is made. -/
  | makeDir (path : List Text)
  /-- A file is removed. -/
  | removeFile (path : List Text)
  /-- An empty directory is removed. -/
  | removeDir (path : List Text)
deriving DecidableEq, Repr

namespace FileChange

/-- The tree after a change. -/
def apply (tree : FileNode) : FileChange → FileNode
  | write path content => tree.put (.file content) path
  | makeDir path => tree.put (.dir []) path
  | removeFile path => tree.erase path
  | removeDir path => tree.erase path

end FileChange

namespace FileNode

mutual

/-- The changes that remove a node. -/
def removal (path : List Text) : FileNode → List FileChange
  | file _ => [.removeFile path]
  | dir es => removalIn path es ++ [.removeDir path]

/-- The changes that remove the entries of a directory. -/
def removalIn (path : List Text) : List (Text × FileNode) → List FileChange
  | [] => []
  | (name, n) :: rest => n.removal (path ++ [name]) ++ removalIn path rest

end

/-- The changes that remove the entries that are missing in a second list. -/
def dropped (path : List Text) (kept before : List (Text × FileNode)) : List FileChange :=
  removalIn path (before.filter fun e => (kept.lookup e.1).isNone)

/-- The changes that clear the way for a node: a file that becomes a directory, and a directory that
becomes a file, is removed first. -/
def cleared (path : List Text) (before : Option FileNode) (after : FileNode) : List FileChange :=
  match before, after with
  | some (dir es), file _ => (dir es).removal path
  | some (file _), dir _ => [.removeFile path]
  | some (dir es), dir kept => dropped path kept es
  | _, _ => []

mutual

/-- The changes that turn what stands at a path into another node. -/
def changes (path : List Text) (before : Option FileNode) : FileNode → List FileChange
  | file content =>
    match before with
    | some (file old) => if old = content then [] else [.write path content]
    | _ => cleared path before (file content) ++ [.write path content]
  | dir es =>
    let made : List FileChange := match before with
      | some (dir _) => []
      | _ => [.makeDir path]
    cleared path before (dir es) ++ made ++
      changesIn path ((before.map entries).getD []) es

/-- The changes that make the entries of a directory. -/
def changesIn (path : List Text) (before : List (Text × FileNode)) :
    List (Text × FileNode) → List FileChange
  | [] => []
  | (name, n) :: rest =>
    n.changes (path ++ [name]) (before.lookup name) ++ changesIn path before rest

end

end FileNode

/-- The changes that turn one tree of files into another. -/
def Files.changes (before after : Files) : List FileChange :=
  after.root.changes [] (some before.root)

end ScriptLang
