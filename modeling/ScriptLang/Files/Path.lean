import ScriptLang.Text.Basic

/-!
# File paths

A path is a text of components between slashes. Cleaning a path removes empty and `.` components
and resolves `..` against the component before it, without a look at the files.
-/

namespace ScriptLang.Path

/-- The pieces of a path between slashes. -/
def pieces : Text → List Text
  | [] => [[]]
  | b :: r =>
    if b = Text.slash then [] :: pieces r
    else match pieces r with
      | [] => [[b]]
      | p :: ps => (b :: p) :: ps

/-- Whether a path starts at the root. -/
def isAbsolute (p : Text) : Bool := p.head? == some Text.slash

/-- The components that are left after cleaning, the last first. -/
def cleanPieces (rooted : Bool) : List Text → List Text → List Text
  | done, [] => done
  | done, c :: cs =>
    if c = [] || c = "." then cleanPieces rooted done cs
    else if c = ".." then
      match done with
      | [] => cleanPieces rooted (if rooted then [] else [c]) cs
      | d :: ds => if d = ".." then cleanPieces rooted (c :: done) cs else cleanPieces rooted ds cs
    else cleanPieces rooted (c :: done) cs

/-- The shortest path that is the same by its text. -/
def clean (p : Text) : Text :=
  let rooted := isAbsolute p
  let body := Text.join "/" (cleanPieces rooted [] (pieces p)).reverse
  if rooted then "/" ++ body else if body = [] then "." else body

/-- Two paths one after another, cleaned. Empty paths are left out. -/
def join (a b : Text) : Text :=
  if a = [] && b = [] then []
  else if a = [] then clean b
  else if b = [] then clean a
  else clean (a ++ "/" ++ b)

/-- The path up to its last slash, cleaned. -/
def dir (p : Text) : Text :=
  clean ((p.reverse.dropWhile (· != Text.slash)).reverse)

/-- The path as seen from the root, when the working directory is `cwd`. -/
def absolute (cwd p : Text) : Text := if isAbsolute p then clean p else join cwd p

end ScriptLang.Path
