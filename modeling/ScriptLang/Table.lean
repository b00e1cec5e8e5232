import ScriptLang.Text.Space
import ScriptLang.Text.Width

/-!
# Tables of texts

A table has a header and rows of cells. Every column is as wide as its widest cell. Header cells are
centred and in upper case, cells that are numbers stand at the right and all other cells at the left.
A cell with line breaks makes its row several lines high. A table can have a border. Sequences that
set the colour of a terminal take no columns.
-/

namespace ScriptLang

/-- A table. -/
structure Table where
  /-- The cells of the header. -/
  header : List Text
  /-- The rows. -/
  rows : List (List Text)
  /-- Whether there is a border. -/
  border : Bool

namespace Table

/-! ### Columns -/

/-- A number of a colour sequence, of up to three digits. -/
def colourNumber (t : Text) : Option Text :=
  let digits := (t.take 3).takeWhile Text.isDigit
  if digits.isEmpty then none else some (t.drop digits.length)

/-- What follows the numbers of a colour sequence, which have semicolons between them; `n` bounds how
many there are. -/
def colourNumbers : Nat → Text → Text
  | n + 1, 0x3b :: t =>
    match colourNumber t with
    | some rest => colourNumbers n rest
    | none => 0x3b :: t
  | _, t => t

/-- What follows a colour sequence at the start of a text: an escape character, a bracket, numbers and
a letter. -/
def afterColour? (t : Text) : Option Text :=
  match t with
  | 0x1b :: 0x5b :: t =>
    let rest := match colourNumber t with
      | some rest => colourNumbers rest.length rest
      | none => t
    match rest with
    | b :: rest => if b == 0x6d || b == 0x4b || b == 0x7c then some rest else none
    | [] => none
  | _ => none

/-- The text without colour sequences; the first argument bounds its length. -/
def withoutColours : Nat → Text → Text
  | 0, _ => []
  | _ + 1, [] => []
  | n + 1, b :: t =>
    match afterColour? (b :: t) with
    | some rest => withoutColours n rest
    | none => b :: withoutColours n t

/-- The number of columns that a text takes. -/
def columns (t : Text) : Nat := Text.width (withoutColours t.length t)

/-! ### Cells -/

/-- A text in the middle of `width` columns; an odd column is at the right. -/
def centred (width : Nat) (t : Text) : Text :=
  let space := width - columns t
  Text.spaces (space / 2) ++ t ++ Text.spaces (space - space / 2)

/-- A text at the left of `width` columns. -/
def atLeft (width : Nat) (t : Text) : Text := t ++ Text.spaces (width - columns t)

/-- A text at the right of `width` columns. -/
def atRight (width : Nat) (t : Text) : Text := Text.spaces (width - columns t) ++ t

/-- Whether a text consists of groups of three digits, each after a comma. -/
def isGrouped : Text → Bool
  | [] => true
  | 0x2c :: a :: b :: c :: rest =>
    Text.isDigit a && Text.isDigit b && Text.isDigit c && isGrouped rest
  | _ => false

/-- Whether a text is the whole part of a number: digits, or up to three digits and groups. -/
def isWholePart (t : Text) : Bool :=
  let lead := t.takeWhile Text.isDigit
  let rest := t.drop lead.length
  !lead.isEmpty && (rest.isEmpty || (lead.length ≤ 3 && isGrouped rest))

/-- Whether a text is a decimal number. -/
def isDecimal (t : Text) : Bool :=
  let t := if t.head? == some 0x2d then t.drop 1 else t
  let whole := t.takeWhile (· != 0x2e)
  let fraction := t.drop whole.length
  isWholePart whole &&
    (fraction.isEmpty || (fraction.length > 1 && (fraction.drop 1).all Text.isDigit))

/-- A cell of a row in `width` columns. -/
def cell (width : Nat) (t : Text) : Text :=
  if isDecimal (Text.trim t) then atRight width t else atLeft width t

/-! ### Layout -/

/-- The widths of the columns. -/
def widths (t : Table) : List Nat :=
  t.header.zipIdx.map fun (h, i) =>
    (t.rows.map fun row => ((Text.lines (row.getD i [])).map columns).foldl max 0).foldl max
      (columns h)

/-- A line of cells: every cell has a space on both sides, and bars stand between cells. -/
def line (t : Table) (cells : List Text) : Text :=
  let edge : Text := if t.border then "|" else " "
  edge ++ Text.join "|" (cells.map fun c => " " ++ c ++ " ") ++ edge ++ "\n"

/-- A line of dashes. -/
def rule (t : Table) : Text :=
  let edge : Text := if t.border then "+" else "-"
  edge ++ Text.join "+" (t.widths.map fun w => List.replicate (w + 2) 0x2d) ++ edge ++ "\n"

/-- The lines of a row; a cell with fewer lines than the row is filled up with blank ones. -/
def rowLines (t : Table) (row : List Text) : Text :=
  let cells := row.map Text.lines
  let height := (cells.map List.length).foldl max 0
  (List.range height).flatMap fun i =>
    t.line ((cells.zip t.widths).map fun (c, w) => cell w (c.getD i "  "))

/-- The text of a table. -/
def render (t : Table) : Text :=
  Text.when t.border t.rule ++
    t.line ((t.header.zip t.widths).map fun (h, w) => centred w (Text.upperAscii h)) ++
    t.rule ++ t.rows.flatMap t.rowLines ++ Text.when t.border t.rule

end Table

end ScriptLang
