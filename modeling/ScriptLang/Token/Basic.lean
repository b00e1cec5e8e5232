import ScriptLang.Span
import ScriptLang.Text.Quoted

/-!
# Tokens

The words, literals, marks and operators that a program text consists of. Reserved words, marks and
operators are given by one table of spellings each; the name of such a kind is its spelling.
-/

namespace ScriptLang

/-- The kind of a token. -/
inductive Kind where
  /-- The end of the text. -/
  | eof
  /-- A number. -/
  | number
  /-- A string. -/
  | string
  /-- A name. -/
  | ident
  /-- The reserved word of its name. -/
  | kwLet | kwConst | kwFn | kwStruct | kwEnum | kwIf | kwElse | kwWhile | kwForeach | kwIn
  | kwImport | kwFrom | kwBreak | kwContinue | kwReturn | kwMatch | kwNew | kwTypeof | kwDelete
  | kwTrue | kwFalse | kwNil
  /-- A mark. -/
  | lparen | rparen | lbrace | rbrace | lbracket | rbracket | comma | colon | semicolon | dot
  | dotDot | fatArrow
  /-- An assignment. -/
  | assign | plusAssign | minusAssign | starAssign | slashAssign | percentAssign | nilAssign
  /-- An operator. -/
  | plus | minus | star | slash | percent | starStar | eq | notEq | lt | ltEq | gt | gtEq
  | andAnd | orOr | bang | amp | pipe | caret | plusPlus | minusMinus | nilCoalesce
deriving DecidableEq, Repr, Inhabited

namespace Kind

/-- The name of a kind: its spelling, if it has only one. -/
def name : Kind → Text
  | eof => "EOF"
  | number => "Number"
  | string => "String"
  | ident => "Identifier"
  | kwLet => "let"
  | kwConst => "const"
  | kwFn => "fn"
  | kwStruct => "struct"
  | kwEnum => "enum"
  | kwIf => "if"
  | kwElse => "else"
  | kwWhile => "while"
  | kwForeach => "foreach"
  | kwIn => "in"
  | kwImport => "import"
  | kwFrom => "from"
  | kwBreak => "break"
  | kwContinue => "continue"
  | kwReturn => "return"
  | kwMatch => "match"
  | kwNew => "new"
  | kwTypeof => "typeof"
  | kwDelete => "delete"
  | kwTrue => "true"
  | kwFalse => "false"
  | kwNil => "nil"
  | lparen => "("
  | rparen => ")"
  | lbrace => "\x7b"
  | rbrace => "\x7d"
  | lbracket => "["
  | rbracket => "]"
  | comma => ","
  | colon => ":"
  | semicolon => ";"
  | dot => "."
  | dotDot => ".."
  | fatArrow => "=>"
  | assign => "="
  | plusAssign => "+="
  | minusAssign => "-="
  | starAssign => "*="
  | slashAssign => "/="
  | percentAssign => "%="
  | nilAssign => "??="
  | plus => "+"
  | minus => "-"
  | star => "*"
  | slash => "/"
  | percent => "%"
  | starStar => "**"
  | eq => "=="
  | notEq => "!="
  | lt => "<"
  | ltEq => "<="
  | gt => ">"
  | gtEq => ">="
  | andAnd => "&&"
  | orOr => "||"
  | bang => "!"
  | amp => "&"
  | pipe => "|"
  | caret => "^"
  | plusPlus => "++"
  | minusMinus => "--"
  | nilCoalesce => "??"

/-- The reserved words, in order. -/
def keywords : List Kind :=
  [kwLet, kwConst, kwFn, kwStruct, kwEnum, kwIf, kwElse, kwWhile, kwForeach, kwIn, kwImport,
   kwFrom, kwBreak, kwContinue, kwReturn, kwMatch, kwNew, kwTypeof, kwDelete, kwTrue, kwFalse,
   kwNil]

/-- The marks and operators, in order. -/
def operators : List Kind :=
  [lparen, rparen, lbrace, rbrace, lbracket, rbracket, comma, colon, semicolon, dot, dotDot,
   fatArrow, assign, plusAssign, minusAssign, starAssign, slashAssign, percentAssign, nilAssign,
   plus, minus, star, slash, percent, starStar, eq, notEq, lt, ltEq, gt, gtEq, andAnd, orOr, bang,
   amp, pipe, caret, plusPlus, minusMinus, nilCoalesce]

/-- All kinds, in order. -/
def all : List Kind := [eof, number, string, ident] ++ keywords ++ operators

/-- The kind of a word: a reserved word has its own, every other word is a name. -/
def ofWord (w : Text) : Kind := (keywords.find? fun k => k.name == w).getD ident

/-- Whether a kind is a reserved word. -/
def isKeyword (k : Kind) : Bool := keywords.contains k

/-- The kind with the given name. -/
def ofName? (name : Text) : Option Kind := all.find? fun k => k.name == name

/-- The name of the kind at a position in the order of kinds, and whether it is a reserved word. A
position that has no kind is named by its number. -/
def describe (position : Int) : Text × Bool :=
  match (if position < 0 then none else all[position.toNat]?) with
  | some k => (k.name, k.isKeyword)
  | none => ("Kind(" ++ Text.ofInt position ++ ")", false)

end Kind

/-- A token: its kind, its place and its value, which is the unescaped content of a string and the
source text of everything else. -/
structure Token where
  /-- The kind. -/
  kind : Kind
  /-- The value. -/
  value : Text := []
  /-- The place in the source. -/
  span : Span := {}
deriving DecidableEq, Repr, Inhabited

namespace Token

/-- A token as messages show it. -/
def describe (t : Token) : Text :=
  match t.kind with
  | .eof => "end of input"
  | .string => Text.quoted t.value
  | .number => "Number '" ++ t.value ++ "'"
  | .ident => "Identifier '" ++ t.value ++ "'"
  | _ => "'" ++ t.value ++ "'"

end Token

end ScriptLang
