import ScriptLang.Decimal.Reader
import ScriptLang.Syntax.Basic
import ScriptLang.Syntax.Power
import ScriptLang.Syntax.Stream

/-!
# From tokens to programs

The grammar is written as rules that call each other through `Rules`, a reader for every kind of
phrase. `Rules.ofDepth n` ties the rules together for trees of depth at most `n`; the depth that a
stream starts with is enough for every tree it holds.

The main definitions are `Program.parse`, `Program.ofTokens` and `Expr.parse`.
-/

namespace ScriptLang

/-- The kinds of phrases that contain each other. -/
inductive Phrase where
  /-- An expression whose operators have at least the given power. -/
  | expr (least : Nat)
  /-- The first operand of an expression. -/
  | operand
  /-- A statement. -/
  | stmt
  /-- A block. -/
  | block
  /-- A conditional. -/
  | cond

/-- The tree of a phrase. -/
abbrev Phrase.Tree : Phrase → Type
  | expr _ | operand => Expr
  | stmt => Stmt
  | block => Block
  | cond => IfStmt

/-- A reader for every kind of phrase. -/
abbrev Rules := (p : Phrase) → Parser p.Tree

namespace Rules

/-- Read an expression. -/
def expr (rules : Rules) (least : Nat) : Parser Expr := rules (.expr least)

/-- Read the first operand of an expression. -/
def operand (rules : Rules) : Parser Expr := rules .operand

/-- Read a statement. -/
def stmt (rules : Rules) : Parser Stmt := rules .stmt

/-- Read a block. -/
def block (rules : Rules) : Parser Block := rules .block

/-- Read a conditional. -/
def cond (rules : Rules) : Parser IfStmt := rules .cond

end Rules

namespace Parser

/-! ### Types and signatures -/

/-- A type: a name, the word `nil`, or brackets before a type. -/
def type : Nat → Parser TypeExpr
  | 0 => fail fun _ => .tooDeep
  | n + 1 => do
    let t ← peek
    match t.kind with
    | .ident =>
      let _ ← advance
      return .named t.span t.value
    | .kwNil =>
      let _ ← advance
      return .named t.span "Nil"
    | .lbracket =>
      let _ ← advance
      let _ ← expect .rbracket
      let elem ← type n
      return .list (← spanFrom t.span) elem
    | _ => fail .expectedType

/-- An annotation after a colon, if there is a colon. -/
def annotation (n : Nat) : Parser (Option TypeExpr) := do
  if ← skip .colon then return some (← type n) else return none

/-- A name and its annotation. -/
def param (n : Nat) : Parser Param := do
  let name ← expectName
  return ⟨name, ← annotation n⟩

/-- The parameters, the annotation of the result and the body of a function. -/
def signature (rules : Rules) (n : Nat) : Parser (List Param × Option TypeExpr × Block) := do
  let _ ← expect .lparen
  let params ← commaList .rparen (param n) n
  let _ ← expect .rparen
  let result ← annotation n
  let body ← rules.block
  return (params, result, body)

/-- A function with its name. -/
def namedFunction (rules : Rules) (n : Nat) : Parser FunctionDecl := do
  let first ← advance
  let name ← expectName
  let (params, result, body) ← signature rules n
  return ⟨← spanFrom first.span, name, params, result, body⟩

/-! ### Operands -/

/-- An expression in parentheses. -/
def group (rules : Rules) : Parser Expr := do
  let _ ← advance
  let e ← rules.expr 0
  let _ ← expect .rparen
  return e

/-- An array literal. -/
def arrayLiteral (rules : Rules) (n : Nat) : Parser Expr := do
  let first ← advance
  let elems ← commaList .rbracket (rules.expr 0) n
  let _ ← expect .rbracket
  return .array (← spanFrom first.span) elems

/-- A key with its value. Every word and every string is a key. -/
def entry (rules : Rules) : Parser (Text × Expr) := do
  let key ← peek
  if key.kind == .ident || key.kind == .string || key.kind.isKeyword then
    let _ ← advance
    let _ ← expect .colon
    return (key.value, ← rules.expr 0)
  else fail .expectedKey

/-- An object literal. -/
def objectLiteral (rules : Rules) (n : Nat) : Parser Expr := do
  let first ← advance
  let entries ← commaList .rbrace (entry rules) n
  let _ ← expect .rbrace
  return .object (← spanFrom first.span) entries

/-- An operator before its operand. -/
def unary (rules : Rules) : Parser Expr := do
  let op ← advance
  let operand ← rules.expr Power.unary
  return .unary (← spanFrom op.span) (.ofSpelling op.value) operand

/-- A function without a name. -/
def functionLiteral (rules : Rules) (n : Nat) : Parser Expr := do
  let first ← advance
  let (params, result, body) ← signature rules n
  return .function ⟨← spanFrom first.span, [], params, result, body⟩

/-- The property after a dot. -/
def property (object : Expr) : Parser Expr := do
  let _ ← advance
  let name ← peek
  if name.kind == .ident || name.kind.isKeyword then
    let _ ← advance
    return .member (← spanFrom object.span) object name.value
  else fail .expectedProperty

/-- The arguments of a call, in parentheses. -/
def arguments (rules : Rules) (n : Nat) : Parser (List Expr) := do
  let _ ← advance
  let args ← commaList .rparen (rules.expr 0) n
  let _ ← expect .rparen
  return args

/-- Properties after an operand, as long as dots follow. -/
def properties : Nat → Expr → Parser Expr
  | 0, _ => fail fun _ => .tooDeep
  | n + 1, e => do
    if ← sees .dot then
      let e ← property e
      properties n e
    else return e

/-- Whether an operand can start with a token of the given kind. -/
def startsOperand : Kind → Bool
  | .number | .string | .kwTrue | .kwFalse | .kwNil | .ident | .lparen | .lbracket | .lbrace
  | .minus | .bang | .kwTypeof | .kwDelete | .kwFn | .kwMatch | .kwNew => true
  | _ => false

/-- A construction: an operand with properties and an argument list. -/
def construction (rules : Rules) (n : Nat) : Parser Expr := do
  let first ← advance
  if startsOperand (← peek).kind then
    let callee ← rules.operand
    let callee ← properties n callee
    if ← sees .lparen then
      let args ← arguments rules n
      let callSpan ← spanFrom callee.span
      return .construct (← spanFrom first.span) callSpan callee args
    else fail .expectedArguments
  else fail .expectedStruct

/-- An arm of a choice. The word `_` before an arrow takes every value. -/
def matchArm (rules : Rules) : Parser MatchArm := do
  let first ← peek
  let wild : Bool := (fun s : Stream =>
    s.current.kind == .ident && s.current.value == "_" && s.second == .fatArrow) (← get)
  let pattern ← if wild then
      let _ ← advance
      pure none
    else
      let e ← rules.expr 0
      pure (some e)
  let _ ← expect .fatArrow
  let body ← if ← sees .lbrace then
      let b ← rules.block
      pure (ArmBody.block b)
    else
      let start ← peek
      let e ← rules.expr 0
      pure (ArmBody.value (← spanFrom start.span) e)
  return ⟨← spanFrom first.span, pattern, body⟩

/-- The arms up to the closing brace. The comma after a block may be left out. -/
def matchArms (rules : Rules) : Nat → Parser (List MatchArm)
  | 0 => fail fun _ => .tooDeep
  | n + 1 => do
    if ← sees .rbrace then return []
    let arm ← matchArm rules
    let comma ← skip .comma
    let isBlock := match arm.body with
      | .block _ => true
      | .value .. => false
    if comma || isBlock then
      let arms ← matchArms rules n
      return arm :: arms
    else return [arm]

/-- A choice between arms. -/
def choice (rules : Rules) (n : Nat) : Parser MatchExpr := do
  let first ← advance
  let subject ← rules.expr 0
  let _ ← expect .lbrace
  let arms ← matchArms rules n
  let _ ← expect .rbrace
  return ⟨← spanFrom first.span, subject, arms⟩

/-- A number. -/
def numberLiteral : Parser Expr := do
  let t ← peek
  match Number.read? t.value with
  | some v =>
    let _ ← advance
    return .number t.span v
  | none => fail fun t => .badNumber t.value

/-- The first operand of an expression, by the token it starts with. -/
def operand (rules : Rules) (n : Nat) : Parser Expr := do
  let t ← peek
  match t.kind with
  | .number => numberLiteral
  | .string =>
    let _ ← advance
    return .string t.span t.value
  | .kwTrue =>
    let _ ← advance
    return .bool t.span true
  | .kwFalse =>
    let _ ← advance
    return .bool t.span false
  | .kwNil =>
    let _ ← advance
    return .nil t.span
  | .ident =>
    let _ ← advance
    return .ident t.span t.value
  | .lparen => group rules
  | .lbracket => arrayLiteral rules n
  | .lbrace => objectLiteral rules n
  | .minus | .bang | .kwTypeof | .kwDelete => unary rules
  | .kwFn => functionLiteral rules n
  | .kwMatch => return .choose (← choice rules n)
  | .kwNew => construction rules n
  | _ => fail .expectedOperand

/-! ### Operators -/

/-- Continue an expression with the token that stands next, whose right power is given. -/
def extend (rules : Rules) (n : Nat) (right : Nat) (left : Expr) : Parser Expr := do
  let op ← peek
  match op.kind with
  | .lparen =>
    let args ← arguments rules n
    return .call (← spanFrom left.span) left args
  | .lbracket =>
    let _ ← advance
    let index ← rules.expr 0
    let _ ← expect .rbracket
    return .index (← spanFrom left.span) left index
  | .dot => property left
  | .plusPlus | .minusMinus =>
    let _ ← advance
    return .step (← spanFrom left.span) (.ofSpelling op.value) left
  | .dotDot =>
    let _ ← advance
    let last ← rules.expr right
    return .range (← spanFrom left.span) left last
  | kind =>
    let _ ← advance
    let operand ← rules.expr right
    if kind.isAssignment then
      return .assign (← spanFrom left.span) (.ofSpelling op.value) left operand
    else
      return .binary (← spanFrom left.span) (.ofSpelling op.value) left operand

/-- Continue an expression as long as the next token has at least the given power. -/
def climb (rules : Rules) (least : Nat) : Nat → Expr → Parser Expr
  | 0, _ => fail fun _ => .tooDeep
  | n + 1, left => do
    match (← peek).kind.power? with
    | none => return left
    | some power =>
      if power.left < least then return left
      else
        let e ← extend rules n power.right left
        climb rules least n e

/-- An expression. -/
def expression (rules : Rules) (n : Nat) (least : Nat) : Parser Expr := do
  let first ← rules.operand
  climb rules least n first

/-! ### Statements -/

/-- Statements up to the closing brace, which is passed. -/
def statements (rules : Rules) : Nat → Parser (List Stmt)
  | 0 => fail fun _ => .tooDeep
  | n + 1 => do
    if ← skip .rbrace then return []
    if ← sees .eof then fail (.expected .rbrace)
    else
      let s ← rules.stmt
      let ss ← statements rules n
      return s :: ss

/-- A block. -/
def block (rules : Rules) (n : Nat) : Parser Block := do
  let first ← expect .lbrace
  let body ← statements rules n
  return ⟨← spanFrom first.span, body⟩

/-- An expression that ends with a semicolon. -/
def exprStmt (rules : Rules) : Parser Stmt := do
  let first ← peek
  let e ← rules.expr 0
  let _ ← expect .semicolon
  return .expr (← spanFrom first.span) e

/-- The declaration of a variable or a constant. -/
def declaration (rules : Rules) (n : Nat) : Parser Stmt := do
  let word ← advance
  let name ← expectName
  let type ← annotation n
  let value ← if ← skip .assign then
      let e ← rules.expr 0
      pure (some e)
    else pure none
  let _ ← expect .semicolon
  return .declare (← spanFrom word.span) name (word.kind == .kwConst) type value

/-- A conditional. -/
def cond (rules : Rules) : Parser IfStmt := do
  let first ← advance
  let c ← rules.expr 0
  let yes ← rules.block
  let no ← if ← skip .kwElse then
      if ← sees .kwIf then
        let next ← rules.cond
        pure (some (ElseBranch.chain next))
      else
        let b ← rules.block
        pure (some (ElseBranch.block b))
    else pure none
  return ⟨← spanFrom first.span, c, yes, no⟩

/-- An import. -/
def importStmt : Parser Stmt := do
  let first ← advance
  let wildcard ← skip .star
  let name ← if wildcard then pure [] else expectName
  let path ← if ← skip .kwFrom then
      let t ← expect .string
      pure t.value
    else if wildcard then fail .expectedFrom
    else pure []
  let _ ← expect .semicolon
  return .importing (← spanFrom first.span) name wildcard path

/-- A loop over the items of a value. -/
def foreachStmt (rules : Rules) : Parser Stmt := do
  let first ← advance
  let value ← expectName
  let index ← if ← skip .comma then expectName else pure []
  let _ ← expect .kwIn
  let iterable ← rules.expr 0
  let body ← rules.block
  return .foreachLoop (← spanFrom first.span) value index iterable body

/-- A loop with a condition. -/
def whileStmt (rules : Rules) : Parser Stmt := do
  let first ← advance
  let c ← rules.expr 0
  let body ← rules.block
  return .whileLoop (← spanFrom first.span) c body

/-- The fields and methods of a struct up to the closing brace. -/
def members (rules : Rules) : Nat → Parser (List Param × List FunctionDecl)
  | 0 => fail fun _ => .tooDeep
  | n + 1 => do
    if ← sees .rbrace then return ([], [])
    if ← sees .kwFn then
      let m ← namedFunction rules n
      let (fields, methods) ← members rules n
      return (fields, m :: methods)
    else
      let f ← param n
      unless ← skip .comma do
        let _ ← expect .semicolon
      let (fields, methods) ← members rules n
      return (f :: fields, methods)

/-- The declaration of a struct. -/
def structDecl (rules : Rules) (n : Nat) : Parser Stmt := do
  let first ← advance
  let name ← expectName
  let _ ← expect .lbrace
  let (fields, methods) ← members rules n
  let _ ← advance
  return .struct (← spanFrom first.span) name fields methods

/-- The declaration of an enumeration. -/
def enumDecl (n : Nat) : Parser Stmt := do
  let first ← advance
  let name ← expectName
  let _ ← expect .lbrace
  let members ← commaList .rbrace expectName n
  let _ ← expect .rbrace
  return .enum (← spanFrom first.span) name members

/-- A choice as a statement. A semicolon may follow. -/
def chooseStmt (rules : Rules) (n : Nat) : Parser Stmt := do
  let first ← peek
  let m ← choice rules n
  let _ ← skip .semicolon
  return .choose (← spanFrom first.span) m

/-- The end of a function. -/
def returnStmt (rules : Rules) : Parser Stmt := do
  let first ← advance
  let value ← if ← sees .semicolon then pure none else
      let e ← rules.expr 0
      pure (some e)
  let _ ← expect .semicolon
  return .returning (← spanFrom first.span) value

/-- A statement that is one word and a semicolon. -/
def wordStmt (make : Span → Stmt) : Parser Stmt := do
  let first ← advance
  let _ ← expect .semicolon
  return make (← spanFrom first.span)

/-- A statement, by the token it starts with. -/
def statement (rules : Rules) (n : Nat) : Parser Stmt := do
  match (← peek).kind with
  | .lbrace => return .block (← rules.block)
  | .kwLet | .kwConst => declaration rules n
  | .kwFn =>
    if (← get).second == .lparen then exprStmt rules
    else return .function (← namedFunction rules n)
  | .kwIf => return .cond (← rules.cond)
  | .kwImport => importStmt
  | .kwForeach => foreachStmt rules
  | .kwWhile => whileStmt rules
  | .kwStruct => structDecl rules n
  | .kwEnum => enumDecl n
  | .kwMatch => chooseStmt rules n
  | .kwBreak => wordStmt .breakLoop
  | .kwContinue => wordStmt .continueLoop
  | .kwReturn => returnStmt rules
  | _ => exprStmt rules

/-- The reader of a phrase whose parts are read by `rules`. -/
def phrase (rules : Rules) (n : Nat) : Rules
  | .expr least => expression rules n least
  | .operand => operand rules n
  | .stmt => statement rules n
  | .block => block rules n
  | .cond => cond rules

end Parser

/-- The readers of phrases for trees of a bounded depth. -/
def Rules.ofDepth : Nat → Rules
  | 0, _ => Parser.fail fun _ => .tooDeep
  | n + 1, p => Parser.phrase (Rules.ofDepth n) n p

/-- The statements of a program up to the end of the text. -/
def Parser.program (rules : Rules) : Nat → Parser (List Stmt)
  | 0 => fail fun _ => .tooDeep
  | n + 1 => do
    if ← sees .eof then return []
    let s ← rules.stmt
    let ss ← Parser.program rules n
    return s :: ss

namespace Program

/-- The program of a list of tokens. -/
def ofTokens (tokens : List Token) : Except SyntaxError Block :=
  let stream := Stream.ofTokens tokens
  let reader : Parser Block := do
    let first ← Parser.peek
    let body ← Parser.program (Rules.ofDepth stream.depth) stream.depth
    let last ← Parser.peek
    return ⟨first.span.upTo last.span, body⟩
  (reader stream).map Prod.fst

/-- The program of a text. -/
def parse (source file : Text) : Except SyntaxError Block :=
  match Token.scan source file with
  | .ok tokens => ofTokens tokens
  | .error e => .error (.scan e (e.fault = .unterminated))

end Program

namespace Expr

/-- The expression of a text, which a semicolon may follow. -/
def parse (source file : Text) : Except SyntaxError Expr :=
  match Token.scan source file with
  | .ok tokens =>
    let stream := Stream.ofTokens tokens
    let reader : Parser Expr := do
      let e ← (Rules.ofDepth stream.depth).expr 0
      let _ ← Parser.skip .semicolon
      if ← Parser.sees .eof then return e else Parser.fail .expectedEnd
    (reader stream).map Prod.fst
  | .error e => .error (.scan e false)

end Expr

end ScriptLang
