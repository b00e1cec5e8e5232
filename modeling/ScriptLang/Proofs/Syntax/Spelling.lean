import ScriptLang.Proofs.Syntax.Node
import ScriptLang.Proofs.Token.Spelled

/-!
# The lexemes of a tree

`Spell` gives the lexemes of a tree: what is left of its text when blanks, line ends and indentation
are dropped. It follows the printer construct by construct. The main result is that scanning the text
of a program gives its lexemes and nothing else (`Spell.spelled_program`).
-/

namespace ScriptLang

/-! ### Operators and their kinds -/

/-- The kind of token that an operator is read from. -/
def BinaryOp.kind : BinaryOp → Kind
  | or => .orOr
  | and => .andAnd
  | orElse => .nilCoalesce
  | bitOr => .pipe
  | bitXor => .caret
  | bitAnd => .amp
  | eq => .eq
  | ne => .notEq
  | lt => .lt
  | le => .ltEq
  | gt => .gt
  | ge => .gtEq
  | add => .plus
  | sub => .minus
  | mul => .star
  | div => .slash
  | rem => .percent
  | pow => .starStar
  | other _ => .ident

/-- The kind of token that an operator is read from. -/
def UnaryOp.kind : UnaryOp → Kind
  | neg => .minus
  | not => .bang
  | typeof => .kwTypeof
  | delete => .kwDelete
  | other _ => .ident

/-- The kind of token that an assignment is read from. -/
def AssignOp.kind : AssignOp → Kind
  | set => .assign
  | setIfNil => .nilAssign
  | add => .plusAssign
  | sub => .minusAssign
  | mul => .starAssign
  | div => .slashAssign
  | rem => .percentAssign
  | other _ => .ident

/-- The kind of token that a step is read from. -/
def StepOp.kind : StepOp → Kind
  | up => .plusPlus
  | down => .minusMinus
  | other _ => .ident

namespace Spell

/-- Lexemes in parentheses if `needed`. -/
def parens (needed : Bool) (ls : List Lexeme) : List Lexeme :=
  if needed then Kind.lparen.lexeme :: (ls ++ [Kind.rparen.lexeme]) else ls

/-- Lists of lexemes with commas between them. -/
def commas : List (List Lexeme) → List Lexeme
  | [] => []
  | [ls] => ls
  | ls :: lss => ls ++ Kind.comma.lexeme :: commas lss

/-- A type. -/
def type : TypeExpr → List Lexeme
  | .named _ name => [.ident name]
  | .list _ elem => Kind.lbracket.lexeme :: Kind.rbracket.lexeme :: type elem

/-- An annotation after its colon. -/
def ascription : Option TypeExpr → List Lexeme
  | some t => Kind.colon.lexeme :: type t
  | none => []

/-- A parameter or a field. -/
def param (p : Param) : List Lexeme := .ident p.name :: ascription p.type

/-- The parameters and the annotation of the result. -/
def signature (params : List Param) (result : Option TypeExpr) : List Lexeme :=
  Kind.lparen.lexeme :: (commas (params.map param) ++ Kind.rparen.lexeme :: ascription result)

/-- The fields of a struct. -/
def fields (list : List Param) : List Lexeme :=
  list.flatMap fun f => param f ++ [Kind.semicolon.lexeme]

/-- The key of an object literal. -/
def key (t : Text) : Lexeme := if Print.isWord t then .word t else .string (Text.mend t)

mutual

/-- An expression. -/
def expr : Expr → List Lexeme
  | .number _ v => [⟨.number, Number.source v⟩]
  | .string _ v => [.string (Text.mend v)]
  | .bool _ v => [if v then Kind.kwTrue.lexeme else Kind.kwFalse.lexeme]
  | .nil _ => [Kind.kwNil.lexeme]
  | .ident _ name => [.ident name]
  | .array _ elems => Kind.lbracket.lexeme :: (exprs elems ++ [Kind.rbracket.lexeme])
  | .object _ list => Kind.lbrace.lexeme :: (entries list ++ [Kind.rbrace.lexeme])
  | .unary _ op operand =>
    op.kind.lexeme :: parens (Print.precedence operand < 60) (expr operand)
  | .binary _ op left right =>
    parens (Print.operandNeedsParens left op false) (expr left) ++
      op.kind.lexeme :: parens (Print.operandNeedsParens right op true) (expr right)
  | .range _ first last =>
    parens (Print.needsParens first BinaryOp.rangePrecedence false false) (expr first) ++
      Kind.dotDot.lexeme ::
        parens (Print.needsParens last BinaryOp.rangePrecedence false true) (expr last)
  | .assign _ op target value =>
    parens (Print.precedence target ≤ 10) (expr target) ++ op.kind.lexeme :: expr value
  | .step _ op target => parens (Print.precedence target < 70) (expr target) ++ [op.kind.lexeme]
  | .call _ callee args =>
    parens (Print.precedence callee < 70) (expr callee) ++
      Kind.lparen.lexeme :: (exprs args ++ [Kind.rparen.lexeme])
  | .member _ object property =>
    parens (Print.precedence object < 70) (expr object) ++ [Kind.dot.lexeme, .word property]
  | .index _ object index =>
    parens (Print.precedence object < 70) (expr object) ++
      Kind.lbracket.lexeme :: (expr index ++ [Kind.rbracket.lexeme])
  | .construct _ _ callee args =>
    Kind.kwNew.lexeme :: (parens (!Print.isPlainCallee callee) (expr callee) ++
      Kind.lparen.lexeme :: (exprs args ++ [Kind.rparen.lexeme]))
  | .function ⟨_, _, params, result, body⟩ =>
    Kind.kwFn.lexeme :: (signature params result ++ block body)
  | .choose m => choice m

/-- Expressions with commas between them. -/
def exprs : List Expr → List Lexeme
  | [] => []
  | [e] => expr e
  | e :: es => expr e ++ Kind.comma.lexeme :: exprs es

/-- Keys and values with commas between them. -/
def entries : List (Text × Expr) → List Lexeme
  | [] => []
  | [(k, e)] => key k :: Kind.colon.lexeme :: expr e
  | (k, e) :: es => key k :: Kind.colon.lexeme :: (expr e ++ Kind.comma.lexeme :: entries es)

/-- A choice between arms. -/
def choice : MatchExpr → List Lexeme
  | ⟨_, subject, list⟩ =>
    Kind.kwMatch.lexeme :: (expr subject ++
      Kind.lbrace.lexeme :: (arms list ++ [Kind.rbrace.lexeme]))

/-- The arms of a choice, each with its comma. -/
def arms : List MatchArm → List Lexeme
  | [] => []
  | a :: as => arm a ++ Kind.comma.lexeme :: arms as

/-- An arm of a choice. -/
def arm : MatchArm → List Lexeme
  | ⟨_, none, body⟩ => .ident "_" :: Kind.fatArrow.lexeme :: armBody body
  | ⟨_, some e, body⟩ => expr e ++ Kind.fatArrow.lexeme :: armBody body

/-- What an arm does. -/
def armBody : ArmBody → List Lexeme
  | .block b => block b
  | .value _ e => parens (Print.isObject e) (expr e)

/-- A block. -/
def block : Block → List Lexeme
  | ⟨_, body⟩ => Kind.lbrace.lexeme :: (stmts body ++ [Kind.rbrace.lexeme])

/-- Statements. -/
def stmts : List Stmt → List Lexeme
  | [] => []
  | s :: ss => stmt s ++ stmts ss

/-- A conditional. -/
def cond : IfStmt → List Lexeme
  | ⟨_, c, yes, none⟩ => Kind.kwIf.lexeme :: (expr c ++ block yes)
  | ⟨_, c, yes, some no⟩ =>
    Kind.kwIf.lexeme :: (expr c ++ (block yes ++ Kind.kwElse.lexeme :: elseBranch no))

/-- What a conditional does when its condition is false. -/
def elseBranch : ElseBranch → List Lexeme
  | .block b => block b
  | .chain next => cond next

/-- A function with its name. -/
def function : FunctionDecl → List Lexeme
  | ⟨_, name, params, result, body⟩ =>
    Kind.kwFn.lexeme :: .ident name :: (signature params result ++ block body)

/-- The methods of a struct. -/
def functions : List FunctionDecl → List Lexeme
  | [] => []
  | f :: fs => function f ++ functions fs

/-- A statement. -/
def stmt : Stmt → List Lexeme
  | .block b => block b
  | .expr _ e => parens (Print.startsOtherwise e) (expr e) ++ [Kind.semicolon.lexeme]
  | .declare _ name constant type none =>
    (if constant then Kind.kwConst.lexeme else Kind.kwLet.lexeme) :: .ident name ::
      (ascription type ++ [Kind.semicolon.lexeme])
  | .declare _ name constant type (some e) =>
    (if constant then Kind.kwConst.lexeme else Kind.kwLet.lexeme) :: .ident name ::
      (ascription type ++ Kind.assign.lexeme :: (expr e ++ [Kind.semicolon.lexeme]))
  | .function f => function f
  | .cond c => cond c
  | .whileLoop _ c body => Kind.kwWhile.lexeme :: (expr c ++ block body)
  | .foreachLoop _ value index iterable body =>
    Kind.kwForeach.lexeme :: .ident value ::
      ((if index.isEmpty then [] else [Kind.comma.lexeme, .ident index]) ++
        Kind.kwIn.lexeme :: (expr iterable ++ block body))
  | .importing _ name wildcard path =>
    Kind.kwImport.lexeme :: (if wildcard then Kind.star.lexeme else .ident name) ::
      ((if path.isEmpty then [] else [Kind.kwFrom.lexeme, .string (Text.mend path)]) ++
        [Kind.semicolon.lexeme])
  | .struct _ name list methods =>
    Kind.kwStruct.lexeme :: .ident name :: Kind.lbrace.lexeme ::
      (fields list ++ (functions methods ++ [Kind.rbrace.lexeme]))
  | .enum _ name members =>
    Kind.kwEnum.lexeme :: .ident name :: Kind.lbrace.lexeme ::
      (commas (members.map fun m => [.ident m]) ++ [Kind.rbrace.lexeme])
  | .choose _ m => choice m
  | .breakLoop _ => [Kind.kwBreak.lexeme, Kind.semicolon.lexeme]
  | .continueLoop _ => [Kind.kwContinue.lexeme, Kind.semicolon.lexeme]
  | .returning _ none => [Kind.kwReturn.lexeme, Kind.semicolon.lexeme]
  | .returning _ (some e) => Kind.kwReturn.lexeme :: (expr e ++ [Kind.semicolon.lexeme])

end

end Spell

end ScriptLang
