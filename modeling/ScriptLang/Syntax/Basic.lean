import ScriptLang.Span
import ScriptLang.Syntax.Operator

/-!
# Programs

The tree of a program. Every node carries the span of the source it was read from; the span of a
parenthesised expression is that of the expression inside. A program is a block.
-/

namespace ScriptLang

/-- A type annotation. -/
inductive TypeExpr where
  /-- A type given by its name. -/
  | named (span : Span) (name : Text)
  /-- The arrays of an element type. -/
  | list (span : Span) (elem : TypeExpr)
deriving DecidableEq, Repr

namespace TypeExpr

/-- The span of an annotation. -/
def span : TypeExpr → Span
  | named s _ => s
  | list s _ => s

/-- The text of an annotation. -/
def text : TypeExpr → Text
  | named _ name => name
  | list _ elem => "[]" ++ elem.text

end TypeExpr

/-- A name with an optional annotation: a parameter of a function or a field of a struct. -/
structure Param where
  /-- The name. -/
  name : Text
  /-- The annotation. -/
  type : Option TypeExpr
deriving DecidableEq, Repr

mutual

/-- An expression. -/
inductive Expr where
  /-- A number. -/
  | number (span : Span) (value : Float)
  /-- A string. -/
  | string (span : Span) (value : Text)
  /-- A truth value. -/
  | bool (span : Span) (value : Bool)
  /-- The absent value. -/
  | nil (span : Span)
  /-- A name. -/
  | ident (span : Span) (name : Text)
  /-- A new array. -/
  | array (span : Span) (elems : List Expr)
  /-- A new object. -/
  | object (span : Span) (entries : List (Text × Expr))
  /-- An operator before its operand. -/
  | unary (span : Span) (op : UnaryOp) (operand : Expr)
  /-- An operator between its operands. -/
  | binary (span : Span) (op : BinaryOp) (left right : Expr)
  /-- An assignment. -/
  | assign (span : Span) (op : AssignOp) (target value : Expr)
  /-- A step, written after its target. -/
  | step (span : Span) (op : StepOp) (target : Expr)
  /-- The numbers from `first` up to, not including, `last`. -/
  | range (span : Span) (first last : Expr)
  /-- A property of a value. -/
  | member (span : Span) (object : Expr) (property : Text)
  /-- An element of a value. -/
  | index (span : Span) (object index : Expr)
  /-- A call. -/
  | call (span : Span) (callee : Expr) (args : List Expr)
  /-- The construction of an instance; the call in it has a span of its own. -/
  | construct (span callSpan : Span) (callee : Expr) (args : List Expr)
  /-- A function without a name. -/
  | function (decl : FunctionDecl)
  /-- A choice between arms. -/
  | choose (choice : MatchExpr)

/-- A choice: the first arm whose pattern equals the subject is taken. -/
structure MatchExpr where
  /-- The place in the source. -/
  span : Span
  /-- The value that is compared. -/
  subject : Expr
  /-- The arms in order. -/
  arms : List MatchArm

/-- An arm of a choice. -/
structure MatchArm where
  /-- The place in the source. -/
  span : Span
  /-- The pattern; an arm without one takes every value. -/
  pattern : Option Expr
  /-- What is done. -/
  body : ArmBody

/-- What an arm does. -/
inductive ArmBody where
  /-- Run a block. -/
  | block (body : Block)
  /-- Evaluate an expression. -/
  | value (span : Span) (expr : Expr)

/-- A function: a declaration or, with an empty name, a function expression. -/
structure FunctionDecl where
  /-- The place in the source. -/
  span : Span
  /-- The name. -/
  name : Text
  /-- The parameters. -/
  params : List Param
  /-- The annotation of the result. -/
  result : Option TypeExpr
  /-- The statements. -/
  body : Block

/-- Statements in a scope of their own. -/
structure Block where
  /-- The place in the source. -/
  span : Span
  /-- The statements in order. -/
  body : List Stmt

/-- A conditional. -/
structure IfStmt where
  /-- The place in the source. -/
  span : Span
  /-- The condition. -/
  cond : Expr
  /-- What is done when it is true. -/
  yes : Block
  /-- What is done when it is false. -/
  no : Option ElseBranch

/-- What a conditional does when its condition is false. -/
inductive ElseBranch where
  /-- Run a block. -/
  | block (body : Block)
  /-- Try another condition. -/
  | chain (next : IfStmt)

/-- A statement. -/
inductive Stmt where
  /-- An expression. -/
  | expr (span : Span) (expr : Expr)
  /-- A block. -/
  | block (body : Block)
  /-- The declaration of a variable or a constant. -/
  | declare (span : Span) (name : Text) (constant : Bool) (type : Option TypeExpr)
      (value : Option Expr)
  /-- The declaration of a function. -/
  | function (decl : FunctionDecl)
  /-- A conditional. -/
  | cond (stmt : IfStmt)
  /-- A loop with a condition. -/
  | whileLoop (span : Span) (cond : Expr) (body : Block)
  /-- A loop over the items of a value; an empty `index` means that none was written. -/
  | foreachLoop (span : Span) (value index : Text) (iterable : Expr) (body : Block)
  /-- An import; an empty `path` means a module of the library. -/
  | importing (span : Span) (name : Text) (wildcard : Bool) (path : Text)
  /-- The declaration of a struct. -/
  | struct (span : Span) (name : Text) (fields : List Param) (methods : List FunctionDecl)
  /-- The declaration of an enumeration. -/
  | enum (span : Span) (name : Text) (members : List Text)
  /-- A choice between arms. -/
  | choose (span : Span) (choice : MatchExpr)
  /-- Leave the loop. -/
  | breakLoop (span : Span)
  /-- Go on with the next iteration. -/
  | continueLoop (span : Span)
  /-- Leave the function. -/
  | returning (span : Span) (value : Option Expr)

end

namespace Expr

/-- The span of an expression. -/
def span : Expr → Span
  | number s _ | string s _ | bool s _ | nil s | ident s _ | array s _ | object s _
  | unary s _ _ | binary s _ _ _ | assign s _ _ _ | step s _ _ | range s _ _ | member s _ _
  | index s _ _ | call s _ _ | construct s _ _ _ => s
  | function f => f.span
  | choose m => m.span

/-- The name of the kind of an expression, as messages give it. -/
def kindName : Expr → Text
  | number .. => "NumberLiteral"
  | string .. => "StringLiteral"
  | bool .. => "BoolLiteral"
  | nil .. => "NilLiteral"
  | ident .. => "Identifier"
  | array .. => "ArrayLiteral"
  | object .. => "ObjectLiteral"
  | unary .. => "PrefixExpr"
  | binary .. => "BinaryExpr"
  | assign .. => "AssignExpr"
  | step .. => "PostfixExpr"
  | range .. => "RangeExpr"
  | member .. => "MemberExpr"
  | index .. => "IndexExpr"
  | call .. => "CallExpr"
  | construct .. => "NewExpr"
  | function .. => "FunctionExpr"
  | choose .. => "MatchExpr"

end Expr

namespace Stmt

/-- The span of a statement. -/
def span : Stmt → Span
  | expr s _ | declare s _ _ _ _ | whileLoop s _ _ | foreachLoop s _ _ _ _ | importing s _ _ _
  | struct s _ _ _ | enum s _ _ | choose s _ | breakLoop s | continueLoop s | returning s _ => s
  | block b => b.span
  | function f => f.span
  | cond i => i.span

/-- Whether a statement declares a function, a struct or an enumeration. -/
def isDefinition : Stmt → Bool
  | function .. | struct .. | enum .. => true
  | _ => false

end Stmt

end ScriptLang
