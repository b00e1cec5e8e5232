import ScriptLang.Decimal.Layout
import ScriptLang.Syntax.Basic
import ScriptLang.Text.Utf8

/-!
# The text of a program

Every program has one text: two spaces of indentation per level, one statement per line, an empty
line around definitions at the top, and parentheses only where an operand would otherwise be taken
apart. Comments are not part of a program, so its text has none.

The main definitions are `Program.print` and `Expr.print`.
-/

namespace ScriptLang

namespace Print

/-- The indentation at a level. -/
def indent (depth : Nat) : Text := Text.spaces (2 * depth)

/-- A character inside a string literal. -/
def escape (code : Nat) : Text :=
  match code with
  | 0x22 => "\\\""
  | 0x5c => "\\\\"
  | 0x0a => "\\n"
  | 0x09 => "\\t"
  | 0x0d => "\\r"
  | 0x00 => "\\0"
  | c => if c < 0x20 then "\\u" ++ Text.hex 4 c else Text.encode c

/-- A string literal. Malformed characters are written as U+FFFD. -/
def quote (t : Text) : Text := "\"" ++ (Text.runes t).flatMap (fun r => escape r.code) ++ "\""

/-- Whether a text is a word. -/
def isWord : Text → Bool
  | [] => false
  | b :: r => Text.isWordStart b && r.all Text.isWordByte

/-- The key of an object literal: a word as it is, any other text as a string. -/
def key (t : Text) : Text := if isWord t then t else quote t

/-- The text in parentheses if `needed`. -/
def parens (needed : Bool) (t : Text) : Text := if needed then "(" ++ t ++ ")" else t

/-- How tightly an expression holds together. -/
def precedence : Expr → Nat
  | .assign .. => 10
  | .binary _ op _ _ => op.precedence
  | .range .. => BinaryOp.rangePrecedence
  | .unary .. => 60
  | .step .. | .call .. | .member .. | .index .. => 70
  | _ => 100

/-- Whether an operand of an operator needs parentheses: it binds less tightly, or as tightly and
stands on the side to which the operator does not group. -/
def needsParens (child : Expr) (parent : Nat) (rightward isRight : Bool) : Bool :=
  precedence child < parent || (precedence child == parent && isRight != rightward)

/-- The same for an operator of the language. -/
def operandNeedsParens (child : Expr) (op : BinaryOp) (isRight : Bool) : Bool :=
  needsParens child op.precedence (op == .pow) isRight

/-- Whether an expression statement starts with a token that starts another statement: a brace or
the word `match`. -/
def startsOtherwise : Expr → Bool
  | .object .. | .choose .. => true
  | .binary _ op left _ => !operandNeedsParens left op false && startsOtherwise left
  | .assign _ _ target _ => startsOtherwise target
  | .range _ first _ => startsOtherwise first
  | .step _ _ target => startsOtherwise target
  | .call _ callee _ => startsOtherwise callee
  | .member _ object _ => startsOtherwise object
  | .index _ object _ => startsOtherwise object
  | _ => false

/-- An annotation after its colon. -/
def annotation : Option TypeExpr → Text
  | some t => ": " ++ t.text
  | none => []

/-- A parameter or a field. -/
def param (p : Param) : Text := p.name ++ annotation p.type

/-- The parameters and the annotation of the result. -/
def signature (params : List Param) (result : Option TypeExpr) : Text :=
  "(" ++ Text.join ", " (params.map param) ++ ")" ++ annotation result

/-- The fields of a struct, each with its line end. -/
def fieldLines (depth : Nat) (fields : List Param) : Text :=
  fields.flatMap fun f => indent depth ++ param f ++ ";\n"

/-- The word that starts the declaration of a constant or a variable. -/
def word (constant : Bool) : Text := if constant then "const " else "let "

/-- What an import names. -/
def target (wildcard : Bool) (name : Text) : Text := if wildcard then "*" else name

/-- An operator before the text of its operand. -/
def unary (op : UnaryOp) (operand : Text) : Text :=
  if op = .typeof || op = .delete then op.spelling ++ " " ++ operand
  else if op = .neg && operand.head? = some 0x2d then "- " ++ operand
  else op.spelling ++ operand

/-- Whether the struct after `new` is written without parentheses. -/
def isPlainCallee : Expr → Bool
  | .ident .. | .member .. => true
  | _ => false

/-- Whether an expression is an object literal. -/
def isObject : Expr → Bool
  | .object .. => true
  | _ => false

mutual

/-- An expression whose lines are indented by `depth`. -/
def expr (depth : Nat) : Expr → Text
  | .number _ v => Number.source v
  | .string _ v => quote v
  | .bool _ v => if v then "true" else "false"
  | .nil _ => "nil"
  | .ident _ name => name
  | .array _ elems => "[" ++ exprs depth elems ++ "]"
  | .object _ [] => "\x7b\x7d"
  | .object _ (e :: es) => "\x7b " ++ entries depth (e :: es) ++ " \x7d"
  | .unary _ op operand => unary op (parens (precedence operand < 60) (expr depth operand))
  | .binary _ op left right =>
    parens (operandNeedsParens left op false) (expr depth left) ++ " " ++ op.spelling ++ " " ++
      parens (operandNeedsParens right op true) (expr depth right)
  | .range _ first last =>
    parens (needsParens first BinaryOp.rangePrecedence false false) (expr depth first) ++ ".." ++
      parens (needsParens last BinaryOp.rangePrecedence false true) (expr depth last)
  | .assign _ op target value =>
    parens (precedence target ≤ 10) (expr depth target) ++ " " ++ op.spelling ++ " " ++
      expr depth value
  | .step _ op target => parens (precedence target < 70) (expr depth target) ++ op.spelling
  | .call _ callee args =>
    parens (precedence callee < 70) (expr depth callee) ++ "(" ++ exprs depth args ++ ")"
  | .member _ object property =>
    parens (precedence object < 70) (expr depth object) ++ "." ++ property
  | .index _ object index =>
    parens (precedence object < 70) (expr depth object) ++ "[" ++ expr depth index ++ "]"
  | .construct _ _ callee args =>
    "new " ++ parens (!isPlainCallee callee) (expr depth callee) ++ "(" ++ exprs depth args ++ ")"
  | .function ⟨_, _, params, result, body⟩ =>
    "fn" ++ signature params result ++ " " ++ block depth body
  | .choose m => choice depth m

/-- Expressions with commas between them. -/
def exprs (depth : Nat) : List Expr → Text
  | [] => []
  | [e] => expr depth e
  | e :: es => expr depth e ++ ", " ++ exprs depth es

/-- Keys and values with commas between them. -/
def entries (depth : Nat) : List (Text × Expr) → Text
  | [] => []
  | [(k, e)] => key k ++ ": " ++ expr depth e
  | (k, e) :: es => key k ++ ": " ++ expr depth e ++ ", " ++ entries depth es

/-- A choice between arms. -/
def choice (depth : Nat) : MatchExpr → Text
  | ⟨_, subject, list⟩ =>
    "match " ++ expr depth subject ++ " \x7b\n" ++ arms depth list ++ indent depth ++ "\x7d"

/-- The arms of a choice, each with its line end. -/
def arms (depth : Nat) : List MatchArm → Text
  | [] => []
  | a :: as => indent (depth + 1) ++ arm (depth + 1) a ++ ",\n" ++ arms depth as

/-- An arm of a choice. -/
def arm (depth : Nat) : MatchArm → Text
  | ⟨_, none, body⟩ => "_ => " ++ armBody depth body
  | ⟨_, some e, body⟩ => expr depth e ++ " => " ++ armBody depth body

/-- What an arm does. An object literal gets parentheses, since a brace starts a block here. -/
def armBody (depth : Nat) : ArmBody → Text
  | .block b => block depth b
  | .value _ e => parens (isObject e) (expr depth e)

/-- A block. -/
def block (depth : Nat) : Block → Text
  | ⟨_, []⟩ => "\x7b\x7d"
  | ⟨_, s :: ss⟩ => "\x7b\n" ++ stmts (depth + 1) (s :: ss) ++ indent depth ++ "\x7d"

/-- Statements, each with its line end. -/
def stmts (depth : Nat) : List Stmt → Text
  | [] => []
  | s :: ss => stmt depth s ++ "\n" ++ stmts depth ss

/-- A conditional. -/
def cond (depth : Nat) : IfStmt → Text
  | ⟨_, c, yes, none⟩ => "if " ++ expr depth c ++ " " ++ block depth yes
  | ⟨_, c, yes, some no⟩ =>
    "if " ++ expr depth c ++ " " ++ block depth yes ++ " else " ++ elseBranch depth no

/-- What a conditional does when its condition is false. -/
def elseBranch (depth : Nat) : ElseBranch → Text
  | .block b => block depth b
  | .chain next => cond depth next

/-- A function with its name. -/
def function (depth : Nat) : FunctionDecl → Text
  | ⟨_, name, params, result, body⟩ =>
    "fn " ++ name ++ signature params result ++ " " ++ block depth body

/-- The methods of a struct, each with its line end and with an empty line before it if `spaced`. -/
def methods (depth : Nat) (spaced : Bool) : List FunctionDecl → Text
  | [] => []
  | m :: ms =>
    Text.when spaced "\n" ++ indent depth ++ function depth m ++ "\n" ++
      methods depth true ms

/-- A statement without its line end. -/
def stmt (depth : Nat) : Stmt → Text
  | .block b => indent depth ++ block depth b
  | .expr _ e => indent depth ++ parens (startsOtherwise e) (expr depth e) ++ ";"
  | .declare _ name constant type none =>
    indent depth ++ word constant ++ name ++ annotation type ++ ";"
  | .declare _ name constant type (some e) =>
    indent depth ++ word constant ++ name ++ annotation type ++ " = " ++
      expr depth e ++ ";"
  | .function f => indent depth ++ function depth f
  | .cond c => indent depth ++ cond depth c
  | .whileLoop _ c body => indent depth ++ "while " ++ expr depth c ++ " " ++ block depth body
  | .foreachLoop _ value index iterable body =>
    indent depth ++ "foreach " ++ value ++ Text.when (!index.isEmpty) (", " ++ index) ++ " in " ++
      expr depth iterable ++ " " ++ block depth body
  | .importing _ name wildcard path =>
    indent depth ++ "import " ++ target wildcard name ++
      Text.when (!path.isEmpty) (" from " ++ quote path) ++ ";"
  | .struct _ name [] [] => indent depth ++ "struct " ++ name ++ " \x7b\x7d"
  | .struct _ name fields ms =>
    indent depth ++ "struct " ++ name ++ " \x7b\n" ++
      fieldLines (depth + 1) fields ++
      methods (depth + 1) (!fields.isEmpty) ms ++ indent depth ++ "\x7d"
  | .enum _ name members =>
    indent depth ++ "enum " ++ name ++ " \x7b " ++ Text.join ", " members ++ " \x7d"
  | .choose _ m => indent depth ++ choice depth m
  | .breakLoop _ => indent depth ++ "break;"
  | .continueLoop _ => indent depth ++ "continue;"
  | .returning _ none => indent depth ++ "return;"
  | .returning _ (some e) => indent depth ++ "return " ++ expr depth e ++ ";"

end

/-- The lines of a program. An empty line stands before and after a definition; `previous` says
whether the statement before was one, if there was a statement before. -/
def program (previous : Option Bool) : List Stmt → Text
  | [] => []
  | s :: ss =>
    let gap : Text := match previous with
      | some wasDefinition => if wasDefinition || s.isDefinition then "\n" else []
      | none => []
    gap ++ stmt 0 s ++ "\n" ++ program (some s.isDefinition) ss

end Print

/-- The text of a program. -/
def Program.print (p : Block) : Text := Print.program none p.body

/-- The text of an expression. -/
def Expr.print (e : Expr) : Text := Print.expr 0 e

end ScriptLang
