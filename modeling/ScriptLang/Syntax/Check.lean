import ScriptLang.Diagnostic
import ScriptLang.Syntax.Basic

/-!
# Checks before a run

Some mistakes can be seen in the tree of a program: a name that is declared twice in one scope, a
member or key that is given twice, and loop control outside of a loop. A function starts without
any loop around it, and every block, branch, loop body, function body and arm block has a scope of
its own; the parameters of a function share the scope of its body, and the variables of a loop that
of the loop's body.

The main definition is `Program.findings`.
-/

namespace ScriptLang

/-- A mistake that the tree of a program shows. -/
inductive Mistake where
  /-- A name is declared twice in one scope. -/
  | nameTwice (name : Text)
  /-- An enumeration gives a member twice. -/
  | enumMemberTwice (enum member : Text)
  /-- A struct gives a member twice. -/
  | structMemberTwice (struct member : Text)
  /-- An object literal gives a key twice. -/
  | keyTwice (key : Text)
  /-- A loop is left where there is none. -/
  | breakOutside
  /-- A loop is continued where there is none. -/
  | continueOutside
deriving DecidableEq, Repr

namespace Mistake

/-- The code of a mistake. -/
def code : Mistake → Code
  | .nameTwice _ => .duplicateIdentifier
  | .enumMemberTwice .. | .structMemberTwice .. | .keyTwice _ => .duplicateMember
  | .breakOutside | .continueOutside => .loopControl

/-- The message of a mistake. -/
def message : Mistake → Text
  | .nameTwice name => "'" ++ name ++ "' is already declared in this scope"
  | .enumMemberTwice e m => "enum '" ++ e ++ "' declares '" ++ m ++ "' twice"
  | .structMemberTwice s m => "struct '" ++ s ++ "' declares '" ++ m ++ "' twice"
  | .keyTwice k => "object literal sets '" ++ k ++ "' twice"
  | .breakOutside => "'break' outside of a loop"
  | .continueOutside => "'continue' outside of a loop"

end Mistake

/-- A mistake and the place it is about. -/
structure Finding where
  /-- The mistake. -/
  mistake : Mistake
  /-- The place. -/
  span : Span
deriving DecidableEq, Repr

/-- The diagnostic of a finding. -/
def Finding.diagnostic (f : Finding) : Diagnostic :=
  { code := f.mistake.code, message := f.mistake.message, location := some f.span.location }

namespace Check

/-- Whether a name is bound when it is declared. -/
def binds (name : Text) : Bool := !(name.isEmpty || name == "_")

/-- The finding of a declaration in a scope that already declares `names`. -/
def declared (names : List Text) (name : Text) (span : Span) : List Finding :=
  if binds name && names.contains name then [⟨.nameTwice name, span⟩] else []

/-- The names of a scope after a declaration. -/
def declare (names : List Text) (name : Text) : List Text :=
  if binds name then name :: names else names

/-- The names of a scope after several declarations. -/
def declareAll (names : List Text) (more : List Text) : List Text := more.foldl declare names

/-- The findings of several declarations, one after another. -/
def declaredAll (names : List Text) (span : Span) : List Text → List Finding
  | [] => []
  | n :: ns => declared names n span ++ declaredAll (declare names n) span ns

/-- The members that occur again after an earlier one. -/
def repeated (seen : List Text) : List Text → List Text
  | [] => []
  | m :: ms => if seen.contains m then m :: repeated seen ms else repeated (m :: seen) ms

/-- The name that a statement declares in its scope. -/
def declaredName : Stmt → Text
  | .declare _ name .. => name
  | .function f => f.name
  | .importing _ name wildcard _ => if wildcard then [] else name
  | .struct _ name .. => name
  | .enum _ name _ => name
  | _ => []

/-- The two results of looking at loop control. -/
def loopControl (inLoop : Bool) (mistake : Mistake) (span : Span) : List Finding :=
  if inLoop then [] else [⟨mistake, span⟩]

mutual

/-- The findings in an expression; `inLoop` says whether a loop of the same function is around it. -/
def expr (inLoop : Bool) : Expr → List Finding
  | .number .. | .string .. | .bool .. | .nil .. | .ident .. => []
  | .array _ elems => exprs inLoop elems
  | .object span entries' => entries inLoop span [] entries'
  | .unary _ _ e => expr inLoop e
  | .binary _ _ l r => expr inLoop l ++ expr inLoop r
  | .assign _ _ t v => expr inLoop t ++ expr inLoop v
  | .step _ _ t => expr inLoop t
  | .range _ a b => expr inLoop a ++ expr inLoop b
  | .member _ o _ => expr inLoop o
  | .index _ o i => expr inLoop o ++ expr inLoop i
  | .call _ c args => expr inLoop c ++ exprs inLoop args
  | .construct _ _ c args => expr inLoop c ++ exprs inLoop args
  | .function f => function f
  | .choose m => choice inLoop m

/-- The findings in expressions. -/
def exprs (inLoop : Bool) : List Expr → List Finding
  | [] => []
  | e :: es => expr inLoop e ++ exprs inLoop es

/-- The findings in the entries of an object literal after the keys `seen`. -/
def entries (inLoop : Bool) (span : Span) (seen : List Text) : List (Text × Expr) → List Finding
  | [] => []
  | (k, e) :: es =>
    (if seen.contains k then [⟨.keyTwice k, span⟩] else []) ++ expr inLoop e ++
      entries inLoop span (k :: seen) es

/-- The findings in a choice. -/
def choice (inLoop : Bool) : MatchExpr → List Finding
  | ⟨_, subject, list⟩ => expr inLoop subject ++ arms inLoop list

/-- The findings in arms. -/
def arms (inLoop : Bool) : List MatchArm → List Finding
  | [] => []
  | a :: as => arm inLoop a ++ arms inLoop as

/-- The findings in an arm. -/
def arm (inLoop : Bool) : MatchArm → List Finding
  | ⟨_, none, body⟩ => armBody inLoop body
  | ⟨_, some p, body⟩ => expr inLoop p ++ armBody inLoop body

/-- The findings in what an arm does. -/
def armBody (inLoop : Bool) : ArmBody → List Finding
  | .block b => block inLoop [] b
  | .value _ e => expr inLoop e

/-- The findings in a function: its parameters are declared in the scope of its body. -/
def function : FunctionDecl → List Finding
  | ⟨span, _, params, _, body⟩ =>
    declaredAll [] span (params.map Param.name) ++
      block false (declareAll [] (params.map Param.name)) body

/-- The findings in a block whose scope starts with `names`. -/
def block (inLoop : Bool) (names : List Text) : Block → List Finding
  | ⟨_, body⟩ => stmts inLoop names body

/-- The findings in statements of one scope. -/
def stmts (inLoop : Bool) (names : List Text) : List Stmt → List Finding
  | [] => []
  | s :: ss => stmt inLoop names s ++ stmts inLoop (declare names (declaredName s)) ss

/-- The findings in a conditional. -/
def cond (inLoop : Bool) : IfStmt → List Finding
  | ⟨_, c, yes, none⟩ => expr inLoop c ++ block inLoop [] yes
  | ⟨_, c, yes, some no⟩ => expr inLoop c ++ block inLoop [] yes ++ elseBranch inLoop no

/-- The findings in what a conditional does when its condition is false. -/
def elseBranch (inLoop : Bool) : ElseBranch → List Finding
  | .block b => block inLoop [] b
  | .chain next => cond inLoop next

/-- The findings in the methods of a struct that has the members `seen` before them. -/
def methods (struct : Text) (seen : List Text) : List FunctionDecl → List Finding
  | [] => []
  | m :: ms =>
    (if seen.contains m.name then [⟨.structMemberTwice struct m.name, m.span⟩] else []) ++
      function m ++ methods struct (m.name :: seen) ms

/-- The findings in a statement of a scope that already declares `names`. -/
def stmt (inLoop : Bool) (names : List Text) : Stmt → List Finding
  | .expr _ e => expr inLoop e
  | .block b => block inLoop [] b
  | .declare span name _ _ none => declared names name span
  | .declare span name _ _ (some e) => expr inLoop e ++ declared names name span
  | .function f => declared names f.name f.span ++ function f
  | .cond c => cond inLoop c
  | .whileLoop _ c body => expr inLoop c ++ block true [] body
  | .foreachLoop span value index iterable body =>
    expr inLoop iterable ++ declaredAll [] span [value, index] ++
      block true (declareAll [] [value, index]) body
  | .importing span name wildcard _ => if wildcard then [] else declared names name span
  | .struct span name fields ms =>
    declared names name span ++
      (repeated [] (fields.map Param.name)).map (fun m => ⟨.structMemberTwice name m, span⟩) ++
      methods name (fields.map Param.name) ms
  | .enum span name members =>
    declared names name span ++
      (repeated [] members).map fun m => ⟨.enumMemberTwice name m, span⟩
  | .choose _ m => choice inLoop m
  | .breakLoop span => loopControl inLoop .breakOutside span
  | .continueLoop span => loopControl inLoop .continueOutside span
  | .returning _ none => []
  | .returning _ (some e) => expr inLoop e

end

end Check

/-- The findings in a program, in the order in which they are met. -/
def Program.findings (p : Block) : List Finding := Check.stmts false [] p.body

/-- The diagnostics of a program's findings. -/
def Program.check (p : Block) : List Diagnostic := (Program.findings p).map Finding.diagnostic

end ScriptLang
