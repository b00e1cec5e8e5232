import ScriptLang.Syntax.Print
import ScriptLang.Token.Basic

/-!
# Conditions on the nodes of a tree

A `NodeRule` is a condition on single nodes; `Every` asks it of all nodes of a tree. Two rules are
used for the texts of programs.

* `NodeRule.spellable` is what reading a text ensures: names are words that are not reserved, numbers
  are finite and not negative, and operators are those of the language.
* `NodeRule.legible` is what the text of a tree needs beyond that to be read as the same tree. It
  excludes malformed characters, an import of everything from the empty path, and the three places
  at which parentheses that matter are left out.
-/

namespace ScriptLang

/-- A condition on the nodes of a tree, each taken without its parts. -/
structure NodeRule where
  /-- The condition on expressions. -/
  expr : Expr → Bool := fun _ => true
  /-- The condition on arms. -/
  arm : MatchArm → Bool := fun _ => true
  /-- The condition on functions. -/
  function : FunctionDecl → Bool := fun _ => true
  /-- The condition on statements. -/
  stmt : Stmt → Bool := fun _ => true

namespace Every

mutual

/-- Whether a rule holds in an expression. -/
def expr (r : NodeRule) : Expr → Bool
  | .array s elems => r.expr (.array s elems) && exprs r elems
  | .object s list => r.expr (.object s list) && entries r list
  | .unary s op operand => r.expr (.unary s op operand) && expr r operand
  | .binary s op left right => r.expr (.binary s op left right) && expr r left && expr r right
  | .assign s op target value => r.expr (.assign s op target value) && expr r target && expr r value
  | .step s op target => r.expr (.step s op target) && expr r target
  | .range s first last => r.expr (.range s first last) && expr r first && expr r last
  | .member s object property => r.expr (.member s object property) && expr r object
  | .index s object index => r.expr (.index s object index) && expr r object && expr r index
  | .call s callee args => r.expr (.call s callee args) && expr r callee && exprs r args
  | .construct s c callee args => r.expr (.construct s c callee args) && expr r callee && exprs r args
  | .function f => r.expr (.function f) && function r f
  | .choose m => r.expr (.choose m) && choice r m
  | e => r.expr e

/-- Whether a rule holds in expressions. -/
def exprs (r : NodeRule) : List Expr → Bool
  | [] => true
  | e :: es => expr r e && exprs r es

/-- Whether a rule holds in the values of an object. -/
def entries (r : NodeRule) : List (Text × Expr) → Bool
  | [] => true
  | (_, e) :: es => expr r e && entries r es

/-- Whether a rule holds in a choice. -/
def choice (r : NodeRule) : MatchExpr → Bool
  | ⟨_, subject, list⟩ => expr r subject && arms r list

/-- Whether a rule holds in arms. -/
def arms (r : NodeRule) : List MatchArm → Bool
  | [] => true
  | a :: as => arm r a && arms r as

/-- Whether a rule holds in an arm. -/
def arm (r : NodeRule) : MatchArm → Bool
  | ⟨s, none, body⟩ => r.arm ⟨s, none, body⟩ && armBody r body
  | ⟨s, some e, body⟩ => r.arm ⟨s, some e, body⟩ && expr r e && armBody r body

/-- Whether a rule holds in what an arm does. -/
def armBody (r : NodeRule) : ArmBody → Bool
  | .block b => block r b
  | .value _ e => expr r e

/-- Whether a rule holds in a function. -/
def function (r : NodeRule) : FunctionDecl → Bool
  | ⟨s, name, params, result, body⟩ => r.function ⟨s, name, params, result, body⟩ && block r body

/-- Whether a rule holds in functions. -/
def functions (r : NodeRule) : List FunctionDecl → Bool
  | [] => true
  | f :: fs => function r f && functions r fs

/-- Whether a rule holds in a block. -/
def block (r : NodeRule) : Block → Bool
  | ⟨_, body⟩ => stmts r body

/-- Whether a rule holds in statements. -/
def stmts (r : NodeRule) : List Stmt → Bool
  | [] => true
  | s :: ss => stmt r s && stmts r ss

/-- Whether a rule holds in a conditional. -/
def cond (r : NodeRule) : IfStmt → Bool
  | ⟨_, c, yes, none⟩ => expr r c && block r yes
  | ⟨_, c, yes, some no⟩ => expr r c && block r yes && elseBranch r no

/-- Whether a rule holds in what a conditional does when its condition is false. -/
def elseBranch (r : NodeRule) : ElseBranch → Bool
  | .block b => block r b
  | .chain next => cond r next

/-- Whether a rule holds in a statement. -/
def stmt (r : NodeRule) : Stmt → Bool
  | .expr s e => r.stmt (.expr s e) && expr r e
  | .block b => r.stmt (.block b) && block r b
  | .declare s name constant type (some e) =>
    r.stmt (.declare s name constant type (some e)) && expr r e
  | .function f => r.stmt (.function f) && function r f
  | .cond c => r.stmt (.cond c) && cond r c
  | .whileLoop s c body => r.stmt (.whileLoop s c body) && expr r c && block r body
  | .foreachLoop s value index iterable body =>
    r.stmt (.foreachLoop s value index iterable body) && expr r iterable && block r body
  | .struct s name fields methods => r.stmt (.struct s name fields methods) && functions r methods
  | .choose s m => r.stmt (.choose s m) && choice r m
  | .returning s (some e) => r.stmt (.returning s (some e)) && expr r e
  | s => r.stmt s

end

theorem exprs_eq_all (r : NodeRule) (es : List Expr) : exprs r es = es.all (expr r) := by
  induction es with
  | nil => rfl
  | cons e es ih => rw [exprs, ih]; rfl

theorem entries_eq_all (r : NodeRule) (es : List (Text × Expr)) :
    entries r es = es.all fun p => expr r p.2 := by
  induction es with
  | nil => rfl
  | cons e es ih => rw [entries, ih]; rfl

end Every

/-! ### What reading ensures -/

/-- Whether a text is a word that is not reserved. -/
def Text.isName (t : Text) : Bool := Print.isWord t && Kind.ofWord t == .ident

/-- Whether the name in an annotation is a name of the language. -/
def TypeExpr.isSpellable : TypeExpr → Bool
  | named _ name => name.isName
  | list _ elem => elem.isSpellable

/-- Whether a parameter has a name and its annotation is spellable. -/
def Param.isSpellable (p : Param) : Bool := p.name.isName && p.type.all TypeExpr.isSpellable

/-- Whether a number is finite and not negative. -/
def Number.isLiteral (v : Float) : Bool :=
  match Binary.ofFloat v with
  | .finite negative _ _ => !negative
  | _ => false

namespace NodeRule

/-- What reading a text ensures of every node. -/
def spellable : NodeRule where
  expr
    | .number _ v => Number.isLiteral v
    | .ident _ name => name.isName
    | .unary _ op _ => UnaryOp.known.contains op
    | .binary _ op _ _ => BinaryOp.known.contains op
    | .assign _ op _ _ => AssignOp.known.contains op
    | .step _ op _ => op = .up || op = .down
    | .member _ _ property => Print.isWord property
    | .function f => f.name.isEmpty
    | _ => true
  function f := f.params.all Param.isSpellable && f.result.all TypeExpr.isSpellable
  stmt
    | .declare _ name _ type _ => name.isName && type.all TypeExpr.isSpellable
    | .function f => f.name.isName
    | .foreachLoop _ value index _ _ => value.isName && (index.isEmpty || index.isName)
    | .importing _ name wildcard _ => if wildcard then name.isEmpty else name.isName
    | .struct _ name fields methods =>
      name.isName && fields.all Param.isSpellable && methods.all fun m => m.name.isName
    | .enum _ name members => name.isName && members.all Text.isName
    | _ => true

end NodeRule

/-! ### What the text of a tree loses -/

/-- Whether a text has no malformed characters. -/
def Text.isWellFormed (t : Text) : Bool := Text.mend t == t

namespace Print

/-- Whether the text of an expression starts with a brace. -/
def opensBrace : Expr → Bool
  | .object .. => true
  | .binary _ op left _ => !operandNeedsParens left op false && opensBrace left
  | .assign _ _ target _ => !decide (precedence target ≤ 10) && opensBrace target
  | .range _ first _ => !needsParens first BinaryOp.rangePrecedence false false && opensBrace first
  | .step _ _ target => !decide (precedence target < 70) && opensBrace target
  | .call _ callee _ => !decide (precedence callee < 70) && opensBrace callee
  | .member _ object _ => !decide (precedence object < 70) && opensBrace object
  | .index _ object _ => !decide (precedence object < 70) && opensBrace object
  | _ => false

/-- Whether the properties of an expression hang on an operand that is read as one after `new`, and
not on a call, an element or a step. -/
def isOperandChain : Expr → Bool
  | .member _ object _ => isOperandChain object
  | .call .. | .index .. | .step .. => false
  | _ => true

/-- Whether an expression is the name `_`. -/
def isWildcard : Expr → Bool
  | .ident _ name => name == "_"
  | _ => false

end Print

namespace NodeRule

/-- What the text of a tree needs to be read as the same tree. -/
def legible : NodeRule where
  expr
    | .string _ v => v.isWellFormed
    | .object _ list => list.all fun (k, _) => Print.isWord k || k.isWellFormed
    -- properties of a call after `new` lose the parentheses around the call
    | .construct _ _ callee _ => !Print.isPlainCallee callee || Print.isOperandChain callee
    | _ => true
  arm a :=
    -- the name `_` in parentheses loses them and takes every value
    !a.pattern.any Print.isWildcard &&
    -- an object that starts a longer expression loses its parentheses and becomes a block
      match a.body with
      | .value _ e => Print.isObject e || !Print.opensBrace e
      | .block _ => true
  stmt
    | .importing _ _ wildcard path => path.isWellFormed && !(wildcard && path.isEmpty)
    | _ => true

end NodeRule

/-- Whether the text of a program is read as the same program. -/
def Program.legible (p : Block) : Bool := Every.block .legible p

/-- Whether a program is of the kind that reading a text gives. -/
def Program.spellable (p : Block) : Bool := Every.block .spellable p

end ScriptLang
