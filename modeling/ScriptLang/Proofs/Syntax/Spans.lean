import ScriptLang.Syntax.Basic

/-!
# The spans of the nodes of a tree

What is reported about a run is placed at nodes of programs. `Spans` lists the spans of all nodes of a
tree, from the outside to the inside. `Spans.Within` asks something of every one of them; it is taken
apart along the tree by one lemma for each kind of node that has parts.
-/

namespace ScriptLang

namespace Spans

mutual

/-- The spans of the nodes of an expression. -/
def expr : Expr → List Span
  | .array s elems => s :: exprs elems
  | .object s list => s :: entries list
  | .unary s _ operand => s :: expr operand
  | .binary s _ left right => s :: (expr left ++ expr right)
  | .assign s _ target value => s :: (expr target ++ expr value)
  | .step s _ target => s :: expr target
  | .range s first last => s :: (expr first ++ expr last)
  | .member s object _ => s :: expr object
  | .index s object index => s :: (expr object ++ expr index)
  | .call s callee args => s :: (expr callee ++ exprs args)
  | .construct s c callee args => s :: c :: (expr callee ++ exprs args)
  | .function f => function f
  | .choose m => choice m
  | .number s _ | .string s _ | .bool s _ | .nil s | .ident s _ => [s]

/-- The spans of the nodes of expressions. -/
def exprs : List Expr → List Span
  | [] => []
  | e :: es => expr e ++ exprs es

/-- The spans of the nodes of the values of an object. -/
def entries : List (Text × Expr) → List Span
  | [] => []
  | (_, e) :: es => expr e ++ entries es

/-- The spans of the nodes of a choice. -/
def choice : MatchExpr → List Span
  | ⟨s, subject, list⟩ => s :: (expr subject ++ arms list)

/-- The spans of the nodes of arms. -/
def arms : List MatchArm → List Span
  | [] => []
  | a :: as => arm a ++ arms as

/-- The spans of the nodes of an arm. -/
def arm : MatchArm → List Span
  | ⟨s, none, body⟩ => s :: armBody body
  | ⟨s, some e, body⟩ => s :: (expr e ++ armBody body)

/-- The spans of the nodes of what an arm does. -/
def armBody : ArmBody → List Span
  | .block b => block b
  | .value s e => s :: expr e

/-- The spans of the nodes of a function. -/
def function : FunctionDecl → List Span
  | ⟨s, _, _, _, body⟩ => s :: block body

/-- The spans of the nodes of functions. -/
def functions : List FunctionDecl → List Span
  | [] => []
  | f :: fs => function f ++ functions fs

/-- The spans of the nodes of a block. -/
def block : Block → List Span
  | ⟨s, body⟩ => s :: stmts body

/-- The spans of the nodes of statements. -/
def stmts : List Stmt → List Span
  | [] => []
  | s :: ss => stmt s ++ stmts ss

/-- The spans of the nodes of a conditional. -/
def cond : IfStmt → List Span
  | ⟨s, c, yes, none⟩ => s :: (expr c ++ block yes)
  | ⟨s, c, yes, some no⟩ => s :: (expr c ++ (block yes ++ elseBranch no))

/-- The spans of the nodes of what a conditional does when its condition is false. -/
def elseBranch : ElseBranch → List Span
  | .block b => block b
  | .chain next => cond next

/-- The spans of the nodes of a statement. -/
def stmt : Stmt → List Span
  | .expr s e => s :: expr e
  | .block b => block b
  | .declare s _ _ _ none => [s]
  | .declare s _ _ _ (some e) => s :: expr e
  | .function f => function f
  | .cond c => cond c
  | .whileLoop s c body => s :: (expr c ++ block body)
  | .foreachLoop s _ _ iterable body => s :: (expr iterable ++ block body)
  | .struct s _ _ methods => s :: functions methods
  | .choose s m => s :: choice m
  | .returning s none => [s]
  | .returning s (some e) => s :: expr e
  | .importing s _ _ _ | .enum s _ _ | .breakLoop s | .continueLoop s => [s]

end

/-! ### What holds of all spans -/

/-- Whether all spans of a list have a property. -/
def Within (p : Span → Prop) (spans : List Span) : Prop := ∀ span ∈ spans, p span

variable {p : Span → Prop}

@[simp]
theorem within_nil : Within p [] := fun _ h => absurd h List.not_mem_nil

@[simp]
theorem within_cons {span : Span} {spans : List Span} :
    Within p (span :: spans) ↔ p span ∧ Within p spans :=
  List.forall_mem_cons

@[simp]
theorem within_append {spans more : List Span} :
    Within p (spans ++ more) ↔ Within p spans ∧ Within p more :=
  List.forall_mem_append

theorem within_true (spans : List Span) : Within (fun _ => True) spans := fun _ _ => trivial

@[simp]
theorem within_exprs {es : List Expr} : Within p (exprs es) ↔ ∀ e ∈ es, Within p (expr e) := by
  induction es with
  | nil => simp [exprs]
  | cons e es ih => simp [exprs, ih]

@[simp]
theorem within_entries {es : List (Text × Expr)} :
    Within p (entries es) ↔ ∀ e ∈ es, Within p (expr e.2) := by
  induction es with
  | nil => simp [entries]
  | cons e es ih => simp [entries, ih]

@[simp]
theorem within_arms {as : List MatchArm} : Within p (arms as) ↔ ∀ a ∈ as, Within p (arm a) := by
  induction as with
  | nil => simp [arms]
  | cons a as ih => simp [arms, ih]

@[simp]
theorem within_functions {fs : List FunctionDecl} :
    Within p (functions fs) ↔ ∀ f ∈ fs, Within p (function f) := by
  induction fs with
  | nil => simp [functions]
  | cons f fs ih => simp [functions, ih]

@[simp]
theorem within_stmts {ss : List Stmt} : Within p (stmts ss) ↔ ∀ s ∈ ss, Within p (stmt s) := by
  induction ss with
  | nil => simp [stmts]
  | cons s ss ih => simp [stmts, ih]

/-! ### The parts of a node -/

theorem within_choice {m : MatchExpr} :
    Within p (choice m) ↔ p m.span ∧ Within p (expr m.subject) ∧ ∀ a ∈ m.arms, Within p (arm a) := by
  obtain ⟨s, subject, list⟩ := m
  simp [choice]

theorem within_arm {a : MatchArm} :
    Within p (arm a) ↔
      p a.span ∧ (∀ e, a.pattern = some e → Within p (expr e)) ∧ Within p (armBody a.body) := by
  obtain ⟨s, _ | e, body⟩ := a <;> simp [arm]

theorem within_function {f : FunctionDecl} :
    Within p (function f) ↔ p f.span ∧ Within p (block f.body) := by
  obtain ⟨s, name, params, result, body⟩ := f
  simp [function]

theorem within_block {b : Block} :
    Within p (block b) ↔ p b.span ∧ ∀ s ∈ b.body, Within p (stmt s) := by
  obtain ⟨s, body⟩ := b
  simp [block]

theorem within_cond {c : IfStmt} :
    Within p (cond c) ↔ p c.span ∧ Within p (expr c.cond) ∧ Within p (block c.yes) ∧
      ∀ no, c.no = some no → Within p (elseBranch no) := by
  obtain ⟨s, c, yes, _ | no⟩ := c <;> simp [cond]

/-- The span of an expression is among those of its nodes. -/
theorem of_expr {e : Expr} (h : Within p (expr e)) : p e.span := by
  cases e with
  | function f => exact (within_function.1 h).1
  | choose m => exact (within_choice.1 h).1
  | _ => exact h _ List.mem_cons_self

/-- The span of a statement is among those of its nodes. -/
theorem of_stmt {s : Stmt} (h : Within p (stmt s)) : p s.span := by
  cases s with
  | block b => exact (within_block.1 h).1
  | function f => exact (within_function.1 h).1
  | cond c => exact (within_cond.1 h).1
  | declare _ _ _ _ value => cases value <;> exact h _ List.mem_cons_self
  | returning _ value => cases value <;> exact h _ List.mem_cons_self
  | _ => exact h _ List.mem_cons_self

end Spans

end ScriptLang
