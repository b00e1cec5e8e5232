import ScriptLang.Syntax.Print

/-!
# Trees without places

Two trees are the same program when they differ only in the spans of their nodes. `Bare` sets every
span of a tree to the empty one, so that being the same program is equality of bare trees. The text
of a program does not depend on its spans (`print_bare`).
-/

namespace ScriptLang

/-- An annotation without spans. -/
def TypeExpr.bare : TypeExpr → TypeExpr
  | named _ name => .named {} name
  | list _ elem => .list {} elem.bare

/-- A parameter without spans. -/
def Param.bare (p : Param) : Param := ⟨p.name, p.type.map TypeExpr.bare⟩

namespace Bare

mutual

/-- An expression without spans. -/
def expr : Expr → Expr
  | .number _ v => .number {} v
  | .string _ v => .string {} v
  | .bool _ v => .bool {} v
  | .nil _ => .nil {}
  | .ident _ name => .ident {} name
  | .array _ elems => .array {} (exprs elems)
  | .object _ list => .object {} (entries list)
  | .unary _ op operand => .unary {} op (expr operand)
  | .binary _ op left right => .binary {} op (expr left) (expr right)
  | .assign _ op target value => .assign {} op (expr target) (expr value)
  | .step _ op target => .step {} op (expr target)
  | .range _ first last => .range {} (expr first) (expr last)
  | .member _ object property => .member {} (expr object) property
  | .index _ object index => .index {} (expr object) (expr index)
  | .call _ callee args => .call {} (expr callee) (exprs args)
  | .construct _ _ callee args => .construct {} {} (expr callee) (exprs args)
  | .function f => .function (function f)
  | .choose m => .choose (choice m)

/-- Expressions without spans. -/
def exprs : List Expr → List Expr
  | [] => []
  | e :: es => expr e :: exprs es

/-- Keys and values without spans. -/
def entries : List (Text × Expr) → List (Text × Expr)
  | [] => []
  | (k, e) :: es => (k, expr e) :: entries es

/-- A choice without spans. -/
def choice : MatchExpr → MatchExpr
  | ⟨_, subject, list⟩ => ⟨{}, expr subject, arms list⟩

/-- Arms without spans. -/
def arms : List MatchArm → List MatchArm
  | [] => []
  | a :: as => arm a :: arms as

/-- An arm without spans. -/
def arm : MatchArm → MatchArm
  | ⟨_, none, body⟩ => ⟨{}, none, armBody body⟩
  | ⟨_, some e, body⟩ => ⟨{}, some (expr e), armBody body⟩

/-- What an arm does, without spans. -/
def armBody : ArmBody → ArmBody
  | .block b => .block (block b)
  | .value _ e => .value {} (expr e)

/-- A function without spans. -/
def function : FunctionDecl → FunctionDecl
  | ⟨_, name, params, result, body⟩ =>
    ⟨{}, name, params.map Param.bare, result.map TypeExpr.bare, block body⟩

/-- Functions without spans. -/
def functions : List FunctionDecl → List FunctionDecl
  | [] => []
  | f :: fs => function f :: functions fs

/-- A block without spans. -/
def block : Block → Block
  | ⟨_, body⟩ => ⟨{}, stmts body⟩

/-- Statements without spans. -/
def stmts : List Stmt → List Stmt
  | [] => []
  | s :: ss => stmt s :: stmts ss

/-- A conditional without spans. -/
def cond : IfStmt → IfStmt
  | ⟨_, c, yes, none⟩ => ⟨{}, expr c, block yes, none⟩
  | ⟨_, c, yes, some no⟩ => ⟨{}, expr c, block yes, some (elseBranch no)⟩

/-- What a conditional does when its condition is false, without spans. -/
def elseBranch : ElseBranch → ElseBranch
  | .block b => .block (block b)
  | .chain next => .chain (cond next)

/-- A statement without spans. -/
def stmt : Stmt → Stmt
  | .expr _ e => .expr {} (expr e)
  | .block b => .block (block b)
  | .declare _ name constant type none => .declare {} name constant (type.map TypeExpr.bare) none
  | .declare _ name constant type (some e) =>
    .declare {} name constant (type.map TypeExpr.bare) (some (expr e))
  | .function f => .function (function f)
  | .cond c => .cond (cond c)
  | .whileLoop _ c body => .whileLoop {} (expr c) (block body)
  | .foreachLoop _ value index iterable body =>
    .foreachLoop {} value index (expr iterable) (block body)
  | .importing _ name wildcard path => .importing {} name wildcard path
  | .struct _ name fields methods => .struct {} name (fields.map Param.bare) (functions methods)
  | .enum _ name members => .enum {} name members
  | .choose _ m => .choose {} (choice m)
  | .breakLoop _ => .breakLoop {}
  | .continueLoop _ => .continueLoop {}
  | .returning _ none => .returning {} none
  | .returning _ (some e) => .returning {} (some (expr e))

end

end Bare

/-- A program without spans. -/
def Program.bare (p : Block) : Block := Bare.block p

/-! ### The text of a bare tree -/

namespace Bare

@[simp] theorem text (t : TypeExpr) : t.bare.text = t.text := by
  induction t with
  | named => rfl
  | list s elem ih => simp [TypeExpr.bare, TypeExpr.text, ih]

@[simp] theorem ascription (t : Option TypeExpr) :
    Print.annotation (t.map TypeExpr.bare) = Print.annotation t := by
  cases t <;> simp [ Print.annotation]

@[simp] theorem param (p : Param) : Print.param p.bare = Print.param p := by
  simp [Print.param, Param.bare]

@[simp] theorem signature (params : List Param) (result : Option TypeExpr) :
    Print.signature (params.map Param.bare) (result.map TypeExpr.bare) =
      Print.signature params result := by
  have h : Print.param ∘ Param.bare = Print.param := funext param
  simp [Print.signature, h]

@[simp] theorem fieldLines (depth : Nat) (fields : List Param) :
    Print.fieldLines depth (fields.map Param.bare) = Print.fieldLines depth fields := by
  simp [Print.fieldLines, List.flatMap_map]

@[simp] theorem precedence (e : Expr) : Print.precedence (expr e) = Print.precedence e := by
  cases e <;> rfl

@[simp] theorem needsParens (e : Expr) (parent : Nat) (rightward isRight : Bool) :
    Print.needsParens (expr e) parent rightward isRight =
      Print.needsParens e parent rightward isRight := by
  simp [Print.needsParens]

@[simp] theorem operandNeedsParens (e : Expr) (op : BinaryOp) (isRight : Bool) :
    Print.operandNeedsParens (expr e) op isRight = Print.operandNeedsParens e op isRight := by
  simp [Print.operandNeedsParens]

@[simp] theorem isPlainCallee (e : Expr) : Print.isPlainCallee (expr e) = Print.isPlainCallee e := by
  cases e <;> rfl

@[simp] theorem isObject (e : Expr) : Print.isObject (expr e) = Print.isObject e := by
  cases e <;> rfl

@[simp] theorem startsOtherwise : ∀ e, Print.startsOtherwise (expr e) = Print.startsOtherwise e
  | .binary _ _ left _ => by simp [expr, Print.startsOtherwise, startsOtherwise left]
  | .assign _ _ target _ => by simp [expr, Print.startsOtherwise, startsOtherwise target]
  | .range _ first _ => by simp [expr, Print.startsOtherwise, startsOtherwise first]
  | .step _ _ target => by simp [expr, Print.startsOtherwise, startsOtherwise target]
  | .call _ callee _ => by simp [expr, Print.startsOtherwise, startsOtherwise callee]
  | .member _ object _ => by simp [expr, Print.startsOtherwise, startsOtherwise object]
  | .index _ object _ => by simp [expr, Print.startsOtherwise, startsOtherwise object]
  | .number .. | .string .. | .bool .. | .nil .. | .ident .. | .array .. | .object .. | .unary ..
  | .construct .. | .function .. | .choose .. => rfl

@[simp] theorem isDefinition (s : Stmt) : (stmt s).isDefinition = s.isDefinition := by
  cases s with
  | declare s name constant type value => cases value <;> rfl
  | returning s value => cases value <;> rfl
  | _ => rfl

mutual

theorem print_expr (depth : Nat) : ∀ e, Print.expr depth (expr e) = Print.expr depth e
  | .number .. | .string .. | .bool .. | .nil .. | .ident .. => rfl
  | .array _ elems => by simp [expr, Print.expr, print_exprs depth elems]
  | .object _ [] => rfl
  | .object _ ((k, e) :: es) => by
    have h := print_entries depth ((k, e) :: es)
    simp only [entries] at h
    simp only [expr, entries, Print.expr, h]
  | .unary _ op operand => by simp [expr, Print.expr, print_expr depth operand]
  | .binary _ op left right => by
    simp [expr, Print.expr, print_expr depth left, print_expr depth right]
  | .assign _ op target value => by
    simp [expr, Print.expr, print_expr depth target, print_expr depth value]
  | .step _ op target => by simp [expr, Print.expr, print_expr depth target]
  | .range _ first last => by
    simp [expr, Print.expr, print_expr depth first, print_expr depth last]
  | .member _ object property => by simp [expr, Print.expr, print_expr depth object]
  | .index _ object index => by
    simp [expr, Print.expr, print_expr depth object, print_expr depth index]
  | .call _ callee args => by
    simp [expr, Print.expr, print_expr depth callee, print_exprs depth args]
  | .construct _ _ callee args => by
    simp [expr, Print.expr, print_expr depth callee, print_exprs depth args]
  | .function ⟨_, name, params, result, body⟩ => by
    simp [expr, function, Print.expr, print_block depth body]
  | .choose m => by simp [expr, Print.expr, print_choice depth m]

theorem print_exprs (depth : Nat) : ∀ es, Print.exprs depth (exprs es) = Print.exprs depth es
  | [] => rfl
  | [e] => by simp [exprs, Print.exprs, print_expr depth e]
  | e :: e' :: es => by
    have h := print_exprs depth (e' :: es)
    simp only [exprs] at h
    simp [exprs, Print.exprs, print_expr depth e, h]

theorem print_entries (depth : Nat) :
    ∀ es, Print.entries depth (entries es) = Print.entries depth es
  | [] => rfl
  | [(k, e)] => by simp [entries, Print.entries, print_expr depth e]
  | (k, e) :: (k', e') :: es => by
    have h := print_entries depth ((k', e') :: es)
    simp only [entries] at h
    simp [entries, Print.entries, print_expr depth e, h]

theorem print_choice (depth : Nat) : ∀ m, Print.choice depth (choice m) = Print.choice depth m
  | ⟨_, subject, list⟩ => by
    simp [choice, Print.choice, print_expr depth subject, print_arms depth list]

theorem print_arms (depth : Nat) : ∀ as, Print.arms depth (arms as) = Print.arms depth as
  | [] => rfl
  | a :: as => by simp [arms, Print.arms, print_arm (depth + 1) a, print_arms depth as]

theorem print_arm (depth : Nat) : ∀ a, Print.arm depth (arm a) = Print.arm depth a
  | ⟨_, none, body⟩ => by simp [arm, Print.arm, print_armBody depth body]
  | ⟨_, some e, body⟩ => by simp [arm, Print.arm, print_expr depth e, print_armBody depth body]

theorem print_armBody (depth : Nat) : ∀ b, Print.armBody depth (armBody b) = Print.armBody depth b
  | .block b => by simp [armBody, Print.armBody, print_block depth b]
  | .value _ e => by simp [armBody, Print.armBody, print_expr depth e]

theorem print_block (depth : Nat) : ∀ b, Print.block depth (block b) = Print.block depth b
  | ⟨_, []⟩ => rfl
  | ⟨_, s :: ss⟩ => by
    have h := print_stmts (depth + 1) (s :: ss)
    simp only [stmts] at h
    simp [block, stmts, Print.block, h]

theorem print_stmts (depth : Nat) : ∀ ss, Print.stmts depth (stmts ss) = Print.stmts depth ss
  | [] => rfl
  | s :: ss => by simp [stmts, Print.stmts, print_stmt depth s, print_stmts depth ss]

theorem print_cond (depth : Nat) : ∀ c, Print.cond depth (cond c) = Print.cond depth c
  | ⟨_, c, yes, none⟩ => by simp [cond, Print.cond, print_expr depth c, print_block depth yes]
  | ⟨_, c, yes, some no⟩ => by
    simp [cond, Print.cond, print_expr depth c, print_block depth yes, print_elseBranch depth no]

theorem print_elseBranch (depth : Nat) :
    ∀ b, Print.elseBranch depth (elseBranch b) = Print.elseBranch depth b
  | .block b => by simp [elseBranch, Print.elseBranch, print_block depth b]
  | .chain next => by simp [elseBranch, Print.elseBranch, print_cond depth next]

theorem print_function (depth : Nat) : ∀ f, Print.function depth (function f) = Print.function depth f
  | ⟨_, name, params, result, body⟩ => by simp [function, Print.function, print_block depth body]

theorem print_methods (depth : Nat) :
    ∀ spaced ms, Print.methods depth spaced (functions ms) = Print.methods depth spaced ms
  | _, [] => rfl
  | spaced, m :: ms => by
    simp [functions, Print.methods, print_function depth m, print_methods depth true ms]

theorem print_stmt (depth : Nat) : ∀ s, Print.stmt depth (stmt s) = Print.stmt depth s
  | .expr _ e => by simp [stmt, Print.stmt, print_expr depth e]
  | .block b => by simp [stmt, Print.stmt, print_block depth b]
  | .declare _ name constant type none => by simp [stmt, Print.stmt]
  | .declare _ name constant type (some e) => by simp [stmt, Print.stmt, print_expr depth e]
  | .function f => by simp [stmt, Print.stmt, print_function depth f]
  | .cond c => by simp [stmt, Print.stmt, print_cond depth c]
  | .whileLoop _ c body => by simp [stmt, Print.stmt, print_expr depth c, print_block depth body]
  | .foreachLoop _ value index iterable body => by
    simp [stmt, Print.stmt, print_expr depth iterable, print_block depth body]
  | .importing .. | .enum .. | .breakLoop _ | .continueLoop _ | .returning _ none => rfl
  | .struct _ name [] [] => rfl
  | .struct _ name (f :: fs) ms => by
    have hf := fieldLines (depth + 1) (f :: fs)
    have hm := print_methods (depth + 1) false ms
    simp only [List.map_cons] at hf
    simp [stmt, Print.stmt, hf, print_methods (depth + 1)]
  | .struct _ name [] (m :: ms) => by
    have hm := print_methods (depth + 1) false (m :: ms)
    simp only [functions] at hm
    simp [stmt, functions, Print.stmt, hm]
  | .choose _ m => by simp [stmt, Print.stmt, print_choice depth m]
  | .returning _ (some e) => by simp [stmt, Print.stmt, print_expr depth e]

end

theorem print_program (previous : Option Bool) (ss : List Stmt) :
    Print.program previous (stmts ss) = Print.program previous ss := by
  induction ss generalizing previous with
  | nil => rfl
  | cons s ss ih => simp [stmts, Print.program, print_stmt 0 s, ih]

/-- The text of a program does not depend on its spans. -/
theorem print_bare (p : Block) : Program.print (Program.bare p) = Program.print p := by
  obtain ⟨s, body⟩ := p
  exact print_program none body

end Bare

end ScriptLang
