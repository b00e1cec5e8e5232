import ScriptLang.Proofs.Syntax.RoundTrip
import ScriptLang.Proofs.Syntax.Seam
import ScriptLang.Proofs.Syntax.Strings
import ScriptLang.Proofs.Syntax.Unfinished
import ScriptLang.Proofs.Token.Sequel

/-!
# A program and what follows it

Every rule of the grammar reads the same where a text goes on as where it ends, up to its grip on the end
(`Rules.agree_ofDepth`). So the statements of two programs, one behind the other, are those of the first
and those of the second (`Program.ofTokens_append`), and a program may follow another one on the next
line (`Program.parse_append`).
-/

namespace ScriptLang

open ScriptLang.Parser

variable {more : List Lexeme}

/-- A function without its name and without spans. -/
def Bare.callable (f : List Param × Option TypeExpr × Block) :
    List Param × Option TypeExpr × Block :=
  (f.1.map Param.bare, f.2.1.map TypeExpr.bare, Bare.block f.2.2)

theorem Bare.function_eq {sp sp' : Span} {name : Text} {f f' : List Param × Option TypeExpr × Block}
    (h : Bare.callable f = Bare.callable f') :
    Bare.function ⟨sp, name, f.1, f.2.1, f.2.2⟩ =
      Bare.function ⟨sp', name, f'.1, f'.2.1, f'.2.2⟩ := by
  simp only [Bare.callable, Prod.mk.injEq] at h
  simp only [Bare.function, h]

/-- How a phrase holds on where the text ends. -/
def Phrase.grip : Phrase → Grip
  | .expr _ | .operand => .loose
  | .stmt | .block | .cond => .firm

/-- The tree of a phrase without spans. -/
def Phrase.bare : (ph : Phrase) → ph.Tree → ph.Tree
  | .expr _ | .operand => Bare.expr
  | .stmt => Bare.stmt
  | .block => Bare.block
  | .cond => Bare.cond

/-- Readers of which the first ones read what the second ones do where a text goes on. A conditional
is read where its word stands. -/
def Rules.Agree (more : List Lexeme) (rules rules' : Rules) : Prop :=
  ∀ (ph : Phrase) (p : Seam more), (ph = .cond → ¬p.Ended) →
    AgreesAt p ph.grip ph.bare (rules ph) (rules' ph)

namespace Rules.Agree

variable {m n : Nat} {p : Seam more} {rules rules' : Rules} (h : Rules.Agree more rules rules')
include h

theorem expr (least : Nat) : Agrees more .loose Bare.expr (rules.expr least) (rules'.expr least) :=
  fun p => h (.expr least) p Phrase.noConfusion

theorem operand : Agrees more .loose Bare.expr rules.operand rules'.operand := fun p =>
  h .operand p Phrase.noConfusion

theorem stmt : Agrees more .firm Bare.stmt rules.stmt rules'.stmt := fun p =>
  h .stmt p Phrase.noConfusion

theorem block : Agrees more .firm Bare.block rules.block rules'.block := fun p =>
  h .block p Phrase.noConfusion

theorem cond (hp : ¬p.Ended) : AgreesAt p .firm Bare.cond rules.cond rules'.cond :=
  h .cond p fun _ => hp

theorem signature (hmn : m ≤ n) :
    Agrees more .firm Bare.callable (signature rules n) (signature rules' m) := fun p => by
  rw [Parser.signature, Parser.signature]
  refine .expect (by decide) fun _ _ _ p =>
    (agrees_commaList .rparen (by decide) (agrees_param hmn) hmn p).bind
    (fun ps ps' hps p => .expect (by decide) fun _ _ _ p => (agrees_annotated hmn p).bind
      (fun r r' hr p => (h.block p).last fun b b' hb p => .pure ?_))
  exact congrArg₂ Prod.mk hps (congrArg₂ Prod.mk hr hb)

theorem namedFunction (hmn : m ≤ n) (hp : ¬p.Ended) :
    AgreesAt p .firm Bare.function (namedFunction rules n) (namedFunction rules' m) := by
  rw [Parser.namedFunction, Parser.namedFunction]
  exact .advance hp fun _ p => .expectName fun name p => (h.signature hmn p).last
    fun f f' hf p => .spanFrom fun _ _ => .pure
      (Bare.function_eq hf)

/-! ### Operands -/

theorem exprs (close : Kind) (hclose : close ≠ .eof) (hmn : m ≤ n) (p : Seam more) :
    AgreesAt p .loose Bare.exprs (commaList close (rules.expr 0) n)
      (commaList close (rules'.expr 0) m) :=
  (agrees_commaList close hclose (h.expr 0) hmn p).mono fun es es' hes => by
    rw [Bare.exprs_eq_map, Bare.exprs_eq_map]
    exact hes

theorem group (hp : ¬p.Ended) : AgreesAt p .loose Bare.expr (group rules) (group rules') := by
  rw [Parser.group, Parser.group]
  exact .advance hp fun _ p => (h.expr 0 p).bind fun e e' he p => .expect (by decide) fun _ _ _ p =>
    .pure he

theorem arrayLiteral (hmn : m ≤ n) (hp : ¬p.Ended) :
    AgreesAt p .loose Bare.expr (arrayLiteral rules n) (arrayLiteral rules' m) := by
  rw [Parser.arrayLiteral, Parser.arrayLiteral]
  exact .advance hp fun _ p => (h.exprs .rbracket (by decide) hmn p).bind fun es es' hes p =>
    .expect (by decide) fun _ _ _ p => .spanFrom fun _ _ =>
      .pure (congrArg (Expr.array {}) hes)

theorem entry : Agrees more .loose (fun e => (e.1, Bare.expr e.2)) (entry rules) (entry rules') :=
  fun p => by
    rw [Parser.entry, Parser.entry]
    refine .peek (fun hp => ?_) fun sp hp => .ite (fun _ => .advance hp fun _ p =>
      .expect (by decide) fun _ _ _ p => ?_) fun _ => .fail
    · rw [show p.short.current.kind = .eof from hp]
      exact .fail
    · exact (h.expr 0 p).bind fun e e' he p => .pure (congrArg (Prod.mk _) he)

theorem objectLiteral (hmn : m ≤ n) (hp : ¬p.Ended) :
    AgreesAt p .loose Bare.expr (objectLiteral rules n) (objectLiteral rules' m) := by
  rw [Parser.objectLiteral, Parser.objectLiteral]
  refine .advance hp fun _ p =>
    (agrees_commaList .rbrace (by decide) h.entry hmn p).bind fun es es' hes p => .expect (by decide) fun _ _ _ p => .spanFrom fun _ _ => .pure ?_
  change Expr.object {} (Bare.entries es) = Expr.object {} (Bare.entries es')
  rw [Bare.entries_eq_map, Bare.entries_eq_map]
  exact congrArg (Expr.object {}) hes

theorem unary (hp : ¬p.Ended) : AgreesAt p .loose Bare.expr (unary rules) (unary rules') := by
  rw [Parser.unary, Parser.unary]
  exact .advance hp fun _ p => (h.expr _ p).bind fun e e' he p => .spanFrom fun _ _ =>
    .pure (congrArg (Expr.unary {} _) he)

theorem functionLiteral (hmn : m ≤ n) (hp : ¬p.Ended) :
    AgreesAt p .loose Bare.expr (functionLiteral rules n) (functionLiteral rules' m) := by
  rw [Parser.functionLiteral, Parser.functionLiteral]
  exact .advance hp fun _ p => (h.signature hmn p).any.bind fun f f' hf p => .spanFrom fun _ _ =>
    .pure (congrArg Expr.function (Bare.function_eq hf))

omit h in
theorem property (hp : ¬p.Ended) {e e' : Expr} (he : Bare.expr e = Bare.expr e') :
    AgreesAt p .loose Bare.expr (property e) (property e') := by
  rw [Parser.property, Parser.property]
  refine .advance hp fun _ p => .peek (fun hp => ?_) fun sp hp => .ite (fun _ => .advance hp fun _ p =>
    .spanFrom fun _ _ => .pure (congrArg (Expr.member {} · _) he)) fun _ => .fail
  rw [show p.short.current.kind = .eof from hp]
  exact .fail

theorem arguments (hmn : m ≤ n) (hp : ¬p.Ended) :
    AgreesAt p .loose Bare.exprs (arguments rules n) (arguments rules' m) := by
  rw [Parser.arguments, Parser.arguments]
  exact .advance hp fun _ p => (h.exprs .rparen (by decide) hmn p).bind fun es es' hes p =>
    .expect (by decide) fun _ _ _ p => .pure hes

omit h in
theorem properties (hmn : m ≤ n) {e e' : Expr} (he : Bare.expr e = Bare.expr e') :
    Agrees more .loose Bare.expr (properties n e) (properties m e') := fun p => by
  induction m generalizing n p e e' with
  | zero => exact .fail
  | succ m ih =>
    obtain ⟨n, rfl⟩ := Nat.exists_eq_succ_of_ne_zero (Nat.ne_zero_of_lt hmn)
    rw [Parser.properties, Parser.properties]
    refine .seesIte (by decide) (fun hp _ => ?_) (.pure he)
    exact (property hp he).bind fun e e' he p => ih (Nat.le_of_succ_le_succ hmn) he p

theorem construction (hmn : m ≤ n) (hp : ¬p.Ended) :
    AgreesAt p .loose Bare.expr (construction rules n) (construction rules' m) := by
  rw [Parser.construction, Parser.construction]
  refine .advance hp fun _ p => .peek (fun hp => ?_) fun sp hp => .ite (fun _ => ?_) fun _ => .fail
  · rw [show p.short.current.kind = .eof from hp]
    exact .fail
  refine (h.operand p).bind fun c c' hc p => (properties hmn hc p).bind fun c c' hc p => ?_
  refine .seesIte (by decide) (fun hp _ => ?_) .fail
  exact (h.arguments hmn hp).bind fun es es' hes p => .spanFrom fun _ _ => .spanFrom fun _ _ =>
    .pure (congrArg₂ (Expr.construct {} {}) hc hes)

/-! ### Choices -/

theorem armReader (first first' : Span) {e e' : Option Expr}
    (he : e.map Bare.expr = e'.map Bare.expr) :
    Agrees more .loose Bare.arm (armReader rules first e) (armReader rules' first' e') := fun p => by
  have harm {sp sp' : Span} {b b' : ArmBody} (hb : Bare.armBody b = Bare.armBody b') :
      Bare.arm ⟨sp, e, b⟩ = Bare.arm ⟨sp', e', b'⟩ :=
    bare_arm_eq_iff.2 (congrArg₂ Prod.mk he hb)
  refine .seesIte (by decide) (fun _ _ => (h.block p).any.bind fun b b' hb p => .pureBind ?_)
    (.peekSpan fun _ _ => (h.expr 0 p).bind fun e e' he p => .spanFrom fun _ _ => .pureBind ?_)
  · exact .spanFrom fun _ _ => .pure (harm (congrArg ArmBody.block hb))
  · exact .spanFrom fun _ _ => .pure (harm (congrArg (ArmBody.value {}) he))

theorem matchArm : Agrees more .loose Bare.arm (matchArm rules) (matchArm rules') := fun p => by
  have harrow (first first' : Span) {e e' : Option Expr} (he : e.map Bare.expr = e'.map Bare.expr) :
      Agrees more .loose Bare.arm (expect .fatArrow >>= fun _ => ScriptLang.armReader rules first e)
        (expect .fatArrow >>= fun _ => ScriptLang.armReader rules' first' e') := fun p =>
    .expect (by decide) fun _ _ _ => h.armReader _ _ he
  rw [Parser.matchArm, Parser.matchArm]
  refine .peekSpan fun t t' => .get ?_
  by_cases hp : p.Ended
  · -- No pattern is read at the end.
    intro b c hb
    dsimp only at hb
    rw [show p.short.current.kind = .eof from hp] at hb
    obtain ⟨e, c₁, he, hb⟩ := bind_eq_ok.1 hb
    obtain ⟨q, rfl, hend, -⟩ := h.expr 0 p he
    replace hb : (expect .fatArrow >>= fun _ => ScriptLang.armReader rules' t'.span (some e)) q.short =
        .ok (b, c) := hb
    obtain ⟨t, c₂, ht, -⟩ := bind_eq_ok.1 hb
    obtain ⟨r, -, hfirm, -⟩ := AgreesAt.token (by decide : Kind.fatArrow ≠ .eof) ht
    exact Bool.noConfusion (hfirm (hend hp).2).1
  · have hwild : (p.long.current.kind == .ident && p.long.current.value == "_" &&
        p.long.second == .fatArrow) = (p.short.current.kind == .ident &&
          p.short.current.value == "_" && p.short.second == .fatArrow) := by
      rw [p.current hp]
      rcases p.second hp with hsecond | ⟨-, hshort, hlong⟩
      · rw [hsecond]
      · rw [hshort, hlong, beq_eq_false_iff_ne.2 (p.first_ne (by decide))]
        rfl
    dsimp only
    rw [hwild]
    refine .ite (fun _ => .advance hp fun _ p => .pureBind (harrow _ _ rfl p)) fun _ => ?_
    refine (h.expr 0 p).bind fun e e' he p => .pureBind (harrow _ _ ?_ p)
    exact congrArg some he

theorem matchArms (hmn : m ≤ n) :
    Agrees more .loose Bare.arms (matchArms rules n) (matchArms rules' m) := fun p => by
  induction m generalizing n p with
  | zero => exact .fail
  | succ m ih =>
    obtain ⟨n, rfl⟩ := Nat.exists_eq_succ_of_ne_zero (Nat.ne_zero_of_lt hmn)
    have hmore {a a' : MatchArm} (ha : Bare.arm a = Bare.arm a') : Agrees more .loose Bare.arms
        (Parser.matchArms rules n >>= fun as => pure (a :: as))
        (Parser.matchArms rules' m >>= fun as => pure (a' :: as)) := fun p =>
      (ih (Nat.le_of_succ_le_succ hmn) p).bind fun as as' has p => .pure (congrArg₂ List.cons ha has)
    rw [Parser.matchArms, Parser.matchArms]
    refine .seesIte (by decide) (fun _ _ => .pure rfl) ((h.matchArm p).bind fun a a' ha p => ?_)
    obtain ⟨s, e, body⟩ := a
    obtain ⟨s', e', body'⟩ := a'
    have hbody := (Prod.mk.inj (bare_arm_eq_iff.1 ha)).2
    cases body with
    | block b =>
      cases body' with
      | block b' => exact .skip (by decide) (hmore ha) (hmore ha p)
      | value => cases hbody
    | value sp e =>
      cases body' with
      | block b' => cases hbody
      | value sp' e' => exact .skip (by decide) (hmore ha) (.pure (congrArg (· :: []) ha))

theorem choice (hmn : m ≤ n) (hp : ¬p.Ended) :
    AgreesAt p .firm Bare.choice (choice rules n) (choice rules' m) := by
  rw [Parser.choice, Parser.choice]
  exact .advance hp fun _ p => (h.expr 0 p).bind fun e e' he p => .expect (by decide) fun _ _ _ p =>
    (h.matchArms hmn p).bind fun as as' has p => .expectLast (by decide) fun _ _ p => .spanFrom fun _ _ =>
      .pure (congrArg₂ (MatchExpr.mk {}) he has)

/-! ### Expressions -/

theorem operandRule (hmn : m ≤ n) :
    Agrees more .loose Bare.expr (Parser.operand rules n) (Parser.operand rules' m) := fun p => by
  rw [Parser.operand, Parser.operand]
  refine .peek (fun hp => ?_) fun sp hp => ?_
  · rw [show p.short.current.kind = .eof from hp]
    exact .fail
  dsimp only
  split
  · rw [numberLiteral]
    refine .peek (fun h => absurd h hp) fun sp hp => ?_
    dsimp only
    split
    · exact .advance hp fun _ p => .pure rfl
    · exact .fail
  · exact .advance hp fun _ p => .pure rfl
  · exact .advance hp fun _ p => .pure rfl
  · exact .advance hp fun _ p => .pure rfl
  · exact .advance hp fun _ p => .pure rfl
  · exact .advance hp fun _ p => .pure rfl
  · exact h.group hp
  · exact h.arrayLiteral hmn hp
  · exact h.objectLiteral hmn hp
  · exact h.unary hp
  · exact h.unary hp
  · exact h.unary hp
  · exact h.unary hp
  · exact h.functionLiteral hmn hp
  · exact (h.choice hmn hp).any.bind fun m m' hm p => .pure (congrArg Expr.choose hm)
  · exact h.construction hmn hp
  · exact .fail

theorem extend (hmn : m ≤ n) (hp : ¬p.Ended) (right : Nat) {left left' : Expr}
    (hleft : Bare.expr left = Bare.expr left') :
    AgreesAt p .loose Bare.expr (extend rules n right left) (extend rules' m right left') := by
  rw [Parser.extend, Parser.extend]
  refine .peek (fun h => absurd h hp) fun sp hp => ?_
  dsimp only
  split
  · exact (h.arguments hmn hp).bind fun es es' hes p => .spanFrom fun _ _ =>
      .pure (congrArg₂ (Expr.call {}) hleft hes)
  · exact .advance hp fun _ p => (h.expr 0 p).bind fun e e' he p => .expect (by decide) fun _ _ _ p =>
      .spanFrom fun _ _ => .pure (congrArg₂ (Expr.index {}) hleft he)
  · exact property hp hleft
  · exact .advance hp fun _ p => .spanFrom fun _ _ => .pure (congrArg (Expr.step {} _) hleft)
  · exact .advance hp fun _ p => .spanFrom fun _ _ => .pure (congrArg (Expr.step {} _) hleft)
  · exact .advance hp fun _ p => (h.expr right p).bind fun e e' he p => .spanFrom fun _ _ =>
      .pure (congrArg₂ (Expr.range {}) hleft he)
  · refine .advance hp fun _ p => (h.expr right p).bind fun e e' he p => .ite (fun _ => ?_) fun _ => ?_
    · exact .spanFrom fun _ _ => .pure (congrArg₂ (Expr.assign {} _) hleft he)
    · exact .spanFrom fun _ _ => .pure (congrArg₂ (Expr.binary {} _) hleft he)

theorem climb (least : Nat) (hmn : m ≤ n) {left left' : Expr}
    (hleft : Bare.expr left = Bare.expr left') :
    Agrees more .loose Bare.expr (climb rules least n left) (climb rules' least m left') := fun p => by
  induction m generalizing n p left left' with
  | zero => exact .fail
  | succ m ih =>
    obtain ⟨n, rfl⟩ := Nat.exists_eq_succ_of_ne_zero (Nat.ne_zero_of_lt hmn)
    have hmn := Nat.le_of_succ_le_succ hmn
    rw [Parser.climb, Parser.climb]
    refine .peek (fun hp => ?_) fun sp hp => ?_
    · rw [show p.short.current.kind = .eof from hp]
      exact .stop hp
    dsimp only
    split
    · exact .pure hleft
    · refine .ite (fun _ => .pure hleft) fun _ => ?_
      exact (h.extend hmn hp _ hleft).bind fun e e' he p => ih hmn he p

/-! ### Statements -/

theorem statements (hmn : m ≤ n) :
    Agrees more .firm Bare.stmts (statements rules n) (statements rules' m) := fun p => by
  induction m generalizing n p with
  | zero => exact .fail
  | succ m ih =>
    obtain ⟨n, rfl⟩ := Nat.exists_eq_succ_of_ne_zero (Nat.ne_zero_of_lt hmn)
    rw [Parser.statements, Parser.statements]
    refine .skipTo .closed (by decide) (fun h => Bool.noConfusion h) (fun h => Bool.noConfusion h)
      (fun p => .pure rfl) (.seesEof fun _ => ?_)
    exact (h.stmt p).any.bind fun s s' hs p => (ih (Nat.le_of_succ_le_succ hmn) p).last
      fun ss ss' hss p => .pure (congrArg₂ List.cons hs hss)

theorem blockRule (hmn : m ≤ n) :
    Agrees more .firm Bare.block (Parser.block rules n) (Parser.block rules' m) := fun p => by
  rw [Parser.block, Parser.block]
  exact .expect (by decide) fun _ _ _ p => (h.statements hmn p).last fun ss ss' hss p => .spanFrom fun _ _ =>
    .pure (congrArg (Block.mk {}) hss)

theorem exprStmt : Agrees more .firm Bare.stmt (exprStmt rules) (exprStmt rules') := fun p => by
  rw [Parser.exprStmt, Parser.exprStmt]
  exact .peekSpan fun _ _ => (h.expr 0 p).bind fun e e' he p => .expectLast (by decide) fun _ _ p =>
    .spanFrom fun _ _ => .pure (congrArg (Stmt.expr {}) he)

theorem declaration (hmn : m ≤ n) (hp : ¬p.Ended) :
    AgreesAt p .firm Bare.stmt (declaration rules n) (declaration rules' m) := by
  rw [Parser.declaration, Parser.declaration]
  refine .advance hp fun _ p => .expectName fun name p => (agrees_annotated hmn p).bind fun a a' ha p =>
    .skip (by decide) (fun p => (h.expr 0 p).bind fun e e' he p => .pureBind ?_) (.pureBind ?_)
  · exact .expectLast (by decide) fun _ _ p => .spanFrom fun _ _ =>
      .pure (congrArg₂ (fun a e => Stmt.declare {} name _ a (some e)) ha he)
  · exact .expectLast (by decide) fun _ _ p => .spanFrom fun _ _ =>
      .pure (congrArg (Stmt.declare {} name _ · none) ha)

theorem condRule (hp : ¬p.Ended) :
    AgreesAt p .firm Bare.cond (Parser.cond rules) (Parser.cond rules') := by
  rw [Parser.cond, Parser.cond]
  refine .advance hp fun _ p => (h.expr 0 p).bind fun e e' he p => (h.block p).last fun b b' hb p => ?_
  refine .skipTo .firm (by decide) (fun _ _ => p.first_ne (by decide)) id
    (fun p => .seesIte (by decide) (fun hp _ => ?_) ?_) ?_
  · exact (h.cond hp).last fun c c' hc p => .pureBind (.spanFrom fun _ _ => .pure
      (bare_cond_eq_iff.2 ⟨he, hb, congrArg (some ∘ ElseBranch.chain) hc⟩))
  · exact (h.block p).last fun c c' hc p => .pureBind (.spanFrom fun _ _ => .pure
      (bare_cond_eq_iff.2 ⟨he, hb, congrArg (some ∘ ElseBranch.block) hc⟩))
  · exact .pureBind (.spanFrom fun _ _ => .pure (bare_cond_eq_iff.2 ⟨he, hb, rfl⟩))

omit h in
theorem importStmt (hp : ¬p.Ended) : AgreesAt p .firm Bare.stmt importStmt importStmt := by
  have hpath (first first' : Span) (name : Text) (wildcard : Bool) : Agrees more .firm Bare.stmt
      (RereadStmt.pathReader first name wildcard) (RereadStmt.pathReader first' name wildcard) := fun p => by
    refine .skipIte (by decide) (fun p => .expect (by decide) fun t t' ht p => .pureBind ?_)
      (.ite (fun _ => .failBind) fun _ => .pureBind ?_)
    · exact .expectLast (by decide) fun _ _ p => .spanFrom fun _ _ =>
        .pure (congrArg (Stmt.importing {} name wildcard) ht)
    · exact .expectLast (by decide) fun _ _ p => .spanFrom fun _ _ => .pure rfl
  rw [Parser.importStmt]
  refine .advance hp fun sp p => .skip (by decide) (fun p => .pureBind (hpath _ _ [] true p)) ?_
  exact .expectName fun name => hpath _ _ name false

theorem foreachStmt (hp : ¬p.Ended) :
    AgreesAt p .firm Bare.stmt (foreachStmt rules) (foreachStmt rules') := by
  have htail {first first' : Span} {value index : Text} : Agrees more .firm Bare.stmt
      (do
        let _ ← expect .kwIn
        let iterable ← rules.expr 0
        let body ← rules.block
        return Stmt.foreachLoop (← spanFrom first) value index iterable body)
      (do
        let _ ← expect .kwIn
        let iterable ← rules'.expr 0
        let body ← rules'.block
        return Stmt.foreachLoop (← spanFrom first') value index iterable body) := fun p =>
    .expect (by decide) fun _ _ _ p => (h.expr 0 p).bind fun e e' he p => (h.block p).last fun b b' hb p =>
      .spanFrom fun _ _ => .pure (congrArg₂ (Stmt.foreachLoop {} value index) he hb)
  rw [Parser.foreachStmt, Parser.foreachStmt]
  refine .advance hp fun _ p => .expectName fun value p =>
    .skip (by decide) (fun p => ?_) (.pureBind (htail p))
  exact .expectName fun index => htail

theorem whileStmt (hp : ¬p.Ended) : AgreesAt p .firm Bare.stmt (whileStmt rules) (whileStmt rules') := by
  rw [Parser.whileStmt, Parser.whileStmt]
  exact .advance hp fun _ p => (h.expr 0 p).bind fun e e' he p => (h.block p).last fun b b' hb p =>
    .spanFrom fun _ _ => .pure (congrArg₂ (Stmt.whileLoop {}) he hb)

theorem members (hmn : m ≤ n) :
    Agrees more .firm (fun r => (r.1.map Param.bare, Bare.functions r.2)) (members rules n)
      (members rules' m) := fun p => by
  induction m generalizing n p with
  | zero => exact .fail
  | succ m ih =>
    obtain ⟨n, rfl⟩ := Nat.exists_eq_succ_of_ne_zero (Nat.ne_zero_of_lt hmn)
    have hmn := Nat.le_of_succ_le_succ hmn
    have hfield {a a' : Param} (ha : a.bare = a'.bare) :
        Agrees more .firm (fun r => (r.1.map Param.bare, Bare.functions r.2))
          (Parser.members rules n >>= fun r => pure (a :: r.1, r.2))
          (Parser.members rules' m >>= fun r => pure (a' :: r.1, r.2)) := fun p =>
      (ih hmn p).last fun r r' hr p => .pure (congrArg₂ Prod.mk
        (congrArg₂ List.cons ha (Prod.mk.inj hr).1) (Prod.mk.inj hr).2)
    rw [Parser.members, Parser.members]
    refine .seesIte (by decide) (fun hp _ => .inside hp rfl) (.seesIte (by decide) (fun hp _ => ?_) ?_)
    · exact (h.namedFunction hmn hp).any.bind fun f f' hf p => (ih hmn p).last fun r r' hr p =>
        .pure (congrArg₂ Prod.mk (Prod.mk.inj hr).1 (congrArg₂ List.cons hf (Prod.mk.inj hr).2))
    · refine (agrees_param hmn p).bind fun a a' ha p => .skip (by decide) (fun p => hfield ha p) ?_
      exact .expect (by decide) fun _ _ _ => hfield ha

theorem structDecl (hmn : m ≤ n) (hp : ¬p.Ended) :
    AgreesAt p .firm Bare.stmt (structDecl rules n) (structDecl rules' m) := by
  rw [structDecl_eq, structDecl_eq]
  exact .advance hp fun _ p => .expectName fun name p => .expect (by decide) fun _ _ _ p =>
    (h.members hmn p).any.bind fun r r' hr p => .expectLast (by decide) fun _ _ p => .spanFrom fun _ _ =>
      .pure (congrArg₂ (Stmt.struct {} name) (Prod.mk.inj hr).1 (Prod.mk.inj hr).2)

omit h in
theorem enumDecl (hmn : m ≤ n) (hp : ¬p.Ended) :
    AgreesAt p .firm Bare.stmt (enumDecl n) (enumDecl m) := by
  rw [Parser.enumDecl, Parser.enumDecl]
  refine .advance hp fun _ p => .expectName fun name p => .expect (by decide) fun _ _ _ p =>
    (agrees_commaList .rbrace (by decide) (fun p => AgreesAt.name.any) hmn p).bind fun ms ms' hms p =>
      .expectLast (by decide) fun _ _ p => .spanFrom fun _ _ => .pure ?_
  rw [List.map_id, List.map_id] at hms
  exact congrArg (Stmt.enum {} name) hms

theorem chooseStmt (hmn : m ≤ n) (hp : ¬p.Ended) :
    AgreesAt p .firm Bare.stmt (chooseStmt rules n) (chooseStmt rules' m) := by
  rw [Parser.chooseStmt, Parser.chooseStmt]
  refine .peekSpan fun _ _ => (h.choice hmn hp).last fun m m' hm p => ?_
  have hend {s s' : Span} (p : Seam more) : AgreesAt p .closed Bare.stmt
      (spanFrom s >>= fun sp => pure (Stmt.choose sp m))
      (spanFrom s' >>= fun sp => pure (Stmt.choose sp m')) :=
    .spanFrom fun _ _ => .pure (congrArg (Stmt.choose {}) hm)
  exact .skipTo .closed (by decide) (fun _ _ => p.first_ne (by decide)) id hend (hend p)

theorem returnStmt (hp : ¬p.Ended) :
    AgreesAt p .firm Bare.stmt (returnStmt rules) (returnStmt rules') := by
  rw [Parser.returnStmt, Parser.returnStmt]
  refine .advance hp fun _ p => .sees (by decide) (fun _ _ => .pureBind ?_)
    ((h.expr 0 p).bind fun e e' he p => .pureBind ?_)
  · exact .expectLast (by decide) fun _ _ p => .spanFrom fun _ _ => .pure rfl
  · exact .expectLast (by decide) fun _ _ p => .spanFrom fun _ _ =>
      .pure (congrArg (Stmt.returning {} ∘ some) he)

omit h in
theorem wordStmt {make : Span → Stmt} (hmake : ∀ sp sp', Bare.stmt (make sp) = Bare.stmt (make sp'))
    (hp : ¬p.Ended) : AgreesAt p .firm Bare.stmt (wordStmt make) (wordStmt make) := by
  rw [Parser.wordStmt]
  exact .advance hp fun _ p => .expectLast (by decide) fun _ _ p => .spanFrom fun _ _ => .pure (hmake _ _)

theorem statement (hmn : m ≤ n) :
    Agrees more .firm Bare.stmt (statement rules n) (statement rules' m) := fun p => by
  rw [Parser.statement, Parser.statement]
  refine .peek (fun hp => ?_) fun sp hp => ?_
  · rw [show p.short.current.kind = .eof from hp]
    exact .ended hp (h.exprStmt p)
  dsimp only
  split
  · exact (h.block p).last fun b b' hb p => .pure (congrArg Stmt.block hb)
  · exact h.declaration hmn hp
  · exact h.declaration hmn hp
  · have hfunction : AgreesAt p .firm Bare.stmt
        (Parser.namedFunction rules n >>= fun f => pure (Stmt.function f))
        (Parser.namedFunction rules' m >>= fun f => pure (Stmt.function f)) :=
      (h.namedFunction hmn hp).last fun f f' hf p => .pure (congrArg Stmt.function hf)
    refine .get ?_
    rcases p.second hp with hsecond | ⟨hend, hshort, -⟩
    · rw [hsecond]
      exact .ite (fun _ => h.exprStmt p) fun _ => hfunction
    · -- Where nothing is behind the word it is taken for the start of a declaration without a name.
      rw [hshort]
      intro b c hb
      obtain ⟨f, c₁, hf, -⟩ := bind_eq_ok.1 hb
      rw [Parser.namedFunction] at hf
      obtain ⟨t, c₂, ht, hf⟩ := bind_eq_ok.1 hf
      cases ht
      obtain ⟨name, c₃, hname, -⟩ := bind_eq_ok.1 hf
      obtain ⟨q, -, hfirm, -⟩ := (AgreesAt.name : AgreesAt (p.next hp) _ _ _ _) hname
      exact Bool.noConfusion (hfirm hend).1
  · exact (h.cond hp).last fun c c' hc p => .pure (congrArg Stmt.cond hc)
  · exact importStmt hp
  · exact h.foreachStmt hp
  · exact h.whileStmt hp
  · exact h.structDecl hmn hp
  · exact enumDecl hmn hp
  · exact h.chooseStmt hmn hp
  · exact wordStmt (fun _ _ => rfl) hp
  · exact wordStmt (fun _ _ => rfl) hp
  · exact h.returnStmt hp
  · exact h.exprStmt p

end Rules.Agree

/-! ### Programs -/

theorem Rules.agree_ofDepth {d n : Nat} (hdn : d ≤ n) :
    Rules.Agree more (Rules.ofDepth n) (Rules.ofDepth d) := by
  induction d generalizing n with
  | zero => exact fun ph p _ => .fail
  | succ d ih =>
    obtain ⟨n, rfl⟩ := Nat.exists_eq_succ_of_ne_zero (Nat.ne_zero_of_lt hdn)
    have hdn := Nat.le_of_succ_le_succ hdn
    have h := ih hdn
    intro ph p hp
    cases ph with
    | expr least => exact (h.operand p).bind fun e e' he => h.climb least hdn he
    | operand => exact h.operandRule hdn p
    | stmt => exact h.statement hdn p
    | block => exact h.blockRule hdn p
    | cond => exact h.condRule (hp rfl)

theorem Bare.stmts_append (as bs : List Stmt) :
    Bare.stmts (as ++ bs) = Bare.stmts as ++ Bare.stmts bs := by
  induction as with
  | nil => rfl
  | cons a as ih => exact congrArg (Bare.stmt a :: ·) ih

theorem Parser.program_eof {rules : Rules} {n : Nat} {s : Stream} (hs : s.current.kind = .eof) :
    Parser.program rules (n + 1) s = .ok ([], s) := by
  rw [Parser.program, bind_apply]
  show (if (s.current.kind == Kind.eof) = true then (pure [] : Parser (List Stmt)) else _) s = _
  rw [hs]
  rfl

theorem Parser.program_succ {rules : Rules} {n : Nat} {s : Stream} (hs : s.current.kind ≠ .eof) :
    Parser.program rules (n + 1) s =
      (rules.stmt >>= fun a => Parser.program rules n >>= fun as => pure (a :: as)) s := by
  rw [Parser.program, bind_apply]
  show (if (s.current.kind == Kind.eof) = true then (pure [] : Parser (List Stmt)) else _) s = _
  rw [if_neg (by simpa using hs)]

/-- The statements before the end are read, and reading goes on with `more`. -/
theorem Parser.program_goes_on {rules rules' : Rules} (h : Rules.Agree more rules rules') {m : Nat}
    (p : Seam more) {bs : List Stmt} {c : Stream}
    (hb : Parser.program rules' m p.short = .ok (bs, c)) :
    ∃ as s, s.ahead = more ∧ Bare.stmts as = Bare.stmts bs ∧
      ∀ k, Parser.program rules (bs.length + k) p.long =
        (Parser.program rules k s).map fun r => (as ++ r.1, r.2) := by
  induction m generalizing p bs with
  | zero => cases hb
  | succ m ih =>
    rw [Parser.program] at hb
    obtain ⟨ended, _, hended, hb⟩ := bind_eq_ok.1 hb
    cases hended
    split at hb
    · next hend =>
      cases hb
      refine ⟨[], p.long, (p.ahead_of_ended (eq_of_beq hend)).2, rfl, fun k => ?_⟩
      rw [List.length_nil, Nat.zero_add]
      cases Parser.program rules k p.long <;> rfl
    · next hend =>
      have hp : ¬p.Ended := fun hp => hend (beq_iff_eq.2 hp)
      obtain ⟨b, c₁, hstmt, hb⟩ := bind_eq_ok.1 hb
      obtain ⟨bs, c₂, hrest, hb⟩ := bind_eq_ok.1 hb
      cases hb
      obtain ⟨q, rfl, -, ⟨hloose, -⟩ | ⟨a, ha, hab⟩⟩ := h.stmt p hstmt
      · cases hloose
      obtain ⟨as, s, hs, has, hrun⟩ := ih q hrest
      refine ⟨a :: as, s, hs, congrArg₂ List.cons hab has, fun k => ?_⟩
      rw [List.length_cons, Nat.add_right_comm, program_succ (p.kind hp ▸ hp), bind_apply, ha]
      show (Parser.program rules (bs.length + k) >>= fun as => pure (a :: as)) q.long = _
      rw [bind_apply, hrun k]
      cases Parser.program rules k s <;> rfl

/-- What an operand starts with. -/
theorem Parser.startsOperand_of_operand {rules : Rules} {n : Nat} {s s' : Stream} {e : Expr}
    (h : Parser.operand rules n s = .ok (e, s')) : startsOperand s.current.kind = true := by
  rw [Parser.operand] at h
  obtain ⟨t, _, ht, h⟩ := bind_eq_ok.1 h
  cases ht
  generalize s.current.kind = k at h
  cases k <;> first | rfl | cases h

theorem Rules.startsOperand_of_expr {d least : Nat} {s s' : Stream} {e : Expr}
    (h : (Rules.ofDepth d).expr least s = .ok (e, s')) : startsOperand s.current.kind = true := by
  match d, h with
  | 1, h => cases h
  | d + 2, h =>
    obtain ⟨first, s₁, hfirst, -⟩ := bind_eq_ok.1 h
    exact Parser.startsOperand_of_operand hfirst

/-- What a statement does not start with. -/
theorem Rules.first_of_stmt {d : Nat} {s s' : Stream} {st : Stmt}
    (h : (Rules.ofDepth d).stmt s = .ok (st, s')) :
    s.current.kind ∉ [Kind.kwElse, .semicolon, .fatArrow] := by
  intro hk
  cases d with
  | zero => cases h
  | succ d =>
    have hexpr : Parser.exprStmt (Rules.ofDepth d) s = .ok (st, s') := by
      replace h : Parser.statement (Rules.ofDepth d) d s = .ok (st, s') := h
      rw [Parser.statement, bind_apply] at h
      dsimp only [Parser.peek, Except.bind] at h
      simp only [List.mem_cons, List.not_mem_nil, or_false] at hk
      rcases hk with hk | hk | hk <;> rw [hk] at h <;> exact h
    obtain ⟨t, _, ht, hexpr⟩ := bind_eq_ok.1 hexpr
    cases ht
    obtain ⟨e, s₁, he, -⟩ := bind_eq_ok.1 hexpr
    have hstarts := Rules.startsOperand_of_expr he
    simp only [List.mem_cons, List.not_mem_nil, or_false] at hk
    rcases hk with hk | hk | hk <;> rw [hk] at hstarts <;> cases hstarts

/-- What a program does not start with. -/
theorem Parser.first_of_program {d m : Nat} {s s' : Stream} {ss : List Stmt}
    (h : Parser.program (Rules.ofDepth d) m s = .ok (ss, s')) :
    s.current.kind ∉ [Kind.kwElse, .semicolon, .fatArrow] := by
  cases m with
  | zero => cases h
  | succ m =>
    by_cases hs : s.current.kind = .eof
    · rw [hs]
      decide
    · rw [program_succ hs] at h
      obtain ⟨st, s₁, hst, -⟩ := bind_eq_ok.1 h
      exact Rules.first_of_stmt hst

theorem Stream.ofTokens_complete {ts : List Token} {ls : List Lexeme} (h : Token.Complete ts ls) :
    (Stream.ofTokens ts).current :: (Stream.ofTokens ts).rest = ts := by
  obtain ⟨us, stop, rfl, -, hstop⟩ := List.map_eq_append_iff.1 h.lexemes
  obtain ⟨stop, rfl, heof⟩ := List.map_eq_singleton_iff.1 hstop
  rw [Stream.ofTokens_stop (congrArg Lexeme.kind heof)]
  cases us <;> rfl

theorem Stream.closed_of_ahead {s : Stream} {ls : List Lexeme} (hs : s.ahead = ls ++ [.eof]) :
    s.Closed := by
  have hlexemes : (s.current :: s.rest).map Token.lexeme = ls ++ [.eof] := hs
  obtain ⟨ts, stop, hts, -, hstop⟩ := List.map_eq_append_iff.1 hlexemes
  obtain ⟨stop, rfl, heof⟩ := List.map_eq_singleton_iff.1 hstop
  exact ⟨ts, stop, hts, congrArg Lexeme.kind heof⟩

/-- A statement is not empty, so there are no more of them than tokens. -/
theorem Parser.length_program_lt {d m : Nat} {s s' : Stream} {ss : List Stmt} (hs : s.Closed)
    (hd : 3 * s.size ≤ d) (h : Parser.program (Rules.ofDepth d) m s = .ok (ss, s')) :
    ss.length < s.size := by
  induction m generalizing s ss with
  | zero => cases h
  | succ m ih =>
    rw [Parser.program] at h
    obtain ⟨ended, _, hended, h⟩ := bind_eq_ok.1 h
    cases hended
    split at h
    · cases h
      exact Nat.succ_pos _
    · obtain ⟨st, s₁, hstmt, h⟩ := bind_eq_ok.1 h
      obtain ⟨ss, s₂, hrest, h⟩ := bind_eq_ok.1 h
      cases h
      have hlead : Parser.Leads s (s.size - 1) ((Rules.ofDepth d).stmt s) :=
        (Rules.steps_ofDepth (p := .stmt) (Nat.le_refl d) hd Phrase.noConfusion hs rfl (Nat.le_refl _)).2
      rw [hstmt] at hlead
      obtain ⟨hpass, hsize⟩ := hlead
      have := ih (hpass.closed hs) (by omega) hrest
      rw [List.length_cons]
      omega

namespace Program

variable {ts us vs : List Token} {ls ls' : List Lexeme} {b : Block}

/-- The statements of a program and what the parser makes of them. -/
theorem statements_of_ofTokens (hts : Token.Complete ts ls) (h : ofTokens ts = .ok b) :
    ∃ s, Parser.program (Rules.ofDepth (4 * (ls.length + 2))) (4 * (ls.length + 2))
        (Stream.ofTokens ts) = .ok (b.body, s) ∧ b.body.length ≤ ls.length := by
  obtain ⟨hahead, hdepth⟩ := Stream.ahead_ofTokens hts.lexemes
  obtain ⟨s, hs⟩ := ofTokens_eq_ok.1 h
  obtain ⟨ss, hss, rfl⟩ := programReader_eq_ok.1 hs
  rw [hdepth] at hss
  have hsize : (Stream.ofTokens ts).size = ls.length + 1 := by
    have := congrArg List.length hahead
    rwa [List.length_append, Stream.ahead, List.length_cons, List.length_map] at this
  have hlength := Parser.length_program_lt (Stream.closed_of_ahead hahead) (by omega) hss
  rw [hsize] at hlength
  exact ⟨s, hss, Nat.le_of_lt_succ hlength⟩

/-- Two programs, one behind the other, are a program, whose statements are those of the first and
those of the second one. -/
theorem ofTokens_append {c : Block} (hts : Token.Complete ts ls) (hus : Token.Complete us ls')
    (hvs : Token.Complete vs (ls ++ ls')) (hb : ofTokens ts = .ok b) (hc : ofTokens us = .ok c) :
    ∃ e, ofTokens vs = .ok e ∧ Bare.stmts e.body = Bare.stmts b.body ++ Bare.stmts c.body := by
  obtain ⟨s₁, hbody, hblength⟩ := statements_of_ofTokens hts hb
  obtain ⟨s₂, hcbody, hclength⟩ := statements_of_ofTokens hus hc
  obtain ⟨hahead, hdepth⟩ := Stream.ahead_ofTokens hvs.lexemes
  have hshort := (Stream.ahead_ofTokens hts.lexemes).1
  have hshort' := (Stream.ahead_ofTokens hus.lexemes).1
  rw [List.length_append] at hdepth
  generalize hd : 4 * (ls.length + ls'.length + 2) = d at hdepth
  -- The statements of the first program, before the lexemes of the second one.
  let p : Seam (ls' ++ [.eof]) :=
    { long := Stream.ofTokens vs
      short := Stream.ofTokens ts
      joins := ⟨ls, hshort, by rw [hahead, List.append_assoc], hts.going⟩
      ne := by simp
      opens := Settles.first_ahead hshort' ▸ Parser.first_of_program hcbody }
  have hagree : Rules.Agree (ls' ++ [.eof]) (Rules.ofDepth d) (Rules.ofDepth (4 * (ls.length + 2))) :=
    Rules.agree_ofDepth (by omega)
  obtain ⟨as, s, hs, has, hrun⟩ := Parser.program_goes_on hagree p hbody
  -- The statements of the second one, which starts where the first one ended.
  let p' : Seam [.eof] :=
    { long := s
      short := Stream.ofTokens us
      joins := ⟨ls', hshort', hs, hus.going⟩
      ne := by simp
      opens := by decide }
  have hagree' : Rules.Agree [.eof] (Rules.ofDepth d) (Rules.ofDepth (4 * (ls'.length + 2))) :=
    Rules.agree_ofDepth (by omega)
  obtain ⟨as', s', hs', has', hrun'⟩ := Parser.program_goes_on hagree' p' hcbody
  obtain ⟨k, hk⟩ : ∃ k, d = b.body.length + (c.body.length + (k + 1)) :=
    ⟨d - b.body.length - c.body.length - 1, by omega⟩
  have hend : Parser.program (Rules.ofDepth d) (k + 1) s' = .ok ([], s') :=
    Parser.program_eof (Settles.first_ahead hs')
  have hall : Parser.program (Rules.ofDepth d) d (Stream.ofTokens vs) = .ok (as ++ (as' ++ []), s') := by
    have := hrun (c.body.length + (k + 1))
    rw [hrun' (k + 1), hend, ← hk] at this
    exact this
  refine ⟨_, ofTokens_eq_ok.2 ⟨s', programReader_eq_ok.2 ⟨_, hdepth ▸ hall, rfl⟩⟩, ?_⟩
  show Bare.stmts (as ++ (as' ++ [])) = _
  rw [List.append_nil, Bare.stmts_append, has, has']

theorem parse_eq_ok {source file : Text} : parse source file = .ok b ↔
    ∃ ts, Token.scan source file = .ok ts ∧ ofTokens ts = .ok b := by
  unfold parse
  cases Token.scan source file with
  | error e => exact ⟨nofun, fun ⟨_, h, _⟩ => nomatch h⟩
  | ok ts => exact ⟨fun h => ⟨ts, rfl, h⟩, fun ⟨_, hts, h⟩ => Except.ok.inj hts ▸ h⟩

/-- The tokens of a program have no two strings in a row. -/
theorem not_strings_of_ofTokens (hts : Token.Complete ts ls) (h : ofTokens ts = .ok b) :
    ¬∃ us u v vs, ts = us ++ u :: v :: vs ∧ u.kind = .string ∧ v.kind = .string := by
  rintro ⟨us, u, v, vs, heq, hu, hv⟩
  refine not_doubled_of_ofTokens h (.inl ⟨us, u, v, vs, ?_, hu, hv, fun t ht => hts.kind ?_⟩)
  · rw [← heq]
    exact Stream.ofTokens_complete hts
  · rw [heq, List.dropLast_append_of_ne_nil (List.cons_ne_nil _ _)]
    exact List.mem_append_left _ ht

/-- Parsing is compositional: two programs on lines after each other are a program, whose statements
are those of the first and then those of the second one. -/
theorem parse_append {p q file₁ file₂ : Text} {a b : Block} (hp : parse p file₁ = .ok a)
    (hq : parse q file₂ = .ok b) (file : Text) :
    ∃ c, parse (p ++ Text.newline :: q) file = .ok c ∧
      Bare.stmts c.body = Bare.stmts a.body ++ Bare.stmts b.body := by
  obtain ⟨ts, hts, ha⟩ := parse_eq_ok.1 hp
  obtain ⟨us, hus, hb⟩ := parse_eq_ok.1 hq
  obtain ⟨ls, hls, -⟩ := Token.complete_scanFrom hts
  obtain ⟨ls', hls', -⟩ := Token.complete_scanFrom hus
  have hopen : Token.leavesTriple 0 p = false := Bool.eq_false_iff.2 fun h =>
    not_strings_of_ofTokens hls ha (Token.strings_of_leavesTriple h hts)
  obtain ⟨vs, hvs, hcomplete⟩ := Token.Complete.append_newline hopen hts hls hus hls' file
  obtain ⟨c, hc, hstmts⟩ := ofTokens_append hls hls' hcomplete ha hb
  exact ⟨c, parse_eq_ok.2 ⟨vs, hvs, hc⟩, hstmts⟩

/-- A comment ends with its line, and what follows it is the next statement. -/
theorem parse_append_comment : ∃ a b c, parse "if x { f(); } // else" "main" = .ok a ∧
    parse "match y { _ => 1 }" "main" = .ok b ∧
    parse ("if x { f(); } // else" ++ Text.newline :: Text.ofString "match y { _ => 1 }") "main" =
      .ok c ∧
    Bare.stmts c.body = Bare.stmts a.body ++ Bare.stmts b.body := by
  obtain ⟨a, ha⟩ : ∃ a, parse "if x { f(); } // else" "main" = .ok a := ⟨_, rfl⟩
  obtain ⟨b, hb⟩ : ∃ b, parse "match y { _ => 1 }" "main" = .ok b := ⟨_, rfl⟩
  obtain ⟨c, hc, hstmts⟩ := parse_append ha hb "main"
  exact ⟨a, b, c, ha, hb, hc, hstmts⟩

end Program

end ScriptLang
