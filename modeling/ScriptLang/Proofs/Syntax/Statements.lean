import ScriptLang.Proofs.Syntax.Phrases

/-!
# Statements, read back

The step from the parts of a statement to the statement. Two tokens behind a statement can change how
it is read: the word `else` behind a conditional and a semicolon behind a choice. Neither starts a
statement, so statements in a row do not disturb each other.
-/

namespace ScriptLang

open ScriptLang.Parser ScriptLang.Expr

attribute [local simp] Spell.stmt

/-- A conditional that is read back from its lexemes or, if it is not legible, is not. -/
def RereadCond (c : IfStmt) : Prop :=
  ∀ (d : Nat) (rest : List Lexeme), 4 * (Spell.cond c).length ≤ d → Lexeme.first rest ≠ .kwElse →
    Settles (Rules.ofDepth d).cond (Spell.cond c) rest (Every.cond .legible c)
      fun x => Bare.cond x = Bare.cond c

/-- The same for what follows the word `else`. -/
def RereadElse : ElseBranch → Prop
  | .block b => RereadBlock b
  | .chain c => RereadCond c

/-- The same for a function with its name. -/
def RereadFunction (f : FunctionDecl) : Prop :=
  ∀ (d n : Nat) (rest : List Lexeme), 4 * (Spell.function f).length ≤ d →
    (Spell.function f).length ≤ n →
    Settles (namedFunction (Rules.ofDepth d) n) (Spell.function f) rest (Every.function .legible f)
      fun g => Bare.function g = Bare.function f

/-- The same for a statement. -/
structure RereadStmt (s : Stmt) : Prop where
  /-- It starts with a token that does not belong to a statement before it. -/
  starts : Lexeme.first (Spell.stmt s) ∉ [.kwElse, .semicolon, .rbrace, .eof]
  /-- It is read before a token that does not belong to it. -/
  settles : ∀ (d : Nat) (rest : List Lexeme), 4 * (Spell.stmt s).length + 1 ≤ d →
    Lexeme.first rest ∉ [.kwElse, .semicolon] →
    Settles (Rules.ofDepth d).stmt (Spell.stmt s) rest (Every.stmt .legible s)
      fun c => Bare.stmt c = Bare.stmt s

namespace RereadStmt

variable {sp : Span}

/-- A statement read by its rule. -/
theorem of_statement {s : Stmt} (hstarts : Lexeme.first (Spell.stmt s) ∉ [.kwElse, .semicolon, .rbrace, .eof])
    (h : ∀ d, 4 * (Spell.stmt s).length ≤ d → ∀ rest, Lexeme.first rest ∉ [.kwElse, .semicolon] →
      Settles (statement (Rules.ofDepth d) d) (Spell.stmt s) rest (Every.stmt .legible s)
        fun c => Bare.stmt c = Bare.stmt s) : RereadStmt s where
  starts := hstarts
  settles d rest hd hrest := by
    obtain ⟨d, rfl⟩ : ∃ m, d = m + 1 := ⟨d - 1, by omega⟩
    exact h d (by omega) rest hrest

/-! ### One word and a semicolon -/

theorem breakLoop : RereadStmt (.breakLoop sp) := by
  refine .of_statement (by simp [Lexeme.first, Kind.lexeme]) fun d _ rest _ => ?_
  rw [statement, Spell.stmt]
  refine .peek fun t ht => ?_
  rw [show t.kind = .kwBreak from congrArg Lexeme.kind ht]
  exact .advance fun _ _ => .expect rfl fun _ _ => .spanFrom fun _ => .pure rfl

theorem continueLoop : RereadStmt (.continueLoop sp) := by
  refine .of_statement (by simp [Lexeme.first, Kind.lexeme]) fun d _ rest _ => ?_
  rw [statement, Spell.stmt]
  refine .peek fun t ht => ?_
  rw [show t.kind = .kwContinue from congrArg Lexeme.kind ht]
  exact .advance fun _ _ => .expect rfl fun _ _ => .spanFrom fun _ => .pure rfl

theorem returnNil : RereadStmt (.returning sp none) := by
  refine .of_statement (by simp [Lexeme.first, Kind.lexeme]) fun d _ rest _ => ?_
  rw [statement, Spell.stmt]
  refine .peek fun t ht => ?_
  rw [show t.kind = .kwReturn from congrArg Lexeme.kind ht]
  change Settles (returnStmt _) _ _ _ _
  rw [returnStmt]
  refine .advance fun _ _ => .seesThen rfl (.pureBind ?_)
  exact .expect rfl fun _ _ => .spanFrom fun _ => .pure rfl

/-! ### Statements with one expression -/

/-- The expression of a statement, before a semicolon. -/
theorem settles_expr {e : Expr} (h : Reread e) {d : Nat} (hd : 4 * (Spell.expr e).length < d)
    (r : List Lexeme) : Settles ((Rules.ofDepth d).expr 0) (Spell.expr e)
      (Kind.semicolon.lexeme :: r) (Every.expr .legible e) fun c => c.bare = e.bare :=
  h.climbs.settles (Spell.precedence_le_edge e) hd (Nat.zero_le _) (.of_none rfl 0)

/-- The expression of a statement, before a block. -/
theorem settles_exprBlock {e : Expr} (h : Reread e) (b : Block) {d : Nat}
    (hd : 4 * (Spell.expr e).length < d) (r : List Lexeme) :
    Settles ((Rules.ofDepth d).expr 0) (Spell.expr e) (Spell.block b ++ r) (Every.expr .legible e)
      fun c => c.bare = e.bare := by
  refine h.climbs.settles (Spell.precedence_le_edge e) hd (Nat.zero_le _) (.of_none ?_ 0)
  obtain ⟨s, ss⟩ := b
  rfl

theorem returning {e : Expr} (h : Reread e) (ho : Opening e (Spell.expr e)) :
    RereadStmt (.returning sp (some e)) := by
  refine .of_statement (by simp [Lexeme.first, Kind.lexeme]) fun d hd rest _ => ?_
  simp only [Spell.stmt, List.length_cons, List.length_append, List.length_nil] at hd
  rw [statement, Spell.stmt]
  refine .peek fun t ht => ?_
  rw [show t.kind = .kwReturn from congrArg Lexeme.kind ht]
  change Settles (returnStmt _) _ _ (true && Every.expr .legible e) _
  rw [returnStmt, Bool.true_and]
  refine .advance fun _ _ => .seesElse (fun hk => ?_) (.closed (settles_expr h (by omega) rest)
    (fun c hc => .pureBind ?_) fun c hc => .pureBind ?_)
  · have hstarts := ho.starts
    rw [List.append_assoc, Lexeme.first_append ho.ne] at hk
    rw [hk] at hstarts
    cases hstarts
  · refine .expect rfl fun _ _ => .spanFrom fun _ => .pure ?_
    change Stmt.returning {} (some c.bare) = .returning {} (some e.bare)
    rw [hc]
  · exact .bind fun _ => .bind fun _ => .pure fun heq =>
      hc (Option.some.inj (Stmt.returning.inj heq).2)

/-- Tokens that start an expression start an expression statement, but for a brace, the word `match`
and the word `fn` before a name. -/
theorem settles_exprStart {rules : Rules} {n : Nat} {ls rest : List Lexeme} {good : Bool}
    {P : Stmt → Prop} (hstarts : startsOperand (Lexeme.first ls) = true)
    (hbrace : Lexeme.first ls ≠ .lbrace) (hmatch : Lexeme.first ls ≠ .kwMatch)
    (hfn : Lexeme.first ls = .kwFn → ∃ r, ls = Kind.kwFn.lexeme :: Kind.lparen.lexeme :: r)
    (h : Settles (exprStmt rules) ls rest good P) :
    Settles (statement rules n) ls rest good P := by
  obtain ⟨l, ls, rfl⟩ : ∃ l r, ls = l :: r := by
    cases ls with
    | nil => cases hstarts
    | cons l r => exact ⟨l, r, rfl⟩
  rw [statement]
  refine .peek fun t ht => ?_
  have hk : t.kind = Lexeme.first (l :: ls) := congrArg Lexeme.kind ht
  rw [← hk] at hstarts hbrace hmatch hfn
  split
  case h_15 => exact h
  case h_4 heq =>
    obtain ⟨r, hls⟩ := hfn heq
    rw [hls] at h ⊢
    refine .get fun s hs => ?_
    rw [Settles.second_ahead hs]
    exact h
  all_goals
    rename_i heq
    rw [heq] at hstarts hbrace hmatch
    first | exact absurd rfl hbrace | exact absurd rfl hmatch | cases hstarts

theorem expr {e : Expr} (h : Reread e) (ho : Opening e (Spell.expr e)) : RereadStmt (.expr sp e) := by
  have hstart := ho.starts_parens (Print.startsOtherwise e) [Kind.semicolon.lexeme]
  have hnot : Lexeme.first (Spell.parens (Print.startsOtherwise e) (Spell.expr e) ++
      [Kind.semicolon.lexeme]) ∉ [.lbrace, .kwMatch] := by
    cases hb : Print.startsOtherwise e with
    | true => exact nofun
    | false =>
      rw [Spell.parens, if_neg Bool.false_ne_true, Lexeme.first_append ho.ne]
      intro hk
      rw [ho.other (by simpa using hk)] at hb
      cases hb
  refine .of_statement (fun hk => ?_) fun d hd rest _ => ?_
  · rw [Spell.stmt] at hk
    generalize Lexeme.first _ = k at hk hstart
    simp only [List.mem_cons, List.not_mem_nil, or_false] at hk
    rcases hk with rfl | rfl | rfl | rfl <;> cases hstart
  · simp only [Spell.stmt, List.length_append, List.length_cons, List.length_nil] at hd
    rw [Spell.stmt]
    refine settles_exprStart hstart (fun hk => hnot (by simp [hk])) (fun hk => hnot (by simp [hk]))
      (fun hk => ?_) ?_
    · cases hb : Print.startsOtherwise e with
      | true =>
        rw [hb] at hk
        cases hk
      | false =>
        rw [hb, Spell.parens, if_neg Bool.false_ne_true, Lexeme.first_append ho.ne] at hk
        obtain ⟨r, hr⟩ := ho.function hk
        exact ⟨r ++ [Kind.semicolon.lexeme], by simp [Spell.parens, hr]⟩
    · change Settles (exprStmt _) _ _ (true && Every.expr .legible e) _
      rw [exprStmt, Bool.true_and]
      refine .peekKind fun t _ => .closed (h.climbs.settles_parens _ (Spell.precedence_le_edge e)
        (by omega) (Nat.zero_le _) (.of_none rfl 0)) (fun c hc => ?_) fun c hc => ?_
      · refine .expect rfl fun _ _ => .spanFrom fun _ => .pure ?_
        change Stmt.expr {} c.bare = .expr {} e.bare
        rw [hc]
      · exact .bind fun _ => .bind fun _ => .pure fun heq => hc (Stmt.expr.inj heq).2

end RereadStmt

/-! ### Blocks -/

theorem Spell.first_stmts {ss : List Stmt} (h : ∀ s ∈ ss, RereadStmt s) {l : Lexeme}
    (hl : l.kind ∉ [.kwElse, .semicolon]) (rest : List Lexeme) :
    Lexeme.first (Spell.stmts ss ++ l :: rest) ∉ [.kwElse, .semicolon] := by
  cases ss with
  | nil => exact hl
  | cons s ss =>
    have hstarts := (h s (by simp)).starts
    have hne : Spell.stmt s ≠ [] := fun hnil => hstarts (by rw [hnil]; decide)
    rw [Spell.stmts, List.append_assoc, Lexeme.first_append hne]
    exact fun hk => hstarts (by simp_all)

theorem Spell.count_le_stmts {ss : List Stmt} (h : ∀ s ∈ ss, RereadStmt s) :
    ss.length ≤ (Spell.stmts ss).length := by
  induction ss with
  | nil => exact Nat.le_refl _
  | cons s ss ih =>
    have hne : Spell.stmt s ≠ [] := fun hnil => (h s (by simp)).starts (by rw [hnil]; decide)
    have := List.length_pos_iff.2 hne
    have := ih fun x hx => h x (by simp [hx])
    simp only [Spell.stmts, List.length_append, List.length_cons]
    omega

/-- Statements with the closing brace behind them. -/
theorem settles_statements {d : Nat} {rest : List Lexeme} : ∀ (ss : List Stmt) (n : Nat),
    ss.length < n → (∀ s ∈ ss, RereadStmt s) → 4 * (Spell.stmts ss).length + 1 ≤ d →
    Settles (statements (Rules.ofDepth d) n) (Spell.stmts ss ++ [Kind.rbrace.lexeme]) rest
      (Every.stmts .legible ss) fun cs => Bare.stmts cs = Bare.stmts ss := by
  intro ss
  induction ss with
  | nil =>
    intro n hn _ _
    obtain ⟨n, rfl⟩ := Nat.exists_eq_add_one_of_ne_zero (Nat.ne_of_gt hn)
    rw [statements]
    exact .skipThen rfl (.pure rfl)
  | cons s ss ih =>
    intro n hn h hd
    obtain ⟨n, rfl⟩ := Nat.exists_eq_add_one_of_ne_zero (Nat.ne_of_gt (Nat.zero_lt_of_lt hn))
    simp only [Spell.stmts, List.length_append, List.length_cons] at hd hn
    obtain ⟨hstarts, hs⟩ := h s (by simp)
    have hne : Spell.stmt s ≠ [] := fun hnil => hstarts (by rw [hnil]; decide)
    rw [statements, Spell.stmts, Every.stmts, List.append_assoc]
    refine .skipElse (fun hk => hstarts ?_) (.seesElse (fun hk => hstarts ?_) ?_)
    · rw [List.append_assoc, Lexeme.first_append hne] at hk
      simp [hk]
    · rw [List.append_assoc, Lexeme.first_append hne] at hk
      simp [hk]
    have hss : ∀ x ∈ ss, RereadStmt x := fun x hx => h x (by simp [hx])
    have hnext : Lexeme.first (Spell.stmts ss ++ [Kind.rbrace.lexeme] ++ rest) ∉
        [.kwElse, .semicolon] := by
      rw [List.append_assoc]
      exact Spell.first_stmts hss (by decide) rest
    refine .bind (hs d _ (by omega) hnext) (fun c hc => ?_) fun c hc => ?_
    · exact (ih n (by omega) hss (by omega)).map fun cs => by simp [Bare.stmts, hc]
    · exact .bind fun cs => .pure (by simp [Bare.stmts, hc])

theorem RereadBlock.of_stmts {sp : Span} {ss : List Stmt} (h : ∀ s ∈ ss, RereadStmt s) :
    RereadBlock ⟨sp, ss⟩ := by
  intro d rest hd
  simp only [Spell.block, List.length_cons, List.length_append, List.length_nil] at hd
  obtain ⟨d, rfl⟩ : ∃ m, d = m + 1 := ⟨d - 1, by omega⟩
  have hcount := Spell.count_le_stmts h
  change Settles (Parser.block (Rules.ofDepth d) d) _ _ (Every.stmts .legible ss) _
  rw [Parser.block, Spell.block]
  refine .expect rfl fun _ _ => .last (settles_statements ss d (by omega) h (by omega))
    (fun cs hcs => ?_) fun cs hcs => ?_
  · refine .spanFrom fun _ => .pure ?_
    change Block.mk {} (Bare.stmts cs) = ⟨{}, Bare.stmts ss⟩
    rw [hcs]
  · exact .bind fun _ => .pure fun heq => hcs (Block.mk.inj heq).2

/-! ### Conditionals -/

/-- The rest of a conditional that starts at `first`, from behind its first block. -/
def elseReader (rules : Rules) (first : Span) (c : Expr) (yes : Block) : Parser IfStmt := do
  let no ← if ← skip .kwElse then
      if ← sees .kwIf then
        let next ← rules.cond
        pure (some (ElseBranch.chain next))
      else
        let b ← rules.block
        pure (some (ElseBranch.block b))
    else pure none
  return ⟨← spanFrom first, c, yes, no⟩

theorem parts_elseReader (rules : Rules) (first : Span) (c : Expr) (yes : Block) :
    Always (elseReader rules first c yes) fun x => x.cond = c ∧ x.yes = yes := by
  refine .bind fun b => .ite (.bind fun b => .ite ?_ ?_) ?_
  · exact .bind fun _ => .bind fun _ => .bind fun _ => .pure ⟨rfl, rfl⟩
  · exact .bind fun _ => .bind fun _ => .bind fun _ => .pure ⟨rfl, rfl⟩
  · exact .bind fun _ => .bind fun _ => .pure ⟨rfl, rfl⟩

theorem bare_cond_eq_iff {x y : IfStmt} : Bare.cond x = Bare.cond y ↔
    x.cond.bare = y.cond.bare ∧ Bare.block x.yes = Bare.block y.yes ∧
      x.no.map Bare.elseBranch = y.no.map Bare.elseBranch := by
  obtain ⟨s, c, b, _ | n⟩ := x <;> obtain ⟨s', c', b', _ | n'⟩ := y <;>
    simp [Bare.cond, Expr.bare]

theorem Spell.first_block (b : Block) (r : List Lexeme) :
    Lexeme.first (Spell.block b ++ r) = .lbrace := by
  obtain ⟨s, ss⟩ := b
  rfl

theorem Spell.block_length_pos (b : Block) : 0 < (Spell.block b).length := by
  obtain ⟨s, ss⟩ := b
  simp [Spell.block]

theorem settles_elseBranch {b : ElseBranch} (h : RereadElse b) {d : Nat}
    (hd : 4 * (Spell.elseBranch b).length ≤ d) {rest : List Lexeme}
    (hrest : Lexeme.first rest ≠ .kwElse) (first : Span) (c : Expr) (yes : Block) :
    Settles (elseReader (Rules.ofDepth d) first c yes)
      (Kind.kwElse.lexeme :: Spell.elseBranch b) rest (Every.elseBranch .legible b)
      fun x => (x.cond.bare = c.bare ∧ Bare.block x.yes = Bare.block yes) ∧
        x.no.map Bare.elseBranch = some (Bare.elseBranch b) := by
  refine .skipThen rfl ?_
  cases b with
  | block b =>
    refine .seesElse (fun hk => ?_) (.last (h d rest hd) (fun b' hb => ?_) fun b' hb => ?_)
    · rw [Spell.elseBranch, Spell.first_block] at hk
      cases hk
    · refine .pureBind (.spanFrom fun _ => .pure ⟨⟨rfl, rfl⟩, ?_⟩)
      simp [Bare.elseBranch, hb]
    · refine .pureBind (.bind fun _ => .pure fun heq => hb ?_)
      exact ElseBranch.block.inj (Option.some.inj heq.2)
  | chain x =>
    refine .seesThen ?_ (.last (h d rest hd hrest) (fun y hy => ?_) fun y hy => ?_)
    · obtain ⟨s, c, b, _ | n⟩ := x <;> rfl
    · refine .pureBind (.spanFrom fun _ => .pure ⟨⟨rfl, rfl⟩, ?_⟩)
      simp [Bare.elseBranch, hy]
    · refine .pureBind (.bind fun _ => .pure fun heq => hy ?_)
      exact ElseBranch.chain.inj (Option.some.inj heq.2)

theorem RereadCond.of_parts {sp : Span} {e : Expr} {yes : Block} {no : Option ElseBranch}
    (he : Reread e) (hyes : RereadBlock yes) (hno : ∀ b ∈ no, RereadElse b) :
    RereadCond ⟨sp, e, yes, no⟩ := by
  have hiff (x : IfStmt) := bare_cond_eq_iff (x := x) (y := ⟨sp, e, yes, no⟩)
  intro d rest hd hrest
  have hlen := Spell.block_length_pos yes
  have hhead {d : Nat} {ls : List Lexeme} {good : Bool} (hd : 4 * (Spell.expr e).length < d)
      (hd' : 4 * (Spell.block yes).length ≤ d)
      (htail : ∀ first c b, c.bare = e.bare → Bare.block b = Bare.block yes →
        Settles (elseReader (Rules.ofDepth d) first c b) ls rest good
          fun x => Bare.cond x = Bare.cond ⟨sp, e, yes, no⟩) :
      Settles (Parser.cond (Rules.ofDepth d))
        (Kind.kwIf.lexeme :: (Spell.expr e ++ (Spell.block yes ++ ls))) rest
        (Every.expr .legible e && (Every.block .legible yes && good))
        fun x => Bare.cond x = Bare.cond ⟨sp, e, yes, no⟩ := by
    rw [Parser.cond]
    refine .advance fun first _ => .bind ?_ (fun c hc => .bind (hyes d _ hd')
      (fun b hb => htail first.span c b hc hb) fun b hb => ?_) fun c hc => .bind fun b => ?_
    · rw [List.append_assoc]
      exact RereadStmt.settles_exprBlock he yes hd _
    · exact (parts_elseReader _ first.span c b).mono fun x hx heq => hb (hx.2 ▸ ((hiff x).1 heq).2.1)
    · exact (parts_elseReader _ first.span c b).mono fun x hx heq => hc (hx.1 ▸ ((hiff x).1 heq).1)
  cases no with
  | none =>
    simp only [Spell.cond, List.length_cons, List.length_append] at hd
    obtain ⟨d, rfl⟩ : ∃ m, d = m + 1 := ⟨d - 1, by omega⟩
    have htail (first : Span) (c : Expr) (b : Block) (hc : c.bare = e.bare)
        (hb : Bare.block b = Bare.block yes) : Settles (elseReader (Rules.ofDepth d) first c b) []
          rest true fun x => Bare.cond x = Bare.cond ⟨sp, e, yes, none⟩ :=
      .skipElse hrest (.pureBind (.spanFrom fun _ => .pure ((hiff _).2 ⟨hc, hb, rfl⟩)))
    have h := hhead (by omega) (by omega) htail
    rwa [List.append_nil, Bool.and_true] at h
  | some b =>
    simp only [Spell.cond, List.length_cons, List.length_append] at hd
    obtain ⟨d, rfl⟩ : ∃ m, d = m + 1 := ⟨d - 1, by omega⟩
    have h := hhead (d := d) (by omega) (by omega) fun first c b' hc hb =>
      (settles_elseBranch (hno b rfl) (d := d) (by omega) hrest first c b').mono fun x => by
        rw [hiff, hc, hb, and_assoc]
        rfl
    rwa [← Bool.and_assoc] at h

/-! ### Functions -/

theorem RereadFunction.of_body {sp : Span} {name : Text} {params : List Param}
    {result : Option TypeExpr} {body : Block} (hp : params.all Param.isSpellable = true)
    (hr : result.all TypeExpr.isSpellable = true) (hb : RereadBlock body) :
    RereadFunction ⟨sp, name, params, result, body⟩ := by
  intro d n rest hd hn
  simp only [Spell.function, List.length_cons, List.length_append] at hd hn
  rw [namedFunction, Spell.function]
  refine .advance fun _ _ => .expectName (.last (Reread.settles_signature hp hr hb (by omega)
    (by omega) rest) (fun f hf => ?_) fun f hf => ?_)
  · refine .spanFrom fun _ => .pure ?_
    change FunctionDecl.mk {} name (f.1.map _) (f.2.1.map _) (Bare.block f.2.2) = _
    rw [hf.1, hf.2.1, hf.2.2]
    rfl
  · refine .bind fun _ => .pure fun heq => hf ?_
    have := FunctionDecl.mk.inj heq
    exact ⟨this.2.2.1, this.2.2.2.1, this.2.2.2.2⟩

namespace RereadStmt

variable {sp : Span}

theorem block {b : Block} (h : RereadBlock b) : RereadStmt (.block b) := by
  refine .of_statement ?_ fun d hd rest _ => ?_
  · rw [Spell.stmt, ← List.append_nil (Spell.block b), Spell.first_block]
    decide
  · have hread := h d rest hd
    rw [statement]
    refine .peekKind fun t ht => ?_
    rw [Spell.stmt, Spell.first_block] at ht
    rw [ht]
    refine hread.map fun c => ⟨fun hc => congrArg Stmt.block hc, fun hc => Stmt.block.inj hc⟩

theorem cond {c : IfStmt} (h : RereadCond c) : RereadStmt (.cond c) := by
  have hfirst (r : List Lexeme) : Lexeme.first (Spell.cond c ++ r) = .kwIf := by
    obtain ⟨s, c, b, _ | n⟩ := c <;> rfl
  refine .of_statement ?_ fun d hd rest hrest => ?_
  · rw [Spell.stmt, ← List.append_nil (Spell.cond c), hfirst]
    decide
  · have hread := h d rest hd fun hk => hrest (by simp [hk])
    rw [statement]
    refine .peekKind fun t ht => ?_
    rw [Spell.stmt, hfirst] at ht
    rw [ht]
    refine hread.map fun c => ⟨fun hc => congrArg Stmt.cond hc, fun hc => Stmt.cond.inj hc⟩

theorem choose {m : MatchExpr} (h : RereadChoice m) : RereadStmt (.choose sp m) := by
  have hfirst (r : List Lexeme) : Lexeme.first (Spell.choice m ++ r) = .kwMatch := by
    obtain ⟨s, c, as⟩ := m
    rfl
  refine .of_statement ?_ fun d hd rest hrest => ?_
  · rw [Spell.stmt, ← List.append_nil (Spell.choice m), hfirst]
    decide
  · have hread := h d rest (Nat.le_succ_of_le hd)
    rw [statement]
    refine .peekKind fun t ht => ?_
    rw [Spell.stmt, hfirst] at ht
    rw [ht]
    change Settles (chooseStmt _ _) _ _ (true && Every.choice .legible m) _
    rw [chooseStmt, Bool.true_and]
    refine .peekKind fun t _ => .last hread (fun c hc => ?_) fun c hc => ?_
    · refine .noSkip (fun hk => hrest (by simp_all)) (.spanFrom fun _ => .pure ?_)
      change Stmt.choose {} (Bare.choice c) = .choose {} (Bare.choice m)
      rw [hc]
    · exact .bind fun _ => .bind fun _ => .pure fun heq => hc (Stmt.choose.inj heq).2

theorem function {f : FunctionDecl} (h : RereadFunction f) : RereadStmt (.function f) := by
  have hspell : ∃ r, Spell.function f = Kind.kwFn.lexeme :: .ident f.name :: r := by
    obtain ⟨s, name, params, result, body⟩ := f
    exact ⟨_, rfl⟩
  obtain ⟨r, hr⟩ := hspell
  refine .of_statement ?_ fun d hd rest hrest => ?_
  · rw [Spell.stmt, hr]
    simp [Lexeme.first, Kind.lexeme]
  · rw [Spell.stmt] at hd ⊢
    have hread := h d d rest hd (by omega)
    rw [hr] at hread ⊢
    rw [statement]
    refine .peek fun t ht => ?_
    rw [show t.kind = .kwFn from congrArg Lexeme.kind ht]
    refine .get fun s hs => ?_
    rw [Settles.second_ahead hs]
    exact hread.map fun c => ⟨fun hc => congrArg Stmt.function hc, fun hc => Stmt.function.inj hc⟩

/-! ### Loops -/

theorem whileLoop {e : Expr} {body : Block} (he : Reread e) (hb : RereadBlock body) :
    RereadStmt (.whileLoop sp e body) := by
  refine .of_statement (by simp [Lexeme.first, Kind.lexeme]) fun d hd rest _ => ?_
  simp only [Spell.stmt, List.length_cons, List.length_append] at hd
  rw [statement, Spell.stmt]
  refine .peek fun t ht => ?_
  rw [show t.kind = .kwWhile from congrArg Lexeme.kind ht]
  change Settles (whileStmt _) _ _ (Every.expr .legible e && Every.block .legible body) _
  rw [whileStmt]
  refine .advance fun _ _ => .bind (settles_exprBlock he body (by omega) _) (fun c hc =>
    .last (hb d rest (by omega)) (fun b hb => ?_) fun b hb => ?_) fun c hc => ?_
  · refine .spanFrom fun _ => .pure ?_
    change Stmt.whileLoop {} c.bare (Bare.block b) = .whileLoop {} e.bare (Bare.block body)
    rw [hc, hb]
  · exact .bind fun _ => .pure fun heq => hb (Stmt.whileLoop.inj heq).2.2
  · exact .bind fun _ => .bind fun _ => .pure fun heq => hc (Stmt.whileLoop.inj heq).2.1

theorem foreachLoop {value index : Text} {e : Expr} {body : Block} (he : Reread e)
    (hb : RereadBlock body) : RereadStmt (.foreachLoop sp value index e body) := by
  refine .of_statement (by simp [Lexeme.first, Kind.lexeme]) fun d hd rest _ => ?_
  simp only [Spell.stmt, List.length_cons, List.length_append] at hd
  rw [statement, Spell.stmt]
  refine .peek fun t ht => ?_
  rw [show t.kind = .kwForeach from congrArg Lexeme.kind ht]
  change Settles (foreachStmt _) _ _ (Every.expr .legible e && Every.block .legible body) _
  rw [foreachStmt]
  have htail (first : Span) : Settles (expect .kwIn >>= fun _ => (Rules.ofDepth d).expr 0 >>= fun c =>
      (Rules.ofDepth d).block >>= fun b => spanFrom first >>= fun sp =>
        pure (Stmt.foreachLoop sp value index c b))
      (Kind.kwIn.lexeme :: (Spell.expr e ++ Spell.block body)) rest
      (Every.expr .legible e && Every.block .legible body)
      fun s => Bare.stmt s = Bare.stmt (.foreachLoop sp value index e body) := by
    refine .expect rfl fun _ _ => .bind (settles_exprBlock he body (by omega) _) (fun c hc =>
      .last (hb d rest (by omega)) (fun b hb => ?_) fun b hb => ?_) fun c hc => ?_
    · refine .spanFrom fun _ => .pure ?_
      change Stmt.foreachLoop {} value index c.bare (Bare.block b) =
        .foreachLoop {} value index e.bare (Bare.block body)
      rw [hc, hb]
    · exact .bind fun _ => .pure fun heq => hb (Stmt.foreachLoop.inj heq).2.2.2.2
    · exact .bind fun _ => .bind fun _ => .pure fun heq => hc (Stmt.foreachLoop.inj heq).2.2.2.1
  refine .advance fun first _ => .expectName ?_
  cases index with
  | nil => exact .skipElse (by rintro ⟨⟩) (.pureBind (htail first.span))
  | cons b r => exact .skipThen rfl (.expectName (htail first.span))

/-! ### Declarations -/

/-- The rest of a declaration from behind its annotation. -/
def valueReader (rules : Rules) (word : Token) (name : Text) (type : Option TypeExpr) :
    Parser Stmt := do
  let value ← if ← skip .assign then
      let e ← rules.expr 0
      pure (some e)
    else pure none
  let _ ← expect .semicolon
  return .declare (← spanFrom word.span) name (word.kind == .kwConst) type value

/-- A declaration up to its annotation. -/
theorem settles_declaration {constant : Bool} {type : Option TypeExpr}
    (htype : type.all TypeExpr.isSpellable = true) {d : Nat}
    (hd : (Spell.ascription type).length ≤ d) {ls rest : List Lexeme}
    (hcolon : Lexeme.first (ls ++ rest) ≠ .colon) {good : Bool} {P : Stmt → Prop} (name : Text)
    (h : ∀ (word : Token) (t : Option TypeExpr), (word.kind == .kwConst) = constant →
      t.map TypeExpr.bare = type.map TypeExpr.bare →
      Settles (valueReader (Rules.ofDepth d) word name t) ls rest good P) :
    Settles (statement (Rules.ofDepth d) d)
      ((if constant then Kind.kwConst.lexeme else Kind.kwLet.lexeme) :: .ident name ::
        (Spell.ascription type ++ ls)) rest good P := by
  rw [statement]
  cases constant <;> refine .peek fun t ht => ?_ <;> rw [show t.kind = _ from congrArg Lexeme.kind ht]
  all_goals
    refine .advance fun word hw => .expectName (.seq (settles_ascription htype hd hcolon)
      fun t ht => h word t ?_ ht)
    rw [show word.kind = _ from congrArg Lexeme.kind hw]
    rfl

theorem declare {name : Text} {constant : Bool} {type : Option TypeExpr}
    (htype : type.all TypeExpr.isSpellable = true) :
    RereadStmt (.declare sp name constant type none) := by
  refine .of_statement ?_ fun d hd rest _ => ?_
  · cases constant <;> simp [Lexeme.first, Kind.lexeme]
  simp only [Spell.stmt, List.length_cons, List.length_append] at hd
  refine settles_declaration htype (by omega) ?_ name fun word t hw ht => ?_
  · rintro ⟨⟩
  refine .skipElse (by rintro ⟨⟩) (.pureBind (.expect rfl fun _ _ => .spanFrom fun _ => .pure ?_))
  simp [Bare.stmt, hw, ht]

theorem declareAs {name : Text} {constant : Bool} {type : Option TypeExpr} {e : Expr}
    (htype : type.all TypeExpr.isSpellable = true) (he : Reread e) :
    RereadStmt (.declare sp name constant type (some e)) := by
  refine .of_statement ?_ fun d hd rest _ => ?_
  · cases constant <;> simp [Lexeme.first, Kind.lexeme]
  simp only [Spell.stmt, List.length_cons, List.length_append] at hd
  change Settles _ _ _ (true && Every.expr .legible e) _
  rw [Bool.true_and]
  refine settles_declaration htype (by omega) ?_ name fun word t hw ht => ?_
  · rintro ⟨⟩
  refine .skipThen rfl (.closed (settles_expr he (by omega) rest) (fun c hc => ?_) fun c hc => ?_)
  · refine .pureBind (.expect rfl fun _ _ => .spanFrom fun _ => .pure ?_)
    change Stmt.declare {} name _ (t.map _) (some c.bare) = .declare {} name _ _ (some e.bare)
    rw [hw, ht, hc]
  · refine .pureBind (.bind fun _ => .bind fun _ => .pure fun heq => hc ?_)
    exact Option.some.inj (Stmt.declare.inj heq).2.2.2.2

/-! ### Imports -/

/-- The rest of an import from behind what it names. -/
def pathReader (first : Span) (name : Text) (wildcard : Bool) : Parser Stmt := do
  let path ← if ← skip .kwFrom then
      let t ← expect .string
      pure t.value
    else if wildcard then fail .expectedFrom
    else pure []
  let _ ← expect .semicolon
  return .importing (← spanFrom first) name wildcard path

theorem settles_path (first : Span) (name : Text) (wildcard : Bool) (path : Text)
    (rest : List Lexeme) :
    Settles (pathReader first name wildcard)
      ((if path.isEmpty then [] else [Kind.kwFrom.lexeme, .string (Text.mend path)]) ++
        [Kind.semicolon.lexeme]) rest (path.isWellFormed && !(wildcard && path.isEmpty))
      fun s => Bare.stmt s = .importing {} name wildcard path := by
  cases path with
  | nil =>
    refine .skipElse nofun ?_
    cases wildcard with
    | false => exact .pureBind (.expect rfl fun _ _ => .spanFrom fun _ => .pure rfl)
    | true => exact .never (fun _ _ _ h => nomatch h)
  | cons b r =>
    refine .skipThen rfl (.expect rfl fun t ht => .pureBind (.expect rfl fun _ _ =>
      .spanFrom fun _ => .pure_iff ?_))
    rw [show t.value = Text.mend (b :: r) from congrArg Lexeme.value ht]
    simp [Bare.stmt, Text.isWellFormed]

theorem importing {name path : Text} {wildcard : Bool} (hname : wildcard = true → name = []) :
    RereadStmt (.importing sp name wildcard path) := by
  refine .of_statement (by simp [Lexeme.first, Kind.lexeme]) fun d _ rest _ => ?_
  rw [statement, Spell.stmt]
  refine .peek fun t ht => ?_
  rw [show t.kind = .kwImport from congrArg Lexeme.kind ht]
  change Settles importStmt _ _ (path.isWellFormed && !(wildcard && path.isEmpty)) _
  rw [importStmt]
  refine .advance fun first _ => ?_
  have hpath := settles_path first.span name wildcard path rest
  cases wildcard with
  | true =>
    obtain rfl := hname rfl
    exact .skip rfl (.pureBind hpath)
  | false => exact .noSkip (by rintro ⟨⟩) (.expectName hpath)

/-! ### Structs and enumerations -/

theorem enum {name : Text} {members : List Text} : RereadStmt (.enum sp name members) := by
  refine .of_statement (by simp [Lexeme.first, Kind.lexeme]) fun d hd rest _ => ?_
  simp only [Spell.stmt, List.length_cons, List.length_append, List.length_nil] at hd
  have hcount := Spell.count_le_commas (members.map fun m => [Lexeme.ident m]) (by simp)
  rw [List.length_map] at hcount
  have hlist : Settles (commaList .rbrace expectName d)
      (Spell.commas (members.map fun m => [.ident m])) (Kind.rbrace.lexeme :: rest)
      (members.all fun _ => true) fun ms => ms.map id = members.map id := by
    refine settles_commaList (c := .rbrace) (by rintro ⟨⟩) rfl members d (by omega)
      (fun m _ => ⟨by rintro ⟨⟩, List.cons_ne_nil _ _⟩) fun m _ r _ => ?_
    have hname : Settles (expectName >>= fun n => pure n) [.ident m] r true fun n => id n = id m :=
      .expectName (.pure rfl)
    rwa [bind_pure] at hname
  rw [List.all_eq_true.2 fun _ _ => rfl] at hlist
  rw [statement, Spell.stmt]
  refine .peek fun t ht => ?_
  rw [show t.kind = .kwEnum from congrArg Lexeme.kind ht]
  change Settles (enumDecl _) _ _ true _
  rw [enumDecl]
  refine .advance fun _ _ => .expectName (.expect rfl fun _ _ => .seq hlist fun ms hms => ?_)
  refine .expect rfl fun _ _ => .spanFrom fun _ => .pure ?_
  simpa [Bare.stmt] using hms

/-- The methods of a struct. -/
theorem settles_methods {d : Nat} {rest : List Lexeme} (hrest : Lexeme.first rest = .rbrace) :
    ∀ (ms : List FunctionDecl) (n : Nat), (Spell.functions ms).length < n →
      (∀ m ∈ ms, RereadFunction m) → 4 * (Spell.functions ms).length ≤ d →
      Settles (members (Rules.ofDepth d) n) (Spell.functions ms) rest (Every.functions .legible ms)
        fun r => r.1.map Param.bare = [] ∧ Bare.functions r.2 = Bare.functions ms := by
  intro ms
  induction ms with
  | nil =>
    intro n hn _ _
    obtain ⟨n, rfl⟩ := Nat.exists_eq_add_one_of_ne_zero (Nat.ne_of_gt hn)
    rw [members]
    exact .seesThen hrest (.pure ⟨rfl, rfl⟩)
  | cons m ms ih =>
    intro n hn h hd
    obtain ⟨n, rfl⟩ := Nat.exists_eq_add_one_of_ne_zero (Nat.ne_of_gt (Nat.zero_lt_of_lt hn))
    have hfirst (r : List Lexeme) : Lexeme.first (Spell.function m ++ r) = .kwFn ∧
        0 < (Spell.function m).length := by
      obtain ⟨s, name, params, result, body⟩ := m
      exact ⟨rfl, Nat.zero_lt_succ _⟩
    simp only [Spell.functions, List.length_append] at hd hn
    have hpos := (hfirst []).2
    rw [members, Spell.functions, Every.functions]
    refine .seesElse (fun hk => ?_) (.seesThen ?_ ?_)
    · rw [List.append_assoc, (hfirst _).1] at hk
      cases hk
    · rw [List.append_assoc, (hfirst _).1]
    · refine .bind (h m (by simp) d n _ (by omega) (by omega)) (fun g hg => .last (ih n (by omega)
        (fun x hx => h x (by simp [hx])) (by omega)) (fun r hr => .pure ?_) fun r hr => .pure ?_)
        fun g hg => .bind fun r => .pure ?_
      · exact ⟨hr.1, congrArg₂ List.cons hg hr.2⟩
      · exact fun heq => hr ⟨heq.1, (List.cons.inj heq.2).2⟩
      · exact fun heq => hg (List.cons.inj heq.2).1

/-- The fields of a struct and then its methods. -/
theorem settles_members {d : Nat} {rest : List Lexeme} (hrest : Lexeme.first rest = .rbrace)
    {ms : List FunctionDecl} (h : ∀ m ∈ ms, RereadFunction m)
    (hd : 4 * (Spell.functions ms).length ≤ d) :
    ∀ (fs : List Param) (n : Nat), (Spell.fields fs).length + (Spell.functions ms).length < n →
      fs.all Param.isSpellable = true →
      Settles (members (Rules.ofDepth d) n) (Spell.fields fs ++ Spell.functions ms) rest
        (Every.functions .legible ms)
        fun r => r.1.map Param.bare = fs.map Param.bare ∧ Bare.functions r.2 = Bare.functions ms := by
  intro fs
  induction fs with
  | nil => exact fun n hn _ => settles_methods hrest ms n (by omega) h hd
  | cons f fs ih =>
    intro n hn hs
    obtain ⟨n, rfl⟩ := Nat.exists_eq_add_one_of_ne_zero (Nat.ne_of_gt (Nat.zero_lt_of_lt hn))
    simp only [List.all_cons, Bool.and_eq_true] at hs
    have hspell : Spell.fields (f :: fs) ++ Spell.functions ms =
        Spell.param f ++ Kind.semicolon.lexeme :: (Spell.fields fs ++ Spell.functions ms) := by
      simp [Spell.fields]
    have hlen := congrArg List.length hspell
    simp only [List.length_append, List.length_cons] at hlen
    rw [members, hspell]
    refine .seesElse nofun (.seesElse nofun (.seq (settles_param hs.1 (by omega) ?_) fun p hp => ?_))
    · exact nofun
    · refine .noSkip nofun (.expect rfl fun _ _ => .last (ih n (by omega) hs.2)
        (fun r hr => .pure ?_) fun r hr => .pure ?_)
      · exact ⟨congrArg₂ List.cons hp hr.1, hr.2⟩
      · exact fun heq => hr ⟨(List.cons.inj heq.1).2, heq.2⟩

theorem struct {name : Text} {fields : List Param} {methods : List FunctionDecl}
    (hfields : fields.all Param.isSpellable = true) (h : ∀ m ∈ methods, RereadFunction m) :
    RereadStmt (.struct sp name fields methods) := by
  refine .of_statement (by simp [Lexeme.first, Kind.lexeme]) fun d hd rest _ => ?_
  simp only [Spell.stmt, List.length_cons, List.length_append, List.length_nil] at hd
  rw [statement, Spell.stmt, ← List.append_assoc (Spell.fields fields)]
  refine .peek fun t ht => ?_
  rw [show t.kind = .kwStruct from congrArg Lexeme.kind ht]
  change Settles (structDecl _ _) _ _ (true && Every.functions .legible methods) _
  rw [structDecl, Bool.true_and]
  refine .advance fun _ _ => .expectName (.expect rfl fun _ _ => .closed (settles_members rfl h
    (by omega) fields d (by omega) hfields) (fun r hr => ?_) fun r hr => ?_)
  · refine .advance fun _ _ => .spanFrom fun _ => .pure ?_
    change Stmt.struct {} name (r.1.map _) (Bare.functions r.2) = .struct {} name _ _
    rw [hr.1, hr.2]
  · refine .bind fun _ => .bind fun _ => .pure fun heq => hr ?_
    exact (Stmt.struct.inj heq).2.2

end RereadStmt

end ScriptLang
