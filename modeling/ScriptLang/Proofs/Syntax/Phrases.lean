import ScriptLang.Proofs.Syntax.Operands
import ScriptLang.Proofs.Token.Genuine

/-!
# Literals, functions, arms and statements, read back

The same step from parts to the whole as for operators, for all other phrases: literals and the
operands with a mark or a word of their own, the arms of a choice, and statements.
-/

namespace ScriptLang

open ScriptLang.Parser ScriptLang.Expr

/-- A block that is read back from its lexemes or, if it is not legible, is not. -/
def RereadBlock (b : Block) : Prop :=
  ∀ (d : Nat) (rest : List Lexeme), 4 * (Spell.block b).length ≤ d →
    Settles (Rules.ofDepth d).block (Spell.block b) rest (Every.block .legible b)
      fun c => Bare.block c = Bare.block b

/-- The same for a choice. -/
def RereadChoice (m : MatchExpr) : Prop :=
  ∀ (d : Nat) (rest : List Lexeme), 4 * (Spell.choice m).length ≤ d + 1 →
    Settles (choice (Rules.ofDepth d) d) (Spell.choice m) rest (Every.choice .legible m)
      fun c => Bare.choice c = Bare.choice m

namespace Reread

variable {sp : Span}

/-! ### Literals and names -/

/-- An operand of one token. -/
theorem of_token {e : Expr} {l : Lexeme} (hspell : Spell.expr e = [l]) (hk : l.kind ≠ .lparen)
    (hleaf : e.left? = none) (hp : Print.precedence e = 100) (hc : Print.isOperandChain e = true)
    (h : ∀ d rest, Settles (Parser.operand (Rules.ofDepth d) d) [l] rest (Every.expr .legible e)
      fun o => o.bare = e.bare) : Reread e := by
  refine .of_operand (by simp [hspell]) hp hc ?_
  rw [hspell]
  exact .of_settles hleaf hk (by simp) fun d _ rest _ => h d rest

theorem number {v : Float} (h : Number.isLiteral v = true) : Reread (.number sp v) := by
  refine .of_token rfl nofun rfl rfl rfl fun d rest => ?_
  rw [Parser.operand]
  refine .peek fun t ht => ?_
  rw [show t.kind = .number from congrArg Lexeme.kind ht]
  change Settles numberLiteral _ _ _ _
  rw [numberLiteral]
  refine .peek fun t ht => ?_
  have hv : Number.read? t.value = some v := by
    rw [show t.value = Number.source v from congrArg Lexeme.value ht]
    exact Number.read?_source h
  rw [hv]
  exact .advance fun _ _ => .pure rfl

theorem string (v : Text) : Reread (.string sp v) := by
  refine .of_token rfl nofun rfl rfl rfl fun d rest => ?_
  rw [Parser.operand]
  refine .peek fun t ht => ?_
  rw [show t.kind = .string from congrArg Lexeme.kind ht,
    show t.value = Text.mend v from congrArg Lexeme.value ht]
  refine .advance fun _ _ => .pure_iff ?_
  change Expr.string {} (Text.mend v) = .string {} v ↔ (Text.mend v == v) = true
  simp

theorem bool (b : Bool) : Reread (.bool sp b) := by
  cases b <;> refine .of_token rfl nofun rfl rfl rfl fun d rest => ?_ <;> rw [Parser.operand] <;>
    refine .peek fun t ht => ?_ <;> rw [show t.kind = _ from congrArg Lexeme.kind ht] <;>
    exact .advance fun _ _ => .pure rfl

theorem nil : Reread (.nil sp) := by
  refine .of_token rfl nofun rfl rfl rfl fun d rest => ?_
  rw [Parser.operand]
  refine .peek fun t ht => ?_
  rw [show t.kind = .kwNil from congrArg Lexeme.kind ht]
  exact .advance fun _ _ => .pure rfl

theorem ident (name : Text) : Reread (.ident sp name) := by
  refine .of_token rfl nofun rfl rfl rfl fun d rest => ?_
  rw [Parser.operand]
  refine .peek fun t ht => ?_
  rw [show t.kind = .ident from congrArg Lexeme.kind ht,
    show t.value = name from congrArg Lexeme.value ht]
  exact .advance fun _ _ => .pure rfl

/-! ### Operands with parts -/

theorem array {es : List Expr} (hs : Every.exprs .spellable es = true) (h : ∀ e ∈ es, Reread e) :
    Reread (.array sp es) := by
  refine .of_operand (by simp [Spell.expr]) rfl rfl (.of_settles rfl (by rintro ⟨⟩) (by simp [Spell.expr]) ?_)
  intro d hd rest _
  simp only [Spell.expr, List.length_cons, List.length_append, List.length_nil] at hd
  rw [Parser.operand, Spell.expr]
  refine .peek fun t ht => ?_
  rw [show t.kind = .lbracket from congrArg Lexeme.kind ht]
  change Settles (arrayLiteral _ _) _ _ _ _
  rw [arrayLiteral]
  refine .advance fun _ _ => .closed
    (settles_exprs (by omega) (by omega) hs h rfl (by rintro ⟨⟩) rfl rfl) (fun es' hes => ?_)
    fun es' hes => ?_
  · refine .expect rfl fun _ _ => .spanFrom fun _ => .pure ?_
    change Expr.array {} (Bare.exprs es') = .array {} (Bare.exprs es)
    rw [hes]
  · exact .bind fun _ => .bind fun _ => .pure fun h => hes (Expr.array.inj h).2

theorem unary {op : UnaryOp} {e : Expr} (hs : Every.expr .spellable (.unary sp op e) = true)
    (h : Reread e) : Reread (.unary sp op e) := by
  simp only [Every.expr, NodeRule.spellable, Bool.and_eq_true, List.contains_iff_mem] at hs
  obtain ⟨hparen, hoperand, hspell⟩ := Spell.unary_read op hs.1
  have hclimbs : Climbs (Spell.expr (.unary sp op e)) 60 60 (Every.expr .legible e)
      (.unary sp op e) := by
    refine Operand.climbs 60 (by simp [Spell.expr]) (.of_settles rfl hparen (by simp [Spell.expr]) ?_)
    intro d hd rest hf
    simp only [Spell.expr, List.length_cons] at hd
    have hr := h.climbs.settles_parens (Print.precedence e < 60) (Spell.precedence_le_edge e)
      (d := d) (m := Power.unary) (by omega) (by simp [Power.unary]; split <;> omega) hf
    have hunary : Settles (Parser.unary (Rules.ofDepth d)) (Spell.expr (.unary sp op e)) rest
        (Every.expr .legible e) fun o => o.bare = (Expr.unary sp op e).bare := by
      rw [Parser.unary, Spell.expr]
      refine .advance fun t ht => .last hr (fun c hc => ?_) fun c hc => ?_
      · rw [show t.value = op.kind.name from congrArg Lexeme.value ht, hspell]
        refine .spanFrom fun _ => .pure ?_
        change Expr.unary {} op c.bare = .unary {} op e.bare
        rw [hc]
      · exact .bind fun _ => .pure fun h => hc (Expr.unary.inj h).2.2
    rw [Spell.expr] at hunary ⊢
    rw [Parser.operand]
    refine .peek fun t ht => ?_
    rw [show t.kind = op.kind from congrArg Lexeme.kind ht]
    simp only [List.mem_cons, List.not_mem_nil, or_false] at hoperand
    rcases hoperand with hk | hk | hk | hk <;> rw [hk] at hunary ⊢ <;> exact hunary
  have hloose : ¬70 ≤ 60 := by decide
  exact ⟨hclimbs, fun h => absurd h hloose, fun h => absurd h hloose⟩

/-- A key with its value. -/
theorem settles_entry {k : Text} {e : Expr} (h : Reread e)
    {d : Nat} (hd : 4 * (Spell.expr e).length < d) {rest : List Lexeme}
    (hrest : (Lexeme.first rest).power? = none) :
    Settles (entry (Rules.ofDepth d)) (Spell.entry (k, e)) rest
      ((Print.isWord k || k.isWellFormed) && Every.expr .legible e)
      fun q => (q.1, q.2.bare) = (k, e.bare) := by
  have hkind : ((Spell.key k).kind == .ident || (Spell.key k).kind == .string ||
      (Spell.key k).kind.isKeyword) = true := by
    rw [Spell.key]
    split
    · have := ofWord_class k
      simp only [Lexeme.word]
      revert this
      cases Kind.ofWord k == .ident <;> cases (Kind.ofWord k).isKeyword <;> simp
    · rfl
  have hvalue : (Spell.key k).value = k ↔ (Print.isWord k || k.isWellFormed) = true := by
    rw [Spell.key]
    by_cases hk : Print.isWord k = true
    · simp [hk, Lexeme.word]
    · simp [hk, Lexeme.string, Text.isWellFormed]
  rw [entry, Spell.entry]
  refine .peek fun t ht => ?_
  rw [show t.kind = (Spell.key k).kind from congrArg Lexeme.kind ht, if_pos hkind,
    show t.value = (Spell.key k).value from congrArg Lexeme.value ht]
  cases hok : Print.isWord k || k.isWellFormed with
  | true =>
    refine .advance fun _ _ => .expect rfl fun _ _ => ?_
    rw [hvalue.2 hok, Bool.true_and]
    exact (h.climbs.settles (Spell.precedence_le_edge e) hd (Nat.zero_le _) (.of_none hrest 0)).map
      fun c => by simp
  | false =>
    refine .never (.bind fun _ => .bind fun _ => .bind fun c => .pure fun heq => ?_)
    rw [hvalue.1 (Prod.mk.inj heq).1] at hok
    cases hok

theorem all_and_all {α : Type} (p q : α → Bool) (as : List α) :
    (as.all p && as.all q) = as.all fun a => p a && q a := by
  induction as with
  | nil => rfl
  | cons a as ih =>
    simp only [List.all_cons, ← ih]
    cases p a <;> cases q a <;> simp

theorem object {es : List (Text × Expr)} (h : ∀ p ∈ es, Reread p.2) : Reread (.object sp es) := by
  refine .of_operand (by simp [Spell.expr]) rfl rfl (.of_settles rfl nofun (by simp [Spell.expr]) ?_)
  intro d hd rest _
  simp only [Spell.expr, List.length_cons, List.length_append, List.length_nil,
    Spell.entries_eq_commas] at hd
  have hcount := Spell.count_le_commas (es.map Spell.entry) (by
    intro ls hls
    obtain ⟨p, hp, rfl⟩ := List.mem_map.1 hls
    exact nofun)
  rw [List.length_map] at hcount
  have hlist : Settles (commaList .rbrace (entry (Rules.ofDepth d)) d)
      (Spell.commas (es.map Spell.entry)) (Kind.rbrace.lexeme :: rest)
      (es.all fun p => (Print.isWord p.1 || p.1.isWellFormed) && Every.expr .legible p.2)
      fun qs => Bare.entries qs = Bare.entries es := by
    simp only [Bare.entries_eq_map]
    refine settles_commaList (c := .rbrace) nofun rfl es d (by omega)
      (fun p hp => ⟨?_, by simp [Spell.entry]⟩) fun p hp r hr => ?_
    · intro hf
      have hclass := ofWord_class p.1
      simp only [Spell.entry, Lexeme.first, Spell.key, List.head?_cons, Option.map_some,
        Option.getD_some] at hf
      split at hf
      · simp only [Lexeme.word] at hf
        rw [hf] at hclass
        cases hclass
      · cases hf
    · have hlen := Spell.length_le_commas (List.mem_map_of_mem hp (f := Spell.entry))
      simp only [Spell.entry, List.length_cons] at hlen
      refine settles_entry (h p hp) (by omega) ?_
      rcases hr with hr | hr <;> rw [hr] <;> rfl
  rw [Parser.operand, Spell.expr, Spell.entries_eq_commas]
  refine .peek fun t ht => ?_
  rw [show t.kind = .lbrace from congrArg Lexeme.kind ht]
  change Settles (objectLiteral _ _) _ _ (es.all _ && Every.entries .legible es) _
  rw [Every.entries_eq_all, all_and_all, objectLiteral]
  refine .advance fun _ _ => .closed hlist (fun qs hqs => ?_) fun qs hqs => ?_
  · refine .expect rfl fun _ _ => .spanFrom fun _ => .pure ?_
    change Expr.object {} (Bare.entries qs) = .object {} (Bare.entries es)
    rw [hqs]
  · exact .bind fun _ => .bind fun _ => .pure fun h => hqs (Expr.object.inj h).2

/-! ### Functions and choices -/

/-- The parameters, the annotation of the result and the body of a function. -/
theorem settles_signature {params : List Param} {result : Option TypeExpr} {body : Block}
    (hp : params.all Param.isSpellable = true) (hr : result.all TypeExpr.isSpellable = true)
    (hb : RereadBlock body) {d n : Nat} (hd : 4 * (Spell.block body).length ≤ d)
    (hn : (Spell.signature params result).length ≤ n) (rest : List Lexeme) :
    Settles (signature (Rules.ofDepth d) n) (Spell.signature params result ++ Spell.block body) rest
      (Every.block .legible body) fun f => f.1.map Param.bare = params.map Param.bare ∧
        f.2.1.map TypeExpr.bare = result.map TypeExpr.bare ∧ Bare.block f.2.2 = Bare.block body := by
  simp only [Spell.signature, List.length_cons, List.length_append] at hn
  have hcount := Spell.count_le_commas (params.map Spell.param) (by
    intro ls hls
    obtain ⟨p, hp, rfl⟩ := List.mem_map.1 hls
    simp [Spell.param])
  rw [List.length_map] at hcount
  have hparams : ∀ r, Settles (commaList .rparen (param n) n) (Spell.commas (params.map Spell.param))
      (Kind.rparen.lexeme :: r) true fun ps => ps.map Param.bare = params.map Param.bare := by
    intro r
    have hlist : Settles (commaList .rparen (param n) n) (Spell.commas (params.map Spell.param))
        (Kind.rparen.lexeme :: r) (params.all fun _ => true)
        fun ps => ps.map Param.bare = params.map Param.bare := by
      refine settles_commaList (c := .rparen) (by rintro ⟨⟩) rfl params n (by omega)
        (fun p _ => ⟨by rintro ⟨⟩, by simp [Spell.param]⟩) fun p hm r hr => ?_
      have hlen := Spell.length_le_commas (List.mem_map_of_mem hm (f := Spell.param))
      refine settles_param (List.all_eq_true.1 hp p hm) (by omega) ?_
      rcases hr with hr | hr <;> rw [hr] <;> rintro ⟨⟩
    rwa [List.all_eq_true.2 fun _ _ => rfl] at hlist
  rw [signature, Spell.signature]
  simp only [List.cons_append, List.append_assoc]
  refine .expect rfl fun _ _ => .seq (hparams _) fun ps hps => .expect rfl fun _ _ => ?_
  refine .seq (settles_ascription hr (by omega) ?_) fun res hres => ?_
  · obtain ⟨s, ss⟩ := body
    rintro ⟨⟩
  · exact (hb d rest (by omega)).map fun b => by simp [hps, hres]

theorem function {body : Block} {params : List Param} {result : Option TypeExpr}
    (hs : Every.expr .spellable (.function ⟨sp, [], params, result, body⟩) = true)
    (hb : RereadBlock body) : Reread (.function ⟨sp, [], params, result, body⟩) := by
  simp only [Every.expr, Every.function, NodeRule.spellable, Bool.and_eq_true] at hs
  obtain ⟨-, ⟨hp, hr⟩, -⟩ := hs
  refine .of_operand (by simp [Spell.expr]) rfl rfl (.of_settles rfl (by rintro ⟨⟩) (by simp [Spell.expr]) ?_)
  intro d hd rest _
  simp only [Spell.expr, List.length_cons, List.length_append] at hd
  rw [Parser.operand, Spell.expr]
  refine .peek fun t ht => ?_
  rw [show t.kind = .kwFn from congrArg Lexeme.kind ht]
  change Settles (functionLiteral _ _) _ _ _ _
  rw [functionLiteral]
  refine .advance fun _ _ => .last (settles_signature hp hr hb (by omega) (by omega) rest) (fun f hf => ?_)
    fun f hf => ?_
  · refine .spanFrom fun _ => .pure ?_
    change Expr.function ⟨{}, [], f.1.map _, f.2.1.map _, Bare.block f.2.2⟩ = _
    rw [hf.1, hf.2.1, hf.2.2]
    rfl
  · refine .bind fun _ => .pure fun h => hf ?_
    have := FunctionDecl.mk.inj (Expr.function.inj h)
    exact ⟨this.2.2.1, this.2.2.2.1, this.2.2.2.2⟩

theorem choose {m : MatchExpr} (h : RereadChoice m) : Reread (.choose m) := by
  obtain ⟨s, subject, list⟩ := m
  refine .of_operand (by simp [Spell.expr, Spell.choice]) rfl rfl
    (.of_settles rfl nofun (by simp [Spell.expr, Spell.choice]) ?_)
  intro d hd rest _
  have hm := h d rest (by simpa [Spell.expr] using hd)
  rw [Spell.expr, Spell.choice] at *
  rw [Parser.operand]
  refine .peek fun t ht => ?_
  rw [show t.kind = .kwMatch from congrArg Lexeme.kind ht]
  exact hm.map fun c => ⟨fun hc => congrArg Expr.choose hc, fun hc => Expr.choose.inj hc⟩

/-- The struct after `new`, before its arguments. -/
theorem settles_callee {c : Expr} (h : Reread c) {d n : Nat}
    (hd : 4 * (Spell.parens (!Print.isPlainCallee c) (Spell.expr c)).length ≤ d)
    (hn : (Spell.parens (!Print.isPlainCallee c) (Spell.expr c)).length ≤ n) {rest : List Lexeme}
    (hrest : Lexeme.first rest ≠ .dot) :
    Settles ((Rules.ofDepth d).operand >>= properties n)
      (Spell.parens (!Print.isPlainCallee c) (Spell.expr c)) rest
      ((!Print.isPlainCallee c || Print.isOperandChain c) && Every.expr .legible c)
      fun e => e.bare = c.bare := by
  refine Chains.settles ?_ hd hn hrest
  cases hc : Print.isPlainCallee c with
  | true =>
    have htight : 70 ≤ Print.precedence c := by
      cases c <;> simp_all [Print.isPlainCallee, Print.precedence]
    rw [Bool.not_true, Bool.false_or, Bool.and_comm]
    exact h.chains htight
  | false => exact .of_operand (by simp [Spell.parens]) (.group (Spell.precedence_le_edge c) h.climbs)

theorem construct {cs : Span} {c : Expr} {args : List Expr}
    (hs : Every.expr .spellable (.construct sp cs c args) = true) (h : Reread c)
    (hargs : ∀ e ∈ args, Reread e) : Reread (.construct sp cs c args) := by
  simp only [Every.expr, Bool.and_eq_true] at hs
  refine .of_operand (by simp [Spell.expr]) rfl rfl (.of_settles rfl (by rintro ⟨⟩) (by simp [Spell.expr]) ?_)
  intro d hd rest _
  simp only [Spell.expr, List.length_cons, List.length_append, List.length_nil] at hd
  rw [Parser.operand, Spell.expr]
  refine .peek fun t ht => ?_
  rw [show t.kind = .kwNew from congrArg Lexeme.kind ht]
  change Settles (construction _ _) _ _ _ _
  rw [construction]
  refine .advance fun _ _ => .peekKind fun t ht => ?_
  rw [ht, List.append_assoc, (Spell.opening c hs.1.2).starts_parens, if_pos rfl, ← bind_assoc]
  refine .bind (settles_callee h (by omega) (by omega) (by rintro ⟨⟩)) (fun e he => ?_) fun e he => ?_
  · refine .seesThen rfl (.last (settles_arguments (by omega) (by omega) hs.2 hargs)
      (fun es hes => ?_) fun es hes => ?_)
    · refine .spanFrom fun _ => .spanFrom fun _ => .pure ?_
      change Expr.construct {} {} e.bare (Bare.exprs es) = .construct {} {} c.bare (Bare.exprs args)
      rw [he, hes]
    · exact .bind fun _ => .bind fun _ => .pure fun h => hes (Expr.construct.inj h).2.2.2
  · refine .bind fun _ => .ite (.bind fun es => .bind fun _ => .bind fun _ => .pure fun h => he ?_) .fail
    exact (Expr.construct.inj h).2.2.1

end Reread

/-! ### Arms -/

/-- What an arm does, read back from its lexemes or not. -/
def RereadBody : ArmBody → Prop
  | .block b => RereadBlock b
  | .value _ e => Reread e ∧ Opening e (Spell.expr e)

/-- Whether an arm's body is taken for what it is. -/
def ArmBody.isLegible : ArmBody → Bool
  | .value _ e => Print.isObject e || !Print.opensBrace e
  | .block _ => true

/-- The rest of an arm that starts at `first`, from behind its arrow. -/
def armReader (rules : Rules) (first : Span) (pattern : Option Expr) : Parser MatchArm := do
  let body ← if ← Parser.sees .lbrace then
      let b ← rules.block
      pure (ArmBody.block b)
    else
      let start ← Parser.peek
      let e ← rules.expr 0
      pure (ArmBody.value (← Parser.spanFrom start.span) e)
  return ⟨← Parser.spanFrom first, pattern, body⟩

theorem settles_armReader {body : ArmBody} (h : RereadBody body) {d : Nat}
    (hd : 4 * (Spell.armBody body).length < d) {rest : List Lexeme}
    (hrest : Lexeme.first rest = .comma) (first : Span) {pattern goal : Option Expr}
    (hgoal : pattern.map Expr.bare = goal) :
    Settles (armReader (Rules.ofDepth d) first pattern)
      (Spell.armBody body) rest (body.isLegible && Every.armBody .legible body)
      fun a => (a.pattern.map Expr.bare, Bare.armBody a.body) = (goal, Bare.armBody body) := by
  cases body with
  | block b =>
    refine .seesThen ?_ (.last (h d rest (Nat.le_of_lt hd)) (fun c hc => ?_) fun c hc => ?_)
    · obtain ⟨s, ss⟩ := b
      rfl
    · refine .pureBind (.spanFrom fun _ => .pure ?_)
      simp only [hgoal, Bare.armBody, hc]
    · exact .pureBind (.bind fun _ => .pure fun heq => hc (ArmBody.block.inj (Prod.mk.inj heq).2))
  | value sp e =>
    have hvalue (ls : List Lexeme) (hne : Lexeme.first (ls ++ rest) ≠ .lbrace)
        (hread : Settles ((Rules.ofDepth d).expr 0) ls rest (Every.expr .legible e)
          fun c => c.bare = e.bare) :
        Settles (armReader (Rules.ofDepth d) first pattern) ls rest (Every.expr .legible e)
          fun a => (a.pattern.map Expr.bare, Bare.armBody a.body) =
            (goal, Bare.armBody (.value sp e)) := by
      refine .seesElse hne (.peekKind fun t _ => .last hread (fun c hc => ?_) fun c hc => ?_)
      · refine .spanFrom fun _ => .pureBind (.spanFrom fun _ => .pure ?_)
        change (_, ArmBody.value {} c.bare) = (_, ArmBody.value {} e.bare)
        rw [hgoal, hc]
      · refine .bind fun _ => .pureBind (.bind fun _ => .pure fun heq => hc ?_)
        exact (ArmBody.value.inj (Prod.mk.inj heq).2).2
    have hread := h.1.climbs.settles_parens (Print.isObject e) (Spell.precedence_le_edge e) hd
      (Nat.zero_le _) (.of_none (r := rest) (by rw [hrest]; rfl) 0)
    cases hobject : Print.isObject e with
    | true =>
      rw [hobject] at hread
      rw [Spell.armBody, ArmBody.isLegible, hobject]
      exact hvalue _ nofun hread
    | false =>
      rw [hobject] at hread
      rw [Spell.armBody, ArmBody.isLegible, hobject]
      have hfirst := Lexeme.first_append h.2.ne rest
      cases hbrace : Print.opensBrace e with
      | false =>
        refine hvalue _ (fun hk => ?_) hread
        rw [Spell.parens, if_neg Bool.false_ne_true, hfirst, h.2.brace, hbrace] at hk
        cases hk
      | true =>
        refine .seesThen (hfirst.trans (h.2.brace.2 hbrace)) (.never ?_)
        exact .bind fun b => .pureBind (.bind fun _ => .pure fun heq => ArmBody.noConfusion (Prod.mk.inj heq).2)

theorem pattern_armReader (rules : Rules) (first : Span) (pattern : Option Expr) :
    Always (armReader rules first pattern) fun a => a.pattern = pattern := by
  refine .bind fun b => .ite ?_ ?_
  · exact .bind fun _ => .bind fun _ => .bind fun _ => .pure rfl
  · exact .bind fun _ => .bind fun _ => .bind fun _ => .bind fun _ => .bind fun _ => .pure rfl

/-- Whether an arm is taken for one without a pattern. -/
theorem wildcard_ahead {e : Expr} (ho : Opening e (Spell.expr e)) {s : Stream} {r : List Lexeme}
    (hs : s.ahead = Spell.expr e ++ Kind.fatArrow.lexeme :: r) :
    (s.current.kind == .ident && s.current.value == "_" && s.second == .fatArrow) =
      Print.isWildcard e := by
  by_cases hi : ∃ sp name, e = .ident sp name
  · obtain ⟨sp, name, rfl⟩ := hi
    have hcurrent : s.current.lexeme = .ident name := (List.cons.inj hs).1
    rw [show s.current.kind = .ident from congrArg Lexeme.kind hcurrent,
      show s.current.value = name from congrArg Lexeme.value hcurrent, Settles.second_ahead hs]
    change (true && name == "_" && true) = (name == "_")
    rw [Bool.true_and, Bool.and_true]
  · have hwild : Print.isWildcard e = false := by
      cases e <;> first | rfl | exact absurd ⟨_, _, rfl⟩ hi
    rw [hwild]
    by_cases hk : s.current.kind = .ident
    · have hfirst : Lexeme.first (Spell.expr e) = .ident := by
        rw [← hk, Settles.first_ahead hs, Lexeme.first_append ho.ne]
      rcases ho.ident hfirst with ⟨name, -, hbare⟩ | ⟨l₁, l₂, r', hls, hl⟩
      · refine absurd ?_ hi
        cases e <;> first | exact ⟨_, _, rfl⟩ | simp [Expr.bare, Bare.expr] at hbare
      · rw [hls] at hs
        rw [Settles.second_ahead hs, beq_eq_false_iff_ne.2 hl, Bool.and_false]
    · rw [beq_eq_false_iff_ne.2 hk]
      rfl

theorem bare_arm_eq_iff {a c : MatchArm} : Bare.arm c = Bare.arm a ↔
    (c.pattern.map Expr.bare, Bare.armBody c.body) =
      (a.pattern.map Expr.bare, Bare.armBody a.body) := by
  obtain ⟨s, _ | p, body⟩ := a <;> obtain ⟨s', _ | p', body'⟩ := c <;> simp [Bare.arm, Expr.bare]

/-- An arm that is read back from its lexemes when a comma follows or, if it is not legible, is
not. -/
def RereadArm (a : MatchArm) : Prop :=
  ∀ (d : Nat) (rest : List Lexeme), 4 * (Spell.arm a).length ≤ d → Lexeme.first rest = .comma →
    Settles (matchArm (Rules.ofDepth d)) (Spell.arm a) rest (Every.arm .legible a)
      fun c => Bare.arm c = Bare.arm a

theorem RereadArm.wild {sp : Span} {body : ArmBody} (h : RereadBody body) :
    RereadArm ⟨sp, none, body⟩ := by
  intro d rest hd hrest
  simp only [Spell.arm, List.length_cons] at hd
  have hgood : Every.arm .legible ⟨sp, none, body⟩ =
      (body.isLegible && Every.armBody .legible body) := by
    cases body <;> rfl
  rw [matchArm, Spell.arm, hgood]
  refine .peekKind fun first _ => .get fun s hs => ?_
  have hcurrent : s.current.lexeme = .ident "_" := (List.cons.inj hs).1
  have hwild : (s.current.kind == .ident && s.current.value == "_" && s.second == .fatArrow)
      = true := by
    rw [show s.current.kind = .ident from congrArg Lexeme.kind hcurrent,
      show s.current.value = "_" from congrArg Lexeme.value hcurrent, Settles.second_ahead hs]
    rfl
  simp only [hwild, if_true]
  refine .advance fun _ _ => .pureBind (.expect rfl fun _ _ => ?_)
  exact (settles_armReader h (by omega) hrest first.span rfl).mono fun c =>
    (bare_arm_eq_iff (a := ⟨sp, none, body⟩)).symm

theorem RereadArm.pattern {sp : Span} {e : Expr} {body : ArmBody}
    (he : Reread e) (ho : Opening e (Spell.expr e)) (h : RereadBody body) :
    RereadArm ⟨sp, some e, body⟩ := by
  intro d rest hd hrest
  simp only [Spell.arm, List.length_append, List.length_cons] at hd
  have hgood : Every.arm .legible ⟨sp, some e, body⟩ = (!Print.isWildcard e &&
      (Every.expr .legible e && (body.isLegible && Every.armBody .legible body))) := by
    rw [Bool.and_left_comm (Every.expr .legible e), ← Bool.and_assoc, ← Bool.and_assoc]
    cases body <;> rfl
  have hiff (c : MatchArm) := bare_arm_eq_iff (a := ⟨sp, some e, body⟩) (c := c)
  rw [matchArm, Spell.arm, hgood]
  refine .peekKind fun first _ => .get fun s hs => ?_
  rw [List.append_assoc] at hs
  simp only [wildcard_ahead ho hs]
  cases Print.isWildcard e with
  | true =>
    refine .never (.bind fun _ => .pureBind (.bind fun _ => ?_))
    refine (pattern_armReader _ first.span none).mono fun c hc heq => ?_
    rw [hiff, hc] at heq
    cases heq
  | false =>
    rw [Bool.not_false, Bool.true_and]
    refine .bind (he.climbs.settles (Spell.precedence_le_edge e) (by omega) (Nat.zero_le _)
      (.of_none rfl 0)) (fun p hp => ?_) fun p hp => ?_
    · refine .pureBind (.expect rfl fun _ _ => ?_)
      have hgoal : (some p).map Expr.bare = some e.bare := congrArg some hp
      exact (settles_armReader h (by omega) hrest first.span hgoal).mono fun c => (hiff c).symm
    · refine .pureBind (.bind fun _ => (pattern_armReader _ first.span (some p)).mono ?_)
      intro c hc heq
      rw [hiff, hc] at heq
      exact hp (Option.some.inj (Prod.mk.inj heq).1)

theorem Spell.first_arm {a : MatchArm} (ha : ∀ e ∈ a.pattern, Opening e (Spell.expr e))
    (rest : List Lexeme) : startsOperand (Lexeme.first (Spell.arm a ++ rest)) = true := by
  obtain ⟨sp, _ | e, body⟩ := a
  · rfl
  · have ho := ha e rfl
    rw [Spell.arm, List.append_assoc, Lexeme.first_append ho.ne]
    exact ho.starts

/-- Arms before the closing brace. -/
theorem settles_matchArms {d : Nat} {rest : List Lexeme} (hrest : Lexeme.first rest = .rbrace) :
    ∀ (as : List MatchArm) (n : Nat), as.length < n →
      (∀ a ∈ as, RereadArm a ∧ ∀ e ∈ a.pattern, Opening e (Spell.expr e)) →
      4 * (Spell.arms as).length ≤ d →
      Settles (matchArms (Rules.ofDepth d) n) (Spell.arms as) rest (Every.arms .legible as)
        fun cs => Bare.arms cs = Bare.arms as := by
  intro as
  induction as with
  | nil =>
    intro n hn _ _
    obtain ⟨n, rfl⟩ := Nat.exists_eq_add_one_of_ne_zero (Nat.ne_of_gt hn)
    rw [matchArms]
    exact .seesThen hrest (.pure rfl)
  | cons a as ih =>
    intro n hn h hd
    obtain ⟨n, rfl⟩ := Nat.exists_eq_add_one_of_ne_zero (Nat.ne_of_gt (Nat.zero_lt_of_lt hn))
    simp only [Spell.arms, List.length_append, List.length_cons] at hd hn
    obtain ⟨ha, ho⟩ := h a (by simp)
    rw [matchArms, Spell.arms, Every.arms]
    refine .seesElse (fun hk => ?_) ?_
    · have hstart := Spell.first_arm ho (Kind.comma.lexeme :: Spell.arms as ++ rest)
      rw [List.append_assoc] at hk
      rw [hk] at hstart
      cases hstart
    refine .bind (ha d _ (by omega) rfl) (fun c hc => .skip rfl ?_) fun c hc => ?_
    · simp only [Bool.true_or, if_true]
      refine (ih n (by omega) (fun x hx => h x (by simp [hx])) (by omega)).map fun cs => ?_
      simp [Bare.arms, hc]
    · refine .bind fun b => .ite (.bind fun cs => .pure ?_) (.pure ?_) <;> simp [Bare.arms, hc]

theorem Spell.count_le_arms (as : List MatchArm) : as.length ≤ (Spell.arms as).length := by
  induction as with
  | nil => exact Nat.le_refl _
  | cons a as ih =>
    simp only [Spell.arms, List.length_append, List.length_cons]
    omega

theorem RereadChoice.of_arms {sp : Span} {e : Expr} {as : List MatchArm} (he : Reread e)
    (h : ∀ a ∈ as, RereadArm a ∧ ∀ e ∈ a.pattern, Opening e (Spell.expr e)) :
    RereadChoice ⟨sp, e, as⟩ := by
  intro d rest hd
  simp only [Spell.choice, List.length_cons, List.length_append, List.length_nil] at hd
  have hcount := Spell.count_le_arms as
  rw [choice, Spell.choice, Every.choice]
  refine .advance fun _ _ => .bind (he.climbs.settles (Spell.precedence_le_edge e) (by omega)
    (Nat.zero_le _) (.of_none rfl 0)) (fun c hc => ?_) fun c hc => ?_
  · refine .expect rfl fun _ _ => .closed (settles_matchArms rfl as d (by omega) h (by omega))
      (fun cs hcs => ?_) fun cs hcs => ?_
    · refine .expect rfl fun _ _ => .spanFrom fun _ => .pure ?_
      change MatchExpr.mk {} c.bare (Bare.arms cs) = ⟨{}, e.bare, Bare.arms as⟩
      rw [hc, hcs]
    · exact .bind fun _ => .bind fun _ => .pure fun h => hcs (MatchExpr.mk.inj h).2.2
  · refine .bind fun _ => .bind fun _ => .bind fun _ => .bind fun _ => .pure fun h => hc ?_
    exact (MatchExpr.mk.inj h).2.1

end ScriptLang
