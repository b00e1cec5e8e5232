import ScriptLang.Proofs.Syntax.Opening

/-!
# Operands and their parts, read back

For every kind of operand and operator: if the parts of an expression are read back from their
lexemes, so is the expression, and if a part is not, neither is the expression. `Reread` is what the
induction over trees carries from the parts to the whole. Beside the climb it follows the reader of
the struct after `new`, which takes a first operand and its properties and nothing else.
-/

namespace ScriptLang

open ScriptLang.Parser ScriptLang.Expr

/-! ### Lists -/

theorem Spell.exprs_eq_commas (es : List Expr) :
    Spell.exprs es = Spell.commas (es.map Spell.expr) := by
  induction es with
  | nil => rfl
  | cons e es ih =>
    cases es with
    | nil => rfl
    | cons e' es => rw [Spell.exprs, ih] <;> simp [Spell.commas]

/-- A key with its value. -/
def Spell.entry (p : Text × Expr) : List Lexeme := key p.1 :: Kind.colon.lexeme :: expr p.2

theorem Spell.entries_eq_commas : ∀ es, Spell.entries es = Spell.commas (es.map Spell.entry)
  | [] => rfl
  | [_] => rfl
  | (k, e) :: e' :: es => by
    rw [Spell.entries, Spell.entries_eq_commas (e' :: es)] <;> simp [Spell.commas, Spell.entry]

theorem Bare.exprs_eq_map (es : List Expr) : Bare.exprs es = es.map Expr.bare := by
  induction es with
  | nil => rfl
  | cons e es ih => rw [Bare.exprs, ih]; rfl

theorem Bare.entries_eq_map (es : List (Text × Expr)) :
    Bare.entries es = es.map fun p => (p.1, p.2.bare) := by
  induction es with
  | nil => rfl
  | cons e es ih => rw [Bare.entries, ih]; rfl

theorem Spell.length_le_commas : ∀ {lss : List (List Lexeme)} {ls : List Lexeme}, ls ∈ lss →
    ls.length ≤ (Spell.commas lss).length
  | [_], _, h => by rw [List.mem_singleton.1 h]; exact Nat.le_refl _
  | ls :: ls' :: lss, _, h => by
    simp only [Spell.commas, List.length_append, List.length_cons]
    rcases List.mem_cons.1 h with rfl | h
    · omega
    · have := Spell.length_le_commas h
      omega

theorem Spell.count_le_commas : ∀ lss : List (List Lexeme), (∀ ls ∈ lss, ls ≠ []) →
    lss.length ≤ (Spell.commas lss).length
  | [], _ => Nat.le_refl _
  | [ls], h => List.length_pos_iff.2 (h ls (by simp))
  | ls :: ls' :: lss, h => by
    have ih := Spell.count_le_commas (ls' :: lss) fun x hx => h x (by simp_all)
    simp only [Spell.commas, List.length_append, List.length_cons] at ih ⊢
    omega

/-! ### Types and parameters -/

theorem Parser.settles_type {a : TypeExpr} (ha : a.isSpellable = true) {n : Nat}
    (hn : (Spell.type a).length ≤ n) (rest : List Lexeme) :
    Settles (type n) (Spell.type a) rest true fun b => b.bare = a.bare := by
  induction a generalizing n with
  | named s name =>
    obtain ⟨n, rfl⟩ : ∃ m, n = m + 1 := ⟨n - 1, by simp [Spell.type] at hn; omega⟩
    rw [type, Spell.type]
    refine .peek fun t ht => ?_
    simp only [Token.lexeme, Lexeme.ident, Lexeme.mk.injEq] at ht
    simp only [ht.1, ht.2]
    exact .advance fun _ _ => .pure rfl
  | list s elem ih =>
    simp only [Spell.type, List.length_cons] at hn
    obtain ⟨n, rfl⟩ : ∃ m, n = m + 1 := ⟨n - 1, by omega⟩
    rw [type, Spell.type]
    refine .peek fun t ht => ?_
    simp only [Token.lexeme, Kind.lexeme, Lexeme.mk.injEq] at ht
    simp only [ht.1]
    refine .advance fun _ _ => .expect rfl fun _ _ => ?_
    refine .last (ih ha (by omega)) (fun b hb => ?_) (fun b hb => ?_)
    · exact .spanFrom fun sp => .pure (by simp [TypeExpr.bare, hb])
    · exact .bind fun sp => .pure (by simpa [TypeExpr.bare] using hb)

theorem Parser.settles_ascription {a : Option TypeExpr} (ha : a.all TypeExpr.isSpellable = true)
    {n : Nat} (hn : (Spell.ascription a).length ≤ n) {rest : List Lexeme}
    (hrest : Lexeme.first rest ≠ .colon) :
    Settles ( annotation n) (Spell.ascription a) rest true
      fun b => b.map TypeExpr.bare = a.map TypeExpr.bare := by
  rw [ annotation]
  cases a with
  | none => exact .skipElse (by rw [Spell.ascription, List.nil_append]; exact hrest) (.pure rfl)
  | some a =>
    simp only [Spell.ascription, List.length_cons] at hn
    refine .skipThen rfl ((settles_type ha (by omega) rest).map fun b => ?_)
    simp

theorem Parser.settles_param {p : Param} (hp : p.isSpellable = true) {n : Nat}
    (hn : (Spell.param p).length ≤ n) {rest : List Lexeme} (hrest : Lexeme.first rest ≠ .colon) :
    Settles (param n) (Spell.param p) rest true fun q => q.bare = p.bare := by
  simp only [Param.isSpellable, Bool.and_eq_true] at hp
  simp only [Spell.param, List.length_cons] at hn
  rw [param, Spell.param]
  refine .expectName ((settles_ascription hp.2 (by omega) hrest).map fun b => ?_)
  simp [Param.bare]

/-! ### The struct after `new` -/

/-- No power reaches the edge of an operand. -/
theorem Follows.top (rest : List Lexeme) : Follows 100 rest := by
  have h : ∀ k : Kind, k.power?.all (fun p => p.left < 100) = true := by
    intro k
    cases k <;> rfl
  intro p hp
  have := h (Lexeme.first rest)
  rw [hp] at this
  simpa using this

/-- Lexemes that start with an operand on the spine of an expression. -/
def Firsts (ls : List Lexeme) (e : Expr) : Prop :=
  ∃ ls₁ ls₂ x good, ls = ls₁ ++ ls₂ ∧ x.bare ∈ e.bare.spine ∧ Operand ls₁ 100 good x

/-- Lexemes that a first operand and its properties bring to an expression. -/
def Chains (ls : List Lexeme) (good : Bool) (e : Expr) : Prop :=
  ∀ (d n : Nat) (rest : List Lexeme) (s : Stream), rest ≠ [] → s.ahead = ls ++ rest →
    4 * ls.length ≤ d → ls.length ≤ n →
    (good = true → ∃ e' s' k, k < ls.length ∧ s'.ahead = rest ∧ e'.bare = e.bare ∧
      ((Rules.ofDepth d).operand >>= properties n) s = properties (n - k) e' s') ∧
    (good = false → ∀ c s', ((Rules.ofDepth d).operand >>= properties n) s = .ok (c, s') →
      e.bare ∉ c.bare.spine)

namespace Parser

theorem ofWord_class (w : Text) : (Kind.ofWord w == .ident || (Kind.ofWord w).isKeyword) = true := by
  rw [Kind.ofWord]
  cases h : Kind.keywords.find? fun k => k.name == w with
  | none => rfl
  | some k =>
    have hk : k.isKeyword = true := List.contains_iff_mem.2 (List.mem_of_find?_eq_some h)
    rw [Option.getD_some, hk, Bool.or_true]

theorem settles_property {e e' : Expr} (he : e'.bare = e.bare) (sp : Span) (p : Text)
    (rest : List Lexeme) : Settles (property e') [Kind.dot.lexeme, .word p] rest true
      fun c => c.bare = (Expr.member sp e p).bare := by
  rw [property]
  refine .advance fun _ _ => .peek fun t ht => ?_
  simp only [Token.lexeme, Lexeme.word, Lexeme.mk.injEq] at ht
  rw [ht.1, if_pos (ofWord_class p), ht.2]
  refine .advance fun _ _ => .spanFrom fun _ => .pure ?_
  change Expr.member {} e'.bare p = .member {} e.bare p
  rw [he]

/-- The spine of what is read holds the operand and below it nothing else than before. -/
theorem spine_properties : ∀ (n : Nat) (o : Expr), Always (properties n o) fun c =>
    o.bare ∈ c.bare.spine ∧
      ∀ y ∈ c.bare.spine, y ∈ o.bare.spine ∨ ∃ x p, y = .member {} x p
  | 0, _ => .fail
  | n + 1, o => by
    rw [properties]
    refine .bind fun b => .ite ?_ (.pure ⟨mem_spine_self _, fun _ h => .inl h⟩)
    have hprop : Always (property o) fun e => ∃ s p, e = .member s o p := by
      rw [property]
      exact .bind fun _ => .bind fun _ =>
        .ite (.bind fun _ => .bind fun sp => .pure ⟨sp, _, rfl⟩) .fail
    refine .bind_of hprop fun e he => (spine_properties n e).mono fun c hc => ?_
    obtain ⟨s, p, rfl⟩ := he
    refine ⟨left_mem_spine hc.1 rfl, fun y hy => (hc.2 y hy).elim (fun h => ?_) .inr⟩
    rcases List.mem_cons.1 h with rfl | h
    · exact .inr ⟨_, p, rfl⟩
    · exact .inl h

end Parser

namespace Chains

variable {ls : List Lexeme} {good : Bool} {e : Expr}

/-- An operand without properties. -/
theorem of_operand (hne : ls ≠ []) (h : Operand ls 100 good e) : Chains ls good e := by
  intro d n rest s hr hs hd hn
  obtain ⟨hgood, hbad⟩ := h d rest s hr hs hd (.top rest)
  refine ⟨fun hg => ?_, fun hg c s' hc hmem => ?_⟩
  · obtain ⟨e', s', he, hs', heq⟩ := hgood hg
    refine ⟨e', s', 0, List.length_pos_iff.2 hne, hs', heq, ?_⟩
    rw [bind_apply, he]
    rfl
  · obtain ⟨o, s₁, ho, hc⟩ := bind_eq_ok.1 hc
    exact ((hbad hg o s₁ ho).of_mem_spine (spine_properties _ _ hc).1).1 hmem

/-- One property more. -/
theorem member (h : Chains ls good e) (sp : Span) (p : Text) :
    Chains (ls ++ [Kind.dot.lexeme, .word p]) good (.member sp e p) := by
  intro d n rest s hr hs hd hn
  rw [List.append_assoc] at hs
  simp only [List.length_append, List.length_cons, List.length_nil] at hd hn
  obtain ⟨hgood, hbad⟩ := h d n _ s (by simp) hs (by omega) (by omega)
  refine ⟨fun hg => ?_, fun hg c s' hc hmem => hbad hg c s' hc (left_mem_spine hmem rfl)⟩
  obtain ⟨e', s₁, k, hk, hs₁, heq, hrun⟩ := hgood hg
  obtain ⟨m, hm⟩ : ∃ m, n - k = m + 1 := ⟨n - k - 1, by omega⟩
  obtain ⟨e₂, s₂, he₂, hs₂, heq₂⟩ := (settles_property heq sp p rest s₁ hr hs₁).1 rfl
  refine ⟨e₂, s₂, k + 1, by simp; omega, hs₂, heq₂, ?_⟩
  have hdot : s₁.current.kind = .dot := Settles.first_ahead hs₁
  rw [hrun, hm, properties, bind_apply]
  simp only [Parser.sees, Except.bind, hdot, beq_self_eq_true, if_true]
  rw [bind_apply, he₂, show n - (k + 1) = m by omega]
  rfl

/-- An operator that is no property is out of reach: what is read holds no such node above the first
operand. -/
theorem of_firsts {l : Expr} (hl : e.left? = some l) (hm : ∀ x p, e.bare ≠ .member {} x p)
    (h : Firsts ls l) {ls' : List Lexeme} : Chains (ls ++ ls') false e := by
  obtain ⟨ls₁, ls₂, x, good, rfl, hx, hop⟩ := h
  intro d n rest s hr hs hd hn
  refine ⟨nofun, fun _ c s' hc hmem => ?_⟩
  rw [List.append_assoc, List.append_assoc] at hs
  simp only [List.length_append] at hd
  obtain ⟨hgood, hbad⟩ := hop d _ s (by simp [hr]) hs (by omega) (.top _)
  obtain ⟨o, s₁, ho, hc⟩ := bind_eq_ok.1 hc
  have heo : e.bare ∈ o.bare.spine := ((spine_properties _ _ hc).2 _ hmem).resolve_right
    fun ⟨y, p, hy⟩ => hm y p hy
  have hspine := spine_of_left (bare_left hl)
  cases good with
  | true =>
    obtain ⟨x', s₂, hx', -, heq⟩ := hgood rfl
    rw [ho] at hx'
    cases hx'
    have hmem' := mem_spine_trans (heq ▸ heo) hx
    have hlen := (spine_suffix hmem').length_le
    rw [hspine, List.length_cons] at hlen
    omega
  | false =>
    refine (hbad rfl o s₁ ho).1 (mem_spine_trans ?_ heo)
    rw [hspine]
    exact .tail _ hx

/-- A chain before a token that is no property. -/
theorem settles (h : Chains ls good e) {d n : Nat} (hd : 4 * ls.length ≤ d) (hn : ls.length ≤ n)
    {rest : List Lexeme} (hrest : Lexeme.first rest ≠ .dot) :
    Settles ((Rules.ofDepth d).operand >>= properties n) ls rest good fun c => c.bare = e.bare := by
  intro s hr hs
  obtain ⟨hgood, hbad⟩ := h d n rest s hr hs hd hn
  refine ⟨fun hg => ?_, fun hg c s' hc heq => hbad hg c s' hc (heq ▸ mem_spine_self _)⟩
  obtain ⟨e', s', k, hk, hs', heq, hrun⟩ := hgood hg
  refine ⟨e', s', ?_, hs', heq⟩
  obtain ⟨m, hm⟩ : ∃ m, n - k = m + 1 := ⟨n - k - 1, by omega⟩
  have hdot : s'.current.kind ≠ .dot := by rwa [Settles.first_ahead hs']
  rw [hrun, hm, properties, bind_apply]
  simp only [Parser.sees, Except.bind, beq_eq_false_iff_ne.2 hdot, Bool.false_eq_true, if_false]
  rfl

end Chains

/-- What it takes for an expression to be read back from its lexemes or, if it is not legible, not to
be. -/
structure Reread (e : Expr) : Prop where
  /-- As an operand of an operator. -/
  climbs : Climbs (Spell.expr e) (Print.precedence e) e.edge (Every.expr .legible e) e
  /-- As the beginning of a longer expression. -/
  firsts : 70 ≤ Print.precedence e → Firsts (Spell.expr e) e
  /-- As the struct after the word `new`. -/
  chains : 70 ≤ Print.precedence e →
    Chains (Spell.expr e) (Every.expr .legible e && Print.isOperandChain e) e

namespace Reread

/-- A first operand that is no chain of properties. -/
theorem of_operand {e : Expr} (hne : Spell.expr e ≠ []) (hp : Print.precedence e = 100)
    (hc : Print.isOperandChain e = true)
    (h : Operand (Spell.expr e) 100 (Every.expr .legible e) e) : Reread e where
  climbs := by
    rw [Spell.edge_of_tight (by omega)]
    exact h.climbs _ hne
  firsts _ := ⟨_, [], e, _, (List.append_nil _).symm, mem_spine_self _, h⟩
  chains _ := by
    rw [hc, Bool.and_true]
    exact .of_operand hne h

variable {l r : Expr}

/-- The operand that a longer expression starts with, in parentheses or not. -/
theorem firsts_parens (h : Reread l) :
    Firsts (Spell.parens (Print.precedence l < 70) (Spell.expr l)) l := by
  by_cases hp : Print.precedence l < 70
  · rw [decide_eq_true hp]
    exact ⟨_, [], l, _, (List.append_nil _).symm, mem_spine_self _,
      .group (Spell.precedence_le_edge l) h.climbs⟩
  · rw [decide_eq_false hp]
    exact h.firsts (Nat.le_of_not_lt hp)

theorem chains_parens (h : Reread l) :
    Chains (Spell.parens (Print.precedence l < 70) (Spell.expr l))
      (Every.expr .legible l && Print.isOperandChain l) l := by
  by_cases hp : Print.precedence l < 70
  · have hc : Print.isOperandChain l = true := by
      cases l <;> first | rfl | exact absurd hp (Nat.lt_irrefl 70)
    rw [decide_eq_true hp, hc, Bool.and_true]
    exact .of_operand (by simp [Spell.parens]) (.group (Spell.precedence_le_edge l) h.climbs)
  · rw [decide_eq_false hp]
    exact h.chains (Nat.le_of_not_lt hp)

/-- An operand before an operator that binds tightest. -/
theorem climbs_tight (h : Reread l) :
    Climbs (Spell.parens (Print.precedence l < 70) (Spell.expr l))
      (if Print.precedence l < 70 then 100 else Print.precedence l)
      (if Print.precedence l < 70 then 100 else l.edge) (Every.expr .legible l) l := by
  have := h.climbs.parens (Print.precedence l < 70) (Spell.precedence_le_edge l)
  simpa using this

theorem tight_bounds (l : Expr) :
    70 < (if Print.precedence l < 70 then 100 else l.edge) ∧
      70 ≤ (if Print.precedence l < 70 then 100 else Print.precedence l) := by
  by_cases hp : Print.precedence l < 70
  · simp [hp]
  · simp only [hp, if_false, Spell.edge_of_tight (Nat.le_of_not_lt hp)]
    omega

end Reread

/-! ### Operators behind an operand -/

namespace Parser

variable {d n : Nat} {ls rest : List Lexeme} {good : Bool} {l l' r : Expr}

/-- Expressions before a closing mark. -/
theorem settles_exprs {es : List Expr} (hd : 4 * (Spell.exprs es).length < d)
    (hn : (Spell.exprs es).length < n) (hs : Every.exprs .spellable es = true)
    (h : ∀ e ∈ es, Reread e) {close : Kind} (hrest : Lexeme.first rest = close)
    (hcomma : close ≠ .comma) (hclose : startsOperand close = false)
    (hpower : close.power? = none) :
    Settles (commaList close ((Rules.ofDepth d).expr 0) n) (Spell.exprs es) rest
      (Every.exprs .legible es) fun cs => Bare.exprs cs = Bare.exprs es := by
  rw [Every.exprs_eq_all, List.all_eq_true] at hs
  simp only [Spell.exprs_eq_commas, Every.exprs_eq_all, Bare.exprs_eq_map] at hd hn ⊢
  have hopen (e : Expr) (he : e ∈ es) := Spell.opening e (hs e he)
  have hcount := Spell.count_le_commas (es.map Spell.expr) (by
    intro ls hls
    obtain ⟨e, he, rfl⟩ := List.mem_map.1 hls
    exact (hopen e he).ne)
  rw [List.length_map] at hcount
  refine settles_commaList hcomma hrest es n (by omega) (fun e he => ⟨?_, (hopen e he).ne⟩)
    fun e he r hr => ?_
  · intro hf
    have hst := (hopen e he).starts
    rw [hf, hclose] at hst
    cases hst
  · have hlen := Spell.length_le_commas (List.mem_map_of_mem he (f := Spell.expr))
    refine (h e he).climbs.settles (Spell.precedence_le_edge e) (by omega) (Nat.zero_le _)
      (.of_none ?_ 0)
    rcases hr with hr | hr <;> rw [hr]
    · rfl
    · exact hpower

/-- An operator between two operands. -/
theorem settles_between (op : Lexeme) {right : Nat}
    (hk : op.kind ∉ [.lparen, .lbracket, .dot, .plusPlus, .minusMinus, .dotDot])
    (hl : l'.bare = l.bare)
    (hr : Settles ((Rules.ofDepth d).expr right) ls rest good fun c => c.bare = r.bare) :
    Settles (extend (Rules.ofDepth d) n right l') (op :: ls) rest good fun c => c.bare =
      if op.kind.isAssignment then .assign {} (.ofSpelling op.value) l.bare r.bare
      else .binary {} (.ofSpelling op.value) l.bare r.bare := by
  rw [extend]
  refine .peek fun t ht => ?_
  have hkind : t.kind = op.kind := congrArg Lexeme.kind ht
  have hvalue : t.value = op.value := congrArg Lexeme.value ht
  rw [hkind, hvalue]
  split <;> try (rename_i h; simp [h] at hk; done)
  refine .advance fun _ _ => .last hr (fun c hc => ?_) (fun c hc => ?_)
  · split
    · refine .spanFrom fun sp => .pure ?_
      change Expr.assign {} _ l'.bare c.bare = _
      rw [hl, hc]
    · refine .spanFrom fun sp => .pure ?_
      change Expr.binary {} _ l'.bare c.bare = _
      rw [hl, hc]
  · split
    · refine .bind fun sp => .pure fun h => hc ?_
      change Expr.assign {} _ l'.bare c.bare = _ at h
      exact (Expr.assign.inj h).2.2.2
    · refine .bind fun sp => .pure fun h => hc ?_
      change Expr.binary {} _ l'.bare c.bare = _ at h
      exact (Expr.binary.inj h).2.2.2

theorem settles_range {right : Nat} (hl : l'.bare = l.bare)
    (hr : Settles ((Rules.ofDepth d).expr right) ls rest good fun c => c.bare = r.bare) :
    Settles (extend (Rules.ofDepth d) n right l') (Kind.dotDot.lexeme :: ls) rest good
      fun c => c.bare = .range {} l.bare r.bare := by
  rw [extend]
  refine .peek fun t ht => ?_
  rw [show t.kind = .dotDot from congrArg Lexeme.kind ht]
  refine .advance fun _ _ => .last hr (fun c hc => ?_) (fun c hc => ?_)
  · refine .spanFrom fun sp => .pure ?_
    change Expr.range {} l'.bare c.bare = _
    rw [hl, hc]
  · exact .bind fun sp => .pure fun h => hc (Expr.range.inj h).2.2

theorem settles_step {op : StepOp} (hop : op = .up ∨ op = .down) {right : Nat}
    (hl : l'.bare = l.bare) :
    Settles (extend (Rules.ofDepth d) n right l') [op.kind.lexeme] rest true
      fun c => c.bare = .step {} op l.bare := by
  rw [extend]
  refine .peek fun t ht => ?_
  have hvalue : t.value = op.kind.name := congrArg Lexeme.value ht
  have hspan (sp : Span) : (Expr.step sp op l').bare = .step {} op l.bare := by
    change Expr.step {} op l'.bare = _
    rw [hl]
  rcases hop with rfl | rfl <;> rw [show t.kind = _ from congrArg Lexeme.kind ht, hvalue]
  · exact .advance fun _ _ => .spanFrom fun sp => .pure (hspan sp)
  · exact .advance fun _ _ => .spanFrom fun sp => .pure (hspan sp)

theorem settles_index {right : Nat} (hl : l'.bare = l.bare)
    (hr : Settles ((Rules.ofDepth d).expr 0) ls (Kind.rbracket.lexeme :: rest) good
      fun c => c.bare = r.bare) :
    Settles (extend (Rules.ofDepth d) n right l')
      (Kind.lbracket.lexeme :: (ls ++ [Kind.rbracket.lexeme])) rest good
      fun c => c.bare = .index {} l.bare r.bare := by
  rw [extend]
  refine .peek fun t ht => ?_
  rw [show t.kind = .lbracket from congrArg Lexeme.kind ht]
  refine .advance fun _ _ => .closed hr (fun c hc => ?_) (fun c hc => ?_)
  · refine .expect rfl fun _ _ => .spanFrom fun sp => .pure ?_
    change Expr.index {} l'.bare c.bare = _
    rw [hl, hc]
  · exact .bind fun _ => .bind fun sp => .pure fun h => hc (Expr.index.inj h).2.2

/-- The arguments of a call. -/
theorem settles_arguments {args : List Expr} (hd : 4 * (Spell.exprs args).length < d)
    (hn : (Spell.exprs args).length < n) (hs : Every.exprs .spellable args = true)
    (h : ∀ e ∈ args, Reread e) :
    Settles (arguments (Rules.ofDepth d) n)
      (Kind.lparen.lexeme :: (Spell.exprs args ++ [Kind.rparen.lexeme])) rest
      (Every.exprs .legible args) fun es => Bare.exprs es = Bare.exprs args := by
  rw [arguments]
  refine .advance fun _ _ => .closed (settles_exprs hd hn hs h rfl nofun rfl rfl) (fun es hes => ?_)
    (fun es hes => ?_)
  · exact .expect rfl fun _ _ => .pure hes
  · exact .bind fun _ => .pure hes

theorem settles_call {args : List Expr} {right : Nat} (hl : l'.bare = l.bare)
    (hr : Settles (arguments (Rules.ofDepth d) n) (Kind.lparen.lexeme :: ls) rest good
      fun es => Bare.exprs es = Bare.exprs args) :
    Settles (extend (Rules.ofDepth d) n right l') (Kind.lparen.lexeme :: ls) rest good
      fun c => c.bare = .call {} l.bare (Bare.exprs args) := by
  rw [extend]
  refine .peek fun t ht => ?_
  rw [show t.kind = .lparen from congrArg Lexeme.kind ht]
  refine .last hr (fun es hes => ?_) (fun es hes => ?_)
  · refine .spanFrom fun sp => .pure ?_
    change Expr.call {} l'.bare (Bare.exprs es) = _
    rw [hl, hes]
  · exact .bind fun sp => .pure fun h => hes (Expr.call.inj h).2.2

theorem settles_member {right : Nat} (hl : l'.bare = l.bare) (p : Text) :
    Settles (extend (Rules.ofDepth d) n right l') [Kind.dot.lexeme, .word p] rest true
      fun c => c.bare = .member {} l.bare p := by
  rw [extend]
  refine .peek fun t ht => ?_
  rw [show t.kind = .dot from congrArg Lexeme.kind ht]
  exact settles_property hl {} p rest

end Parser

/-! ### Longer expressions -/

namespace Reread

variable {sp : Span} {l r : Expr}

theorem binary {op : BinaryOp} (hs : Every.expr .spellable (.binary sp op l r) = true)
    (hl : Reread l) (hr : Reread r) : Reread (.binary sp op l r) := by
  simp only [Every.expr, NodeRule.spellable, Bool.and_eq_true, List.contains_iff_mem] at hs
  obtain ⟨⟨hop, hsl⟩, hsr⟩ := hs
  obtain ⟨hlow, hhigh, -⟩ := Spell.precedence_bounds op hop
  obtain ⟨hkind, hassign, hspell⟩ := Spell.binary_between op hop
  have hpow : (op == .pow) = false → op.precedence ≠ 55 := by
    intro h heq
    rw [Spell.pow_of_precedence op hop heq] at h
    cases h
  have hleft : op.precedence < (if Print.operandNeedsParens l op false then 100 else l.edge) ∧
      op.precedence ≤ (if Print.operandNeedsParens l op false then 100 else Print.precedence l) :=
    Spell.left_bounds hsl op.precedence _ ⟨hlow, hhigh⟩ hpow
  have hclimbs : Climbs
      (Spell.parens (Print.operandNeedsParens l op false) (Spell.expr l) ++
        op.kind.lexeme :: Spell.parens (Print.operandNeedsParens r op true) (Spell.expr r))
      op.precedence (Expr.edge (.binary sp op l r))
      (Every.expr .legible l && Every.expr .legible r) (.binary sp op l r) := by
    refine (hl.climbs.parens _ (Spell.precedence_le_edge l)).extend (e := .binary sp op l r)
      (Spell.binary_power op hop) hleft.1 hleft.2 rfl fun d n l' hl' hd hn rest hf => ?_
    have := settles_between (n := n) op.kind.lexeme hkind hl'
      (hr.climbs.settles_parens (Print.operandNeedsParens r op true) (Spell.precedence_le_edge r)
        (d := d) (by omega) (Spell.right_bounds r (op == .pow) hhigh) hf)
    rw [show op.kind.lexeme.kind = op.kind from rfl, hassign, if_neg Bool.false_ne_true,
      show op.kind.lexeme.value = op.kind.name from rfl, hspell] at this
    exact this
  have hloose : ¬70 ≤ op.precedence := by omega
  exact ⟨hclimbs, fun h => absurd h hloose, fun h => absurd h hloose⟩

theorem assign {op : AssignOp} (hs : Every.expr .spellable (.assign sp op l r) = true)
    (hl : Reread l) (hr : Reread r) : Reread (.assign sp op l r) := by
  simp only [Every.expr, NodeRule.spellable, Bool.and_eq_true, List.contains_iff_mem] at hs
  obtain ⟨⟨hop, hsl⟩, hsr⟩ := hs
  obtain ⟨hkind, hassign, hspell⟩ := Spell.assign_between op hop
  have hleft : 10 < (if decide (Print.precedence l ≤ 10) then 100 else l.edge) ∧
      10 ≤ (if decide (Print.precedence l ≤ 10) then 100 else Print.precedence l) := by
    have hedge := Spell.precedence_le_edge l
    by_cases h : Print.precedence l ≤ 10
    · simp [h]
    · simp only [h, decide_false, Bool.false_eq_true, if_false]
      omega
  have hclimbs : Climbs
      (Spell.parens (Print.precedence l ≤ 10) (Spell.expr l) ++ op.kind.lexeme :: Spell.expr r)
      10 10 (Every.expr .legible l && Every.expr .legible r) (.assign sp op l r) := by
    refine (hl.climbs.parens _ (Spell.precedence_le_edge l)).extend (e := .assign sp op l r)
      (Spell.assign_power op hop) hleft.1 hleft.2 rfl fun d n l' hl' hd hn rest hf => ?_
    have := settles_between (n := n) op.kind.lexeme hkind hl'
      (hr.climbs.settles (Spell.precedence_le_edge r) (d := d) (by omega)
        (Spell.assign_level hsr) hf)
    rw [show op.kind.lexeme.kind = op.kind from rfl, hassign, if_pos rfl,
      show op.kind.lexeme.value = op.kind.name from rfl, hspell] at this
    exact this
  have hloose : ¬70 ≤ 10 := by decide
  exact ⟨hclimbs, fun h => absurd h hloose, fun h => absurd h hloose⟩

theorem range (hs : Every.expr .spellable (.range sp l r) = true)
    (hl : Reread l) (hr : Reread r) : Reread (.range sp l r) := by
  simp only [Every.expr, Bool.and_eq_true] at hs
  have hleft := Spell.left_bounds hs.1.2 24 false (by decide) (by decide)
  have hclimbs : Climbs
      (Spell.parens (Print.needsParens l 24 false false) (Spell.expr l) ++
        Kind.dotDot.lexeme :: Spell.parens (Print.needsParens r 24 false true) (Spell.expr r))
      24 25 (Every.expr .legible l && Every.expr .legible r) (.range sp l r) := by
    refine (hl.climbs.parens _ (Spell.precedence_le_edge l)).extend (e := .range sp l r) (r := 25)
      rfl hleft.1 hleft.2 rfl fun d n l' hl' hd hn rest hf => ?_
    exact settles_range hl' (hr.climbs.settles_parens _ (Spell.precedence_le_edge r)
      (d := d) (by omega) (Spell.right_bounds r false (by decide)) hf)
  have hloose : ¬70 ≤ 24 := by decide
  exact ⟨hclimbs, fun h => absurd h hloose, fun h => absurd h hloose⟩

/-- What the operators that bind tightest have in common. -/
theorem tight {e : Expr} {ls : List Lexeme} {k : Kind} {g : Bool}
    (hl : Reread l) (hleft : e.left? = some l) (hp : Print.precedence e = 70)
    (hk : k.power? = some ⟨70, 71⟩)
    (hspell : Spell.expr e =
      Spell.parens (Print.precedence l < 70) (Spell.expr l) ++ k.lexeme :: ls)
    (hgood : Every.expr .legible e = (Every.expr .legible l && g))
    (hchains : Chains (Spell.expr e) (Every.expr .legible e && Print.isOperandChain e) e)
    (hext : ∀ (d n : Nat) (l' : Expr), l'.bare = l.bare → 4 * (ls.length + 2) ≤ d → ls.length < n →
      ∀ rest, Settles (extend (Rules.ofDepth d) n 71 l') (k.lexeme :: ls) rest g
        fun c => c.bare = e.bare) : Reread e where
  climbs := by
    have hedge := Spell.edge_of_tight (Nat.le_of_eq hp.symm)
    have hbounds := tight_bounds l
    rw [hp, hedge, hspell, hgood]
    exact hl.climbs_tight.extend hk hbounds.1 hbounds.2 hleft
      fun d n l' hl' hd hn rest _ => hext d n l' hl' hd hn rest
  firsts _ := by
    obtain ⟨ls₁, ls₂, x, good, heq, hx, hop⟩ := hl.firsts_parens
    rw [hspell, heq, List.append_assoc]
    exact ⟨ls₁, _, x, good, rfl, mem_spine_trans hx (left_mem_spine (mem_spine_self _) (bare_left hleft)),
      hop⟩
  chains _ := hchains

theorem member (p : Text) (hl : Reread l) : Reread (.member sp l p) :=
  hl.tight (g := true) rfl rfl rfl rfl (Bool.and_true _).symm (hl.chains_parens.member sp p)
    fun _ _ _ hl' _ _ _ => settles_member hl' p

theorem step {op : StepOp} (hs : Every.expr .spellable (.step sp op l) = true) (hl : Reread l) :
    Reread (.step sp op l) := by
  simp only [Every.expr, NodeRule.spellable, Bool.and_eq_true, Bool.or_eq_true,
    decide_eq_true_eq] at hs
  have hchains : Chains (Spell.expr (.step sp op l))
      (Every.expr .legible (.step sp op l) && false) (.step sp op l) := by
    rw [Bool.and_false]
    exact .of_firsts rfl (by simp [Expr.bare, Bare.expr]) hl.firsts_parens
  refine hl.tight (g := true) rfl rfl ?_ rfl (Bool.and_true _).symm hchains
    fun _ _ _ hl' _ _ _ => settles_step hs.1 hl'
  rcases hs.1 with rfl | rfl <;> rfl

theorem index (hl : Reread l) (hr : Reread r) : Reread (.index sp l r) := by
  have hchains : Chains (Spell.expr (.index sp l r))
      (Every.expr .legible (.index sp l r) && false) (.index sp l r) := by
    rw [Bool.and_false]
    exact .of_firsts rfl (by simp [Expr.bare, Bare.expr]) hl.firsts_parens
  refine hl.tight (k := .lbracket) rfl rfl rfl rfl rfl hchains fun d n l' hl' hd hn rest => ?_
  simp only [List.length_append] at hd
  exact settles_index hl' (hr.climbs.settles (Spell.precedence_le_edge r) (by omega)
    (Nat.zero_le _) (.of_none rfl 0))

theorem call {args : List Expr} (hs : Every.exprs .spellable args = true) (hl : Reread l)
    (hargs : ∀ e ∈ args, Reread e) : Reread (.call sp l args) := by
  have hchains : Chains (Spell.expr (.call sp l args))
      (Every.expr .legible (.call sp l args) && false) (.call sp l args) := by
    rw [Bool.and_false]
    exact .of_firsts rfl (by simp [Expr.bare, Bare.expr]) hl.firsts_parens
  refine hl.tight (k := .lparen) rfl rfl rfl rfl rfl hchains fun d n l' hl' hd hn rest => ?_
  simp only [List.length_append] at hd hn
  exact settles_call hl' (settles_arguments (by omega) (by omega) hs hargs)

end Reread

end ScriptLang
