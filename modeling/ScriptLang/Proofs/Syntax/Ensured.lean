import ScriptLang.Proofs.Syntax.Statements
import ScriptLang.Proofs.Token.Genuine

/-!
# What reading ensures of a tree

Every tree that is read from scanned tokens is spellable. `Parser.EnsuresAt t x P` says that the
reader `x` before the token `t` gives results with the property `P` and leaves only tokens whose
values fit their kinds.
-/

namespace ScriptLang

/-- Whether the values of all tokens fit their kinds. -/
def Stream.IsGenuine (s : Stream) : Prop := s.current.IsGenuine ∧ ∀ t ∈ s.rest, t.IsGenuine

theorem Stream.IsGenuine.next {s : Stream} (h : s.IsGenuine) : s.next.IsGenuine := by
  obtain ⟨current, rest, index, last⟩ := s
  cases rest with
  | nil => exact h
  | cons t ts => exact List.forall_mem_cons.1 h.2

namespace Parser

variable {α β : Type}

/-- What a reader before the token `t` ensures. -/
def EnsuresAt (t : Token) (x : Parser α) (P : α → Prop) : Prop :=
  ∀ ⦃s : Stream⦄ ⦃a : α⦄ ⦃s' : Stream⦄, s.IsGenuine → s.current = t → x s = .ok (a, s') →
    s'.IsGenuine ∧ P a

/-- What a reader ensures before every token. -/
def Ensures (x : Parser α) (P : α → Prop) : Prop := ∀ t, EnsuresAt t x P

namespace EnsuresAt

variable {t : Token} {x : Parser α} {f : α → Parser β} {P : α → Prop} {Q : β → Prop} {k : Kind}

theorem bind (hx : EnsuresAt t x P) (hf : ∀ a, P a → Ensures (f a) Q) : EnsuresAt t (x >>= f) Q := by
  intro s b s' hs ht hb
  obtain ⟨a, s₁, ha, hb⟩ := bind_eq_ok.1 hb
  obtain ⟨hs₁, hP⟩ := hx hs ht ha
  exact hf a hP _ hs₁ rfl hb

theorem pure {a : α} (h : P a) : EnsuresAt t (pure a) P := by
  intro s a' s' hs _ ha
  cases ha
  exact ⟨hs, h⟩

theorem fail {fault : Token → ParseFault} : EnsuresAt t (Parser.fail fault) P := by
  intro s a s' _ _ h
  cases h

theorem failBind {fault : Token → ParseFault} : EnsuresAt t (Parser.fail fault >>= f) Q := by
  intro s a s' _ _ h
  cases h

theorem ite {c : Prop} [Decidable c] {y : Parser α} (hx : c → EnsuresAt t x P)
    (hy : ¬c → EnsuresAt t y P) : EnsuresAt t (if c then x else y) P := by
  split
  · exact hx ‹c›
  · exact hy ‹¬c›

theorem pureBind {a : α} (h : EnsuresAt t (f a) Q) : EnsuresAt t (Pure.pure a >>= f) Q := h

theorem peek {f : Token → Parser β} (h : t.IsGenuine → EnsuresAt t (f t) Q) :
    EnsuresAt t (peek >>= f) Q := by
  rintro s b s' hs rfl hb
  exact h hs.1 hs rfl hb

theorem advance {f : Token → Parser β} (h : t.IsGenuine → Ensures (f t) Q) :
    EnsuresAt t (advance >>= f) Q := by
  rintro s b s' hs rfl hb
  exact h hs.1 _ hs.next rfl hb

theorem sees {f : Bool → Parser β} (h : EnsuresAt t (f (t.kind == k)) Q) :
    EnsuresAt t (sees k >>= f) Q := by
  rintro s b s' hs rfl hb
  exact h hs rfl hb

theorem get {f : Stream → Parser β} (h : ∀ s, EnsuresAt t (f s) Q) :
    EnsuresAt t (MonadState.get >>= f) Q := fun s _ _ hs ht hb => h s hs ht hb

theorem spanFrom {first : Span} {f : Span → Parser β} (h : ∀ sp, EnsuresAt t (f sp) Q) :
    EnsuresAt t (spanFrom first >>= f) Q := fun s _ _ hs ht hb => h (first.upTo s.last.span) hs ht hb

theorem skip {f : Bool → Parser β} (h : ∀ b, Ensures (f b) Q) : EnsuresAt t (skip k >>= f) Q := by
  have hskip : EnsuresAt t (Parser.skip k) fun _ => True := by
    rw [Parser.skip]
    exact .sees (.ite (fun _ => .advance fun _ _ => .pure trivial) fun _ => .pure trivial)
  exact hskip.bind fun b _ => h b

theorem expect {f : Token → Parser β} (h : ∀ t, Ensures (f t) Q) :
    EnsuresAt t (expect k >>= f) Q := by
  have hexpect : EnsuresAt t (Parser.expect k) fun _ => True := by
    rw [Parser.expect]
    refine .sees (.ite (fun _ => ?_) fun _ => .fail)
    rintro s a s' hs - ha
    cases ha
    exact ⟨hs.next, trivial⟩
  exact hexpect.bind fun b _ => h b

theorem expectName {f : Text → Parser β} (h : ∀ n : Text, n.isName = true → Ensures (f n) Q) :
    EnsuresAt t (expectName >>= f) Q := by
  have hname : EnsuresAt t Parser.expectName fun n => n.isName = true := by
    rw [Parser.expectName]
    refine .peek fun ht => .ite (fun _ => .fail) fun _ => .ite (fun hk => ?_) fun _ => .fail
    exact .advance fun _ _ => .pure (ht.name (eq_of_beq hk))
  exact hname.bind h

theorem mono {P' : α → Prop} (hx : EnsuresAt t x P) (hP : ∀ a, P a → P' a) : EnsuresAt t x P' :=
  fun _ _ _ hs ht ha => ⟨(hx hs ht ha).1, hP _ (hx hs ht ha).2⟩

theorem map {F : α → β} (hx : EnsuresAt t x P) (hF : ∀ a, P a → Q (F a)) :
    EnsuresAt t (x >>= fun a => Pure.pure (F a)) Q :=
  hx.bind fun a ha _ => .pure (hF a ha)

end EnsuresAt

theorem ensures_commaList {c : Kind} {item : Parser α} {P : α → Prop} (h : Ensures item P) :
    ∀ n, Ensures (commaList c item n) fun as => ∀ a ∈ as, P a
  | 0 => fun _ => .fail
  | n + 1 => fun t => by
    rw [commaList]
    refine .sees (.ite (fun _ => .pure (List.forall_mem_nil _)) fun _ => (h t).bind fun a ha t => .skip fun b t => ?_)
    refine .ite (fun _ => ?_) fun _ => .pure (by simpa using ha)
    exact ((ensures_commaList h n) t).map fun as has => List.forall_mem_cons.2 ⟨ha, has⟩

/-! ### Types and signatures -/

theorem ensures_type : ∀ n, Ensures (type n) fun a => a.isSpellable = true
  | 0 => fun _ => .fail
  | n + 1 => fun t => by
    rw [type]
    refine .peek fun ht => ?_
    split
    · rename_i hk
      exact .advance fun _ _ => .pure (ht.name hk)
    · exact .advance fun _ _ => .pure (rfl : Text.isName "Nil" = true)
    · refine .advance fun _ _ => .expect fun _ t => (ensures_type n t).bind fun a ha _ => ?_
      exact .spanFrom fun _ => .pure ha
    · exact .fail

theorem ensures_ascription (n : Nat) :
    Ensures ( annotation n) fun a => a.all TypeExpr.isSpellable = true := fun t => by
  rw [ annotation]
  refine .skip fun _ t => .ite (fun _ => ?_) fun _ => .pure rfl
  exact (ensures_type n t).map fun _ ha => ha

theorem ensures_param (n : Nat) : Ensures (param n) fun p => p.isSpellable = true := fun t => by
  rw [param]
  refine .expectName fun name hname t => (ensures_ascription n t).map fun a ha => ?_
  rw [Param.isSpellable, hname, ha]
  rfl

end Parser

/-- Whether the tree of a phrase is spellable. -/
def Phrase.IsSpellable : (p : Phrase) → p.Tree → Prop
  | .expr _ | .operand => fun e => Every.expr .spellable e = true
  | .stmt => fun s => Every.stmt .spellable s = true
  | .block => fun b => Every.block .spellable b = true
  | .cond => fun c => Every.cond .spellable c = true

/-- Readers that give spellable trees. -/
def Rules.AreSpellable (rules : Rules) : Prop := ∀ p, Parser.Ensures (rules p) p.IsSpellable

namespace Rules.AreSpellable

open ScriptLang.Parser

variable {rules : Rules} (h : rules.AreSpellable) (n : Nat)
include h

theorem expr (least : Nat) : Ensures (rules.expr least) fun e => Every.expr .spellable e = true :=
  h (.expr least)

theorem block : Ensures rules.block fun b => Every.block .spellable b = true := h .block

theorem signature : Ensures (signature rules n) fun f => f.1.all Param.isSpellable = true ∧
    f.2.1.all TypeExpr.isSpellable = true ∧ Every.block .spellable f.2.2 = true := fun t => by
  rw [Parser.signature]
  refine .expect fun _ t => (ensures_commaList (ensures_param n) n t).bind fun ps hps t => ?_
  refine .expect fun _ t => (ensures_ascription n t).bind fun r hr t => (h.block t).map fun b hb => ?_
  exact ⟨List.all_eq_true.2 hps, hr, hb⟩

theorem namedFunction : Ensures (namedFunction rules n) fun f => f.name.isName = true ∧
    Every.function .spellable f = true := fun t => by
  rw [Parser.namedFunction]
  refine .advance fun _ _ => .expectName fun name hname t => (h.signature n t).bind fun f hf _ => ?_
  obtain ⟨params, result, body⟩ := f
  refine .spanFrom fun _ => .pure ⟨hname, ?_⟩
  exact Bool.and_eq_true_iff.2 ⟨Bool.and_eq_true_iff.2 ⟨hf.1, hf.2.1⟩, hf.2.2⟩

/-! ### Operands -/

theorem exprs (c : Kind) :
    Ensures (commaList c (rules.expr 0) n) fun es => Every.exprs .spellable es = true := fun t =>
  (ensures_commaList (h.expr 0) n t).mono fun es hes => by
    rwa [Every.exprs_eq_all, List.all_eq_true]

theorem arguments : Ensures (arguments rules n) fun es => Every.exprs .spellable es = true :=
  fun t => by
    rw [Parser.arguments]
    exact .advance fun _ t => (h.exprs n .rparen t).bind fun es hes t => .expect fun _ _ => .pure hes

theorem arrayLiteral : Ensures (arrayLiteral rules n) fun e => Every.expr .spellable e = true :=
  fun t => by
    rw [Parser.arrayLiteral]
    refine .advance fun _ t => (h.exprs n .rbracket t).bind fun es hes t => .expect fun _ _ => ?_
    exact .spanFrom fun _ => .pure hes

theorem entry : Ensures (entry rules) fun p => Every.expr .spellable p.2 = true := fun t => by
  rw [Parser.entry]
  refine .peek fun _ => .ite (fun _ => .advance fun _ t => .expect fun _ t => ?_) fun _ => .fail
  exact (h.expr 0 t).map fun e he => he

theorem objectLiteral : Ensures (objectLiteral rules n) fun e => Every.expr .spellable e = true :=
  fun t => by
    rw [Parser.objectLiteral]
    refine .advance fun _ t => (ensures_commaList h.entry n t).bind fun es hes t => ?_
    refine .expect fun _ _ => .spanFrom fun _ => .pure ?_
    change Every.entries .spellable es = true
    rw [Every.entries_eq_all, List.all_eq_true]
    exact hes

theorem group : Ensures (group rules) fun e => Every.expr .spellable e = true := fun t => by
  rw [Parser.group]
  exact .advance fun _ t => (h.expr 0 t).bind fun e he t => .expect fun _ _ => .pure he

theorem functionLiteral : Ensures (functionLiteral rules n) fun e => Every.expr .spellable e = true :=
  fun t => by
    rw [Parser.functionLiteral]
    refine .advance fun _ t => (h.signature n t).bind fun f hf _ => ?_
    obtain ⟨params, result, body⟩ := f
    refine .spanFrom fun _ => .pure ?_
    exact Bool.and_eq_true_iff.2 ⟨rfl,
      Bool.and_eq_true_iff.2 ⟨Bool.and_eq_true_iff.2 ⟨hf.1, hf.2.1⟩, hf.2.2⟩⟩

omit h in
theorem property {e : Expr} (he : Every.expr .spellable e = true) :
    Ensures (property e) fun c => Every.expr .spellable c = true := fun t => by
  rw [Parser.property]
  refine .advance fun _ t => .peek fun ht => .ite (fun hk => ?_) fun _ => .fail
  refine .advance fun _ _ => .spanFrom fun _ => .pure ?_
  exact Bool.and_eq_true_iff.2 ⟨Token.isWord_of_isGenuine ht hk, he⟩

omit h in
theorem properties : ∀ (n : Nat) (e : Expr), Every.expr .spellable e = true →
    Ensures (properties n e) fun c => Every.expr .spellable c = true
  | 0, _, _ => fun _ => .fail
  | n + 1, e, he => fun t => by
    rw [Parser.properties]
    refine .sees (.ite (fun _ => ?_) fun _ => .pure he)
    exact (property he t).bind fun c hc => properties n c hc

theorem construction : Ensures (construction rules n) fun e => Every.expr .spellable e = true :=
  fun t => by
    rw [Parser.construction]
    refine .advance fun _ t => .peek fun _ => .ite (fun _ => ?_) fun _ => .fail
    refine (h .operand t).bind fun c hc t => (properties n c hc t).bind fun c hc t => ?_
    refine .sees (.ite (fun _ => (h.arguments n t).bind fun es hes _ => ?_) fun _ => .fail)
    refine .spanFrom fun _ => .spanFrom fun _ => .pure ?_
    exact Bool.and_eq_true_iff.2 ⟨Bool.and_eq_true_iff.2 ⟨rfl, hc⟩, hes⟩

/-! ### Choices -/

theorem armReader {pattern : Option Expr} (hp : pattern.all (Every.expr .spellable) = true)
    (first : Span) : Ensures (armReader rules first pattern) fun a => Every.arm .spellable a = true :=
  fun t => by
    have harm {sp : Span} {body : ArmBody} (hb : Every.armBody .spellable body = true) :
        Every.arm .spellable ⟨sp, pattern, body⟩ = true := by
      cases pattern with
      | none => exact hb
      | some e => exact Bool.and_eq_true_iff.2 ⟨hp, hb⟩
    refine .sees (.ite (fun _ => (h.block t).bind fun b hb _ => .pureBind ?_) fun _ =>
      .peek fun _ => (h.expr 0 t).bind fun e he _ => .spanFrom fun _ => .pureBind ?_)
    · exact .spanFrom fun _ => .pure (harm hb)
    · exact .spanFrom fun _ => .pure (harm he)

theorem matchArm : Ensures (matchArm rules) fun a => Every.arm .spellable a = true := fun t => by
  rw [Parser.matchArm]
  refine .peek fun _ => .get fun s => .ite (fun _ => .advance fun _ _ => .pureBind ?_) fun _ => ?_
  · exact .expect fun _ => h.armReader rfl t.span
  · refine (h.expr 0 t).bind fun e he _ => .pureBind (.expect fun _ => h.armReader ?_ t.span)
    exact he

theorem matchArms : ∀ n, Ensures (matchArms rules n) fun as => Every.arms .spellable as = true
  | 0 => fun _ => .fail
  | n + 1 => fun t => by
    rw [Parser.matchArms]
    refine .sees (.ite (fun _ => .pure rfl) fun _ => (h.matchArm t).bind fun a ha t => .skip fun b t =>
      .ite (fun _ => (matchArms n t).map fun as has => ?_) fun _ => .pure ?_)
    · exact Bool.and_eq_true_iff.2 ⟨ha, has⟩
    · exact Bool.and_eq_true_iff.2 ⟨ha, rfl⟩

theorem choice : Ensures (choice rules n) fun m => Every.choice .spellable m = true := fun t => by
  rw [Parser.choice]
  refine .advance fun _ t => (h.expr 0 t).bind fun e he t => .expect fun _ t =>
    (h.matchArms n t).bind fun as has t => .expect fun _ _ => .spanFrom fun _ => .pure ?_
  exact Bool.and_eq_true_iff.2 ⟨he, has⟩

/-! ### Expressions -/

omit h in
theorem unary_known : ∀ k ∈ [Kind.minus, .bang, .kwTypeof, .kwDelete],
    UnaryOp.known.contains (.ofSpelling k.name) = true ∧ k ∉ [Kind.eof, .number, .string, .ident] := by
  decide

theorem unary {t : Token} (hk : t.kind ∈ [Kind.minus, .bang, .kwTypeof, .kwDelete]) :
    EnsuresAt t (unary rules) fun e => Every.expr .spellable e = true := by
  obtain ⟨hknown, hclass⟩ := unary_known t.kind hk
  rw [Parser.unary]
  refine .advance fun ht t' => (h.expr _ t').bind fun e he _ => .spanFrom fun _ => .pure ?_
  rw [ht.spelling hclass]
  exact Bool.and_eq_true_iff.2 ⟨hknown, he⟩

theorem operand : Ensures (Parser.operand rules n) fun e => Every.expr .spellable e = true := fun t => by
  rw [Parser.operand]
  refine .peek fun ht => ?_
  split
  · rename_i hk
    rw [numberLiteral]
    refine .peek fun _ => ?_
    split
    · rename_i v hv
      exact .advance fun _ _ => .pure (Number.read?_isLiteral (ht.number hk) hv)
    · exact .fail
  · exact .advance fun _ _ => .pure rfl
  · exact .advance fun _ _ => .pure rfl
  · exact .advance fun _ _ => .pure rfl
  · exact .advance fun _ _ => .pure rfl
  · rename_i hk
    exact .advance fun _ _ => .pure (ht.name hk)
  · exact h.group t
  · exact h.arrayLiteral n t
  · exact h.objectLiteral n t
  · exact h.unary (by simp_all)
  · exact h.unary (by simp_all)
  · exact h.unary (by simp_all)
  · exact h.unary (by simp_all)
  · exact h.functionLiteral n t
  · exact (h.choice n t).map fun m hm => hm
  · exact h.construction n t
  · exact .fail

omit h in
theorem power_class (k : Kind) : k.power?.isSome → k ∉ [Kind.eof, .number, .string, .ident] := by
  cases k <;> decide

omit h in
theorem power_known (k : Kind) : k.power?.isSome →
    k ∉ [.lparen, .lbracket, .dot, .plusPlus, .minusMinus, .dotDot] →
    if k.isAssignment then AssignOp.known.contains (.ofSpelling k.name) = true
    else BinaryOp.known.contains (.ofSpelling k.name) = true := by
  cases k <;> decide

theorem extend {t : Token} (hk : t.kind.power?.isSome) (right : Nat) {left : Expr}
    (hl : Every.expr .spellable left = true) :
    EnsuresAt t (extend rules n right left) fun e => Every.expr .spellable e = true := by
  have hnode {sp : Span} {op : StepOp} (hop : op = .up ∨ op = .down) :
      Every.expr .spellable (.step sp op left) = true := by
    refine Bool.and_eq_true_iff.2 ⟨?_, hl⟩
    rcases hop with rfl | rfl <;> rfl
  rw [Parser.extend]
  refine .peek fun ht => ?_
  have hvalue := ht.spelling (power_class t.kind hk)
  split
  · refine (h.arguments n t).bind fun es hes _ => .spanFrom fun _ => .pure ?_
    exact Bool.and_eq_true_iff.2 ⟨Bool.and_eq_true_iff.2 ⟨rfl, hl⟩, hes⟩
  · refine .advance fun _ t => (h.expr 0 t).bind fun e he t => .expect fun _ _ => .spanFrom fun _ =>
      .pure ?_
    exact Bool.and_eq_true_iff.2 ⟨Bool.and_eq_true_iff.2 ⟨rfl, hl⟩, he⟩
  · exact property hl t
  · rename_i heq
    rw [hvalue, heq]
    exact .advance fun _ _ => .spanFrom fun _ => .pure (hnode (.inl rfl))
  · rename_i heq
    rw [hvalue, heq]
    exact .advance fun _ _ => .spanFrom fun _ => .pure (hnode (.inr rfl))
  · refine .advance fun _ t => (h.expr right t).bind fun e he _ => .spanFrom fun _ => .pure ?_
    exact Bool.and_eq_true_iff.2 ⟨Bool.and_eq_true_iff.2 ⟨rfl, hl⟩, he⟩
  · have hknown := power_known t.kind hk (by simp_all)
    rw [hvalue]
    refine .advance fun _ t' => (h.expr right t').bind fun e he _ => .ite (fun ha => ?_) fun ha => ?_
    · rw [if_pos ha] at hknown
      exact .spanFrom fun _ => .pure (Bool.and_eq_true_iff.2 ⟨Bool.and_eq_true_iff.2 ⟨hknown, hl⟩, he⟩)
    · rw [if_neg ha] at hknown
      exact .spanFrom fun _ => .pure (Bool.and_eq_true_iff.2 ⟨Bool.and_eq_true_iff.2 ⟨hknown, hl⟩, he⟩)

theorem climb (least : Nat) : ∀ (n : Nat) (left : Expr), Every.expr .spellable left = true →
    Ensures (climb rules least n left) fun e => Every.expr .spellable e = true
  | 0, _, _ => fun _ => .fail
  | n + 1, left, hl => fun t => by
    rw [Parser.climb]
    refine .peek fun ht => ?_
    split
    · exact .pure hl
    · rename_i power hp
      refine .ite (fun _ => .pure hl) fun _ => ?_
      exact (h.extend n (by rw [hp]; rfl) _ hl).bind fun e he => climb least n e he

/-! ### Statements -/

theorem statements : ∀ n, Ensures (statements rules n) fun ss => Every.stmts .spellable ss = true
  | 0 => fun _ => .fail
  | n + 1 => fun t => by
    rw [Parser.statements]
    refine .skip fun _ t => .ite (fun _ => .pure rfl) fun _ => .sees (.ite (fun _ => .fail) fun _ =>
      (h .stmt t).bind fun s hs t => (statements n t).map fun ss hss => ?_)
    exact Bool.and_eq_true_iff.2 ⟨hs, hss⟩

theorem blockRule : Ensures (Parser.block rules n) fun b => Every.block .spellable b = true :=
  fun t => by
    rw [Parser.block]
    exact .expect fun _ t => (h.statements n t).bind fun ss hss _ => .spanFrom fun _ => .pure hss

theorem exprStmt : Ensures (exprStmt rules) fun s => Every.stmt .spellable s = true := fun t => by
  rw [Parser.exprStmt]
  refine .peek fun _ => (h.expr 0 t).bind fun e he t => .expect fun _ _ => .spanFrom fun _ => .pure ?_
  exact he

theorem declaration : Ensures (declaration rules n) fun s => Every.stmt .spellable s = true :=
  fun t => by
    rw [Parser.declaration]
    refine .advance fun _ t => .expectName fun name hname t => (ensures_ascription n t).bind
      fun a ha t => .skip fun _ t => .ite (fun _ => (h.expr 0 t).bind fun e he _ => .pureBind ?_)
      fun _ => .pureBind ?_
    · refine .expect fun _ _ => .spanFrom fun _ => .pure ?_
      exact Bool.and_eq_true_iff.2 ⟨Bool.and_eq_true_iff.2 ⟨hname, ha⟩, he⟩
    · refine .expect fun _ _ => .spanFrom fun _ => .pure ?_
      exact Bool.and_eq_true_iff.2 ⟨hname, ha⟩

theorem condRule : Ensures (Parser.cond rules) fun c => Every.cond .spellable c = true := fun t => by
  rw [Parser.cond]
  refine .advance fun _ t => (h.expr 0 t).bind fun e he t => (h.block t).bind fun b hb t => .skip
    fun _ t => .ite (fun _ => .sees (.ite (fun _ => ?_) fun _ => ?_)) fun _ => .pureBind ?_
  · refine (h .cond t).bind fun c hc _ => .pureBind (.spanFrom fun _ => .pure ?_)
    exact Bool.and_eq_true_iff.2 ⟨Bool.and_eq_true_iff.2 ⟨he, hb⟩, hc⟩
  · refine (h.block t).bind fun c hc _ => .pureBind (.spanFrom fun _ => .pure ?_)
    exact Bool.and_eq_true_iff.2 ⟨Bool.and_eq_true_iff.2 ⟨he, hb⟩, hc⟩
  · exact .spanFrom fun _ => .pure (Bool.and_eq_true_iff.2 ⟨he, hb⟩)

omit h in
theorem importStmt : Ensures importStmt fun s => Every.stmt .spellable s = true := fun t => by
  have hpath (first : Span) (name : Text) (wildcard : Bool)
      (hn : (if wildcard then name.isEmpty else name.isName) = true) :
      Ensures (RereadStmt.pathReader first name wildcard)
        fun s => Every.stmt .spellable s = true := fun t => by
    have hstmt (sp : Span) (path : Text) :
        Every.stmt .spellable (.importing sp name wildcard path) = true := hn
    refine .skip fun _ t => .ite (fun _ => .expect fun _ _ => .pureBind ?_) fun _ => .ite
      (fun _ => .failBind) fun _ => .pureBind ?_
    · exact .expect fun _ _ => .spanFrom fun _ => .pure (hstmt _ _)
    · exact .expect fun _ _ => .spanFrom fun _ => .pure (hstmt _ _)
  rw [Parser.importStmt]
  refine .advance fun _ t' => .skip fun wildcard t' => ?_
  cases wildcard with
  | true => exact .pureBind (hpath t.span [] true rfl t')
  | false => exact .expectName fun name hname => hpath t.span name false hname

theorem foreachStmt : Ensures (foreachStmt rules) fun s => Every.stmt .spellable s = true :=
  fun t => by
    have htail {first : Span} {value index : Text} (hv : value.isName = true)
        (hi : (index.isEmpty || index.isName) = true) :
        Ensures (do
          let _ ← expect .kwIn
          let iterable ← rules.expr 0
          let body ← rules.block
          return Stmt.foreachLoop (← spanFrom first) value index iterable body)
          fun s => Every.stmt .spellable s = true := fun t => by
      refine .expect fun _ t => (h.expr 0 t).bind fun e he t => (h.block t).bind fun b hb _ =>
        .spanFrom fun _ => .pure ?_
      exact Bool.and_eq_true_iff.2 ⟨Bool.and_eq_true_iff.2 ⟨Bool.and_eq_true_iff.2 ⟨hv, hi⟩, he⟩, hb⟩
    rw [Parser.foreachStmt]
    refine .advance fun _ _ => .expectName fun value hv _ => .skip fun _ t' => .ite (fun _ => ?_)
      fun _ => .pureBind (htail hv rfl t')
    exact .expectName fun index hi => htail hv (by rw [hi, Bool.or_true])

theorem whileStmt : Ensures (whileStmt rules) fun s => Every.stmt .spellable s = true := fun t => by
  rw [Parser.whileStmt]
  refine .advance fun _ t => (h.expr 0 t).bind fun e he t => (h.block t).bind fun b hb _ =>
    .spanFrom fun _ => .pure ?_
  exact Bool.and_eq_true_iff.2 ⟨he, hb⟩

theorem members : ∀ n, Ensures (members rules n) fun r => r.1.all Param.isSpellable = true ∧
    (r.2.all fun m => m.name.isName) = true ∧ Every.functions .spellable r.2 = true
  | 0 => fun _ => .fail
  | n + 1 => fun t => by
    have hfield {p : Param} (hp : p.isSpellable = true) :
        Ensures (Parser.members rules n >>= fun r => pure (p :: r.1, r.2)) fun r => r.1.all Param.isSpellable = true ∧
            (r.2.all fun m => m.name.isName) = true ∧ Every.functions .spellable r.2 = true :=
      fun t => (members n t).bind fun r hr _ =>
        .pure ⟨Bool.and_eq_true_iff.2 ⟨hp, hr.1⟩, hr.2⟩
    rw [Parser.members]
    refine .sees (.ite (fun _ => .pure ⟨rfl, rfl, rfl⟩) fun _ => .sees (.ite (fun _ => ?_) fun _ => ?_))
    · refine (h.namedFunction n t).bind fun m hm t => (members n t).bind fun r hr _ => .pure ?_
      exact ⟨hr.1, Bool.and_eq_true_iff.2 ⟨hm.1, hr.2.1⟩, Bool.and_eq_true_iff.2 ⟨hm.2, hr.2.2⟩⟩
    · refine (ensures_param n t).bind fun p hp _ => .skip fun _ t => .ite (fun _ => hfield hp t) fun _ => ?_
      exact .expect fun _ => hfield hp

theorem structDecl : Ensures (structDecl rules n) fun s => Every.stmt .spellable s = true :=
  fun t => by
    rw [Parser.structDecl]
    refine .advance fun _ _ => .expectName fun name hname _ => .expect fun _ t => (h.members n t).bind
      fun r hr _ => .advance fun _ _ => .spanFrom fun _ => .pure ?_
    refine Bool.and_eq_true_iff.2 ⟨?_, hr.2.2⟩
    exact Bool.and_eq_true_iff.2 ⟨Bool.and_eq_true_iff.2 ⟨hname, hr.1⟩, hr.2.1⟩

omit h in
theorem enumDecl : Ensures (enumDecl n) fun s => Every.stmt .spellable s = true := fun t => by
  have hname : Ensures expectName fun n => n.isName = true := fun t => by
    have : EnsuresAt t (expectName >>= fun n => pure n) fun n => n.isName = true :=
      .expectName fun n hn _ => .pure hn
    rwa [bind_pure] at this
  rw [Parser.enumDecl]
  refine .advance fun _ _ => .expectName fun name hn _ => .expect fun _ t =>
    (ensures_commaList hname n t).bind fun ms hms _ => .expect fun _ _ => .spanFrom fun _ => .pure ?_
  exact Bool.and_eq_true_iff.2 ⟨hn, List.all_eq_true.2 hms⟩

theorem chooseStmt : Ensures (chooseStmt rules n) fun s => Every.stmt .spellable s = true :=
  fun t => by
    rw [Parser.chooseStmt]
    exact .peek fun _ => (h.choice n t).bind fun m hm _ => .skip fun _ _ => .spanFrom fun _ => .pure hm

theorem returnStmt : Ensures (returnStmt rules) fun s => Every.stmt .spellable s = true :=
  fun t => by
    rw [Parser.returnStmt]
    refine .advance fun _ t => .sees (.ite (fun _ => .pureBind ?_) fun _ => (h.expr 0 t).bind
      fun e he _ => .pureBind ?_)
    · exact .expect fun _ _ => .spanFrom fun _ => .pure rfl
    · exact .expect fun _ _ => .spanFrom fun _ => .pure he

omit h in
theorem wordStmt {make : Span → Stmt} (hmake : ∀ sp, Every.stmt .spellable (make sp) = true) :
    Ensures (wordStmt make) fun s => Every.stmt .spellable s = true := fun t => by
  rw [Parser.wordStmt]
  exact .advance fun _ _ => .expect fun _ _ => .spanFrom fun _ => .pure (hmake _)

theorem statement : Ensures (statement rules n) fun s => Every.stmt .spellable s = true :=
  fun t => by
    rw [Parser.statement]
    refine .peek fun _ => ?_
    split
    · exact (h.block t).map fun b hb => hb
    · exact h.declaration n t
    · exact h.declaration n t
    · refine .get fun s => .ite (fun _ => h.exprStmt t) fun _ => (h.namedFunction n t).map fun f hf => ?_
      exact Bool.and_eq_true_iff.2 hf
    · exact (h .cond t).map fun c hc => hc
    · exact importStmt t
    · exact h.foreachStmt t
    · exact h.whileStmt t
    · exact h.structDecl n t
    · exact enumDecl n t
    · exact h.chooseStmt n t
    · exact wordStmt (fun _ => rfl) t
    · exact wordStmt (fun _ => rfl) t
    · exact h.returnStmt t
    · exact h.exprStmt t

end Rules.AreSpellable

/-! ### Programs -/

open ScriptLang.Parser

theorem Rules.areSpellable_ofDepth : ∀ d, (Rules.ofDepth d).AreSpellable
  | 0 => fun _ _ => .fail
  | d + 1 => by
    have h := Rules.areSpellable_ofDepth d
    intro p
    cases p with
    | expr least => exact fun t => (h .operand t).bind fun e he => h.climb least d e he
    | operand => exact h.operand d
    | stmt => exact h.statement d
    | block => exact h.blockRule d
    | cond => exact h.condRule

theorem ensures_program {rules : Rules} (h : rules.AreSpellable) :
    ∀ n, Ensures (Parser.program rules n) fun ss => Every.stmts .spellable ss = true
  | 0 => fun _ => .fail
  | n + 1 => fun t => by
    rw [Parser.program]
    refine .sees (.ite (fun _ => .pure rfl) fun _ => (h .stmt t).bind fun s hs t =>
      (ensures_program h n t).map fun ss hss => ?_)
    exact Bool.and_eq_true_iff.2 ⟨hs, hss⟩

theorem Stream.isGenuine_ofTokens {ts : List Token} (h : ∀ t ∈ ts, t.IsGenuine) :
    (Stream.ofTokens ts).IsGenuine := by
  have heof : Token.IsGenuine ⟨.eof, [], {}⟩ := trivial
  have hclosed : ∀ t ∈ (if (ts.getLast?.map Token.kind) = some .eof then ts
      else ts ++ [⟨.eof, [], {}⟩]), t.IsGenuine := by
    split
    · exact h
    · exact List.forall_mem_append.2 ⟨h, List.forall_mem_singleton.2 heof⟩
  rw [Stream.ofTokens]
  split
  · rename_i t r heq
    rw [heq] at hclosed
    exact List.forall_mem_cons.1 hclosed
  · exact ⟨heof, nofun⟩

/-- The reader of a whole program. -/
def programReader (depth : Nat) : Parser Block := do
  let first ← Parser.peek
  let body ← Parser.program (Rules.ofDepth depth) depth
  let last ← Parser.peek
  return ⟨first.span.upTo last.span, body⟩

theorem Program.ofTokens_eq_ok {ts : List Token} {p : Block} : Program.ofTokens ts = .ok p ↔
    ∃ s, programReader (Stream.ofTokens ts).depth (Stream.ofTokens ts) = .ok (p, s) := by
  change (programReader _ _).map Prod.fst = .ok p ↔ _
  cases programReader (Stream.ofTokens ts).depth (Stream.ofTokens ts) with
  | error e => simp [Except.map]
  | ok r => simp [Except.map, Prod.ext_iff]

/-- Every program that is read from a text is spellable. -/
theorem Program.spellable_of_parse {source file : Text} {p : Block}
    (h : Program.parse source file = .ok p) : Program.spellable p = true := by
  rw [Program.parse] at h
  split at h
  · rename_i ts hts
    obtain ⟨s, hs⟩ := Program.ofTokens_eq_ok.1 h
    have hread (d : Nat) : Ensures (programReader d) fun b => Program.spellable b = true := fun t =>
      .peek fun _ => (ensures_program (Rules.areSpellable_ofDepth d) d t).bind fun ss hss _ =>
        .peek fun _ => .pure hss
    exact (hread _ _ (Stream.isGenuine_ofTokens (Token.isGenuine_scan hts)) rfl hs).2
  · cases h

end ScriptLang
