import ScriptLang.Proofs.Syntax.Ensured
import ScriptLang.Proofs.Syntax.Steps

/-!
# Strings in a row

No program has two strings in a row (`Program.not_doubled_of_ofTokens`). A string is an operand, a
key or a path. Behind a key stands a colon, behind a path a semicolon, and an operand is followed by
an operator or by the mark or block that comes after its expression.

A stream is followed to the place where two strings meet. `Parser.KeepsAt t b x after` says that the
reader `x` before the token `t` does not pass the second one: both are ahead of it in the end if
`after` says so for its result, and else the second one is. What starts with an operand must be
started before the first string; for all other phrases, with `b := false`, it is enough to be before
the second one.
-/

namespace ScriptLang

/-- Whether two strings in a row are ahead of a stream. The first one may have been passed unless it
has to be ahead as well. -/
def Stream.Doubled (both : Bool) (s : Stream) : Prop :=
  (∃ ts u v us, s.current :: s.rest = ts ++ u :: v :: us ∧ u.kind = .string ∧ v.kind = .string ∧
    ∀ t ∈ ts, t.kind ≠ .eof) ∨ (both = false ∧ s.current.kind = .string)

namespace Stream.Doubled

variable {s : Stream} {b b' : Bool}

theorem mono (h : s.Doubled b) (hb : b' = true → b = true) : s.Doubled b' :=
  h.imp_right fun ⟨hfalse, hkind⟩ => ⟨by
    cases b' with
    | false => rfl
    | true => exact absurd (hb rfl) (by rw [hfalse]; exact Bool.false_ne_true), hkind⟩

/-- The strings are not behind the end. -/
theorem going (h : s.Doubled b) : s.current.kind ≠ .eof := by
  rcases h with ⟨ts, u, v, us, hs, hu, -, hts⟩ | ⟨-, hkind⟩
  · cases ts with
    | nil =>
      obtain ⟨rfl, -⟩ := List.cons.inj hs
      rw [hu]
      exact Kind.noConfusion
    | cons t ts =>
      obtain ⟨rfl, -⟩ := List.cons.inj hs
      exact hts _ List.mem_cons_self
  · rw [hkind]
    exact Kind.noConfusion

/-- A step passes at most the first string. -/
theorem next (h : s.Doubled true) : s.next.Doubled (s.current.kind != .string) := by
  rcases h with ⟨ts, u, v, us, hs, hu, hv, hts⟩ | ⟨hfalse, -⟩
  · obtain ⟨current, rest, index, last⟩ := s
    cases ts with
    | nil =>
      obtain ⟨rfl, rfl⟩ := List.cons.inj hs
      exact .inr ⟨by rw [hu]; rfl, hv⟩
    | cons t ts =>
      obtain ⟨rfl, rfl⟩ := List.cons.inj hs
      refine .inl ⟨ts, u, v, us, ?_, hu, hv, fun t ht => hts t (List.mem_cons_of_mem _ ht)⟩
      cases ts <;> rfl
  · cases hfalse

/-- A step over something else passes none of them. -/
theorem pass (h : s.Doubled b) (hkind : s.current.kind ≠ .string) : s.next.Doubled true := by
  have hboth : s.Doubled true := h.elim .inl fun h => absurd h.2 hkind
  exact hboth.next.mono fun _ => bne_iff_ne.2 hkind

end Stream.Doubled

/-- Whether an arm does what a block says. -/
def ArmBody.isBlock : ArmBody → Bool
  | .block _ => true
  | .value .. => false

namespace Parser

variable {α β : Type}

/-- What a reader before the token `t` keeps ahead of it when two strings in a row are there. -/
def KeepsAt (t : Token) (b : Bool) (x : Parser α) (after : α → Bool) : Prop :=
  ∀ ⦃s a s'⦄, s.Doubled b → s.current = t → x s = .ok (a, s') → s'.Doubled (after a)

/-- The same before every token. -/
def Keeps (b : Bool) (x : Parser α) (after : α → Bool) : Prop := ∀ t, KeepsAt t b x after

namespace KeepsAt

variable {t : Token} {b b' : Bool} {k : Kind} {x y : Parser α} {f : α → Parser β}
  {mid : α → Bool} {after : β → Bool}

theorem bind (hx : KeepsAt t b x mid) (hf : ∀ a, Keeps (mid a) (f a) after) :
    KeepsAt t b (x >>= f) after := by
  intro s c s' hs ht hc
  obtain ⟨a, s₁, ha, hc⟩ := bind_eq_ok.1 hc
  exact hf a _ (hx hs ht ha) rfl hc

theorem mono {mid' : α → Bool} (h : KeepsAt t b x mid) (hb : b = true → b' = true)
    (hmid : ∀ a, mid' a = true → mid a = true) : KeepsAt t b' x mid' :=
  fun _ _ _ hs ht ha => (h (hs.mono hb) ht ha).mono (hmid _)

theorem pure {a : α} (h : mid a = true → b = true) : KeepsAt t b (pure a) mid := by
  intro s a' s' hs _ ha
  cases ha
  exact hs.mono h

theorem fail {fault : Token → ParseFault} : KeepsAt t b (Parser.fail fault) mid := by
  intro s a s' _ _ h
  cases h

theorem failBind {fault : Token → ParseFault} : KeepsAt t b (Parser.fail fault >>= f) after := by
  intro s a s' _ _ h
  cases h

theorem ite {p : Prop} [Decidable p] (hx : p → KeepsAt t b x mid) (hy : ¬p → KeepsAt t b y mid) :
    KeepsAt t b (if p then x else y) mid := by
  split
  · exact hx ‹p›
  · exact hy ‹¬p›

theorem pureBind {a : α} (h : KeepsAt t b (f a) after) : KeepsAt t b (Pure.pure a >>= f) after := h

theorem peek {f : Token → Parser β} (h : KeepsAt t b (f t) after) :
    KeepsAt t b (peek >>= f) after := by
  rintro s c s' hs rfl hc
  exact h hs rfl hc

theorem sees {f : Bool → Parser β} (h : KeepsAt t b (f (t.kind == k)) after) :
    KeepsAt t b (sees k >>= f) after := by
  rintro s c s' hs rfl hc
  exact h hs rfl hc

theorem get {f : Stream → Parser β} (h : ∀ s, KeepsAt t b (f s) after) :
    KeepsAt t b (MonadState.get >>= f) after := fun s _ _ hs ht hc => h s hs ht hc

theorem spanFrom {first : Span} {f : Span → Parser β} (h : ∀ sp, KeepsAt t b (f sp) after) :
    KeepsAt t b (spanFrom first >>= f) after :=
  fun s _ _ hs ht hc => h (first.upTo s.last.span) hs ht hc

/-- Behind anything but a string both strings are still ahead. -/
theorem advance {f : Token → Parser β} (ht : t.kind ≠ .string) (h : Keeps true (f t) after) :
    KeepsAt t b (advance >>= f) after := by
  rintro s c s' hs rfl hc
  exact h _ (hs.pass ht) rfl hc

/-- Behind a string the second one may stand next. -/
theorem advanceAny {f : Token → Parser β} (h : Keeps false (f t) after) :
    KeepsAt t true (Parser.advance >>= f) after := by
  rintro s c s' hs rfl hc
  exact h _ (hs.next.mono Bool.noConfusion) rfl hc

theorem skip {f : Bool → Parser β} (hk : k ≠ .string) (htrue : Keeps true (f true) after)
    (hfalse : KeepsAt t b (f false) after) : KeepsAt t b (skip k >>= f) after := by
  have hskip : KeepsAt t b (Parser.skip k) fun passed => passed || b := by
    rw [Parser.skip]
    refine .sees (.ite (fun ht => ?_) fun _ => .pure id)
    exact .advance (by rwa [eq_of_beq ht]) fun _ => .pure fun _ => rfl
  rintro s c s' hs rfl hc
  obtain ⟨passed, s₁, hs₁, hrest⟩ := bind_eq_ok.1 hc
  have hdoubled := hskip hs rfl hs₁
  cases passed with
  | true => exact htrue _ hdoubled rfl hrest
  | false =>
    obtain rfl : s₁ = s := by
      simp only [Parser.skip, bind_apply, Parser.sees, Except.bind] at hs₁
      split at hs₁
      · cases hs₁
      · exact (congrArg Prod.snd (Except.ok.inj hs₁)).symm
    exact hfalse hs rfl hrest

theorem skipIte {y z : Parser β} (hk : k ≠ .string) (hy : Keeps true y after)
    (hz : KeepsAt t b z after) :
    KeepsAt t b (Parser.skip k >>= fun passed => if passed = true then y else z) after :=
  .skip hk (fun t => .ite (fun _ => hy t) fun h => absurd rfl h)
    (.ite (fun h => absurd h Bool.false_ne_true) fun _ => hz)

theorem expectAny {f : Token → Parser β} (h : ∀ t, Keeps false (f t) after) :
    KeepsAt t true (expect k >>= f) after := by
  have hexpect : KeepsAt t true (Parser.expect k) fun _ => false := by
    rw [Parser.expect]
    refine .sees (.ite (fun _ => ?_) fun _ => .fail)
    rw [← bind_pure Parser.advance]
    exact .advanceAny fun _ => .pure Bool.noConfusion
  exact hexpect.bind h

theorem expect {f : Token → Parser β} (hk : k ≠ .string) (h : ∀ t, Keeps true (f t) after) :
    KeepsAt t b (expect k >>= f) after := by
  have hexpect : KeepsAt t b (Parser.expect k) fun _ => true := by
    rw [Parser.expect]
    refine .sees (.ite (fun ht => ?_) fun _ => .fail)
    rw [← bind_pure Parser.advance]
    exact .advance (by rwa [eq_of_beq ht]) fun _ => .pure id
  exact hexpect.bind h

theorem expectName {f : Text → Parser β} (h : ∀ n, Keeps true (f n) after) :
    KeepsAt t b (expectName >>= f) after := by
  have hname : KeepsAt t b Parser.expectName fun _ => true := by
    rw [Parser.expectName]
    refine .peek (.ite (fun _ => .fail) fun _ => .ite (fun ht => ?_) fun _ => .fail)
    exact .advance (by rw [eq_of_beq ht]; exact Kind.noConfusion) fun _ => .pure id
  exact hname.bind h

end KeepsAt

/-! ### Lists, types and signatures -/

theorem keeps_commaList {close : Kind} {item : Parser α} (h : Keeps true item fun _ => false) :
    ∀ n, Keeps true (commaList close item n) fun _ => false
  | 0 => fun _ => .fail
  | n + 1 => fun t => by
    rw [commaList]
    refine .sees (.ite (fun _ => .pure Bool.noConfusion) fun _ => (h t).bind fun a t =>
      .skipIte (by decide) ?_ (.pure Bool.noConfusion))
    exact fun t => ((keeps_commaList h n) t).bind fun as _ => .pure Bool.noConfusion

theorem keeps_type {b : Bool} : ∀ n, Keeps b (type n) fun _ => true
  | 0 => fun _ => .fail
  | n + 1 => fun t => by
    rw [type]
    refine .peek ?_
    split
    · next ht => exact .advance (by rw [ht]; decide) fun _ => .pure id
    · next ht => exact .advance (by rw [ht]; decide) fun _ => .pure id
    · next ht =>
      refine .advance (by rw [ht]; decide) fun _ => .expect (by decide) fun _ t => ?_
      exact (keeps_type n t).bind fun a _ => .spanFrom fun _ => .pure id
    · exact .fail

theorem keeps_annotated (n : Nat) : Keeps true ( annotation n) fun _ => true := fun t => by
  rw [ annotation]
  exact .skipIte (by decide) (fun t => (keeps_type n t).bind fun a _ => .pure id) (.pure id)

theorem keeps_param {b : Bool} (n : Nat) : Keeps b (param n) fun _ => true := fun t => by
  rw [param]
  exact .expectName fun name t => (keeps_annotated n t).bind fun a _ => .pure id

end Parser

/-- Whether a phrase starts with an operand, or may do so. -/
def Phrase.opens : Phrase → Bool
  | .expr _ | .operand | .stmt => true
  | .block | .cond => false

/-- Whether a phrase never ends with an operand. -/
def Phrase.closes : Phrase → Bool
  | .expr _ | .operand => false
  | .stmt | .block | .cond => true

/-- Readers that do not pass the second one of two strings in a row. A conditional is read where its
word stands. -/
def Rules.KeepApart (rules : Rules) : Prop :=
  ∀ p t, (p = .cond → t.kind ≠ .string) → Parser.KeepsAt t p.opens (rules p) fun _ => p.closes

namespace Rules.KeepApart

open ScriptLang.Parser

variable {rules : Rules} {t : Token} {b : Bool} (h : rules.KeepApart) (n : Nat)
include h

theorem expr (least : Nat) : Keeps true (rules.expr least) fun _ => false := fun t =>
  h (.expr least) t Phrase.noConfusion

theorem stmt : Keeps true rules.stmt fun _ => true := fun t => h .stmt t Phrase.noConfusion

theorem block : Keeps b rules.block fun _ => true := fun t =>
  (h .block t Phrase.noConfusion).mono Bool.noConfusion fun _ => id

theorem cond (ht : t.kind ≠ .string) : KeepsAt t b rules.cond fun _ => true :=
  (h .cond t fun _ => ht).mono Bool.noConfusion fun _ => id

theorem signature : Keeps b (signature rules n) fun _ => true := fun t => by
  rw [Parser.signature]
  have hparam : Keeps true (param n) fun _ => false := fun t =>
    (keeps_param n t).mono id fun _ => Bool.noConfusion
  exact .expect (by decide) fun _ t => (keeps_commaList hparam n t).bind fun ps t =>
    .expect (by decide) fun _ t => (keeps_annotated n t).bind fun r t =>
      (h.block t).bind fun b _ => .pure id

theorem namedFunction (ht : t.kind ≠ .string) :
    KeepsAt t b (namedFunction rules n) fun _ => true := by
  rw [Parser.namedFunction]
  exact .advance ht fun _ => .expectName fun name t => (h.signature n t).bind fun f _ =>
    .spanFrom fun _ => .pure id

/-! ### Operands -/

theorem group (ht : t.kind ≠ .string) : KeepsAt t b (group rules) fun _ => true := by
  rw [Parser.group]
  exact .advance ht fun t => (h.expr 0 t).bind fun e t => .expect (by decide) fun _ _ => .pure id

theorem arrayLiteral (ht : t.kind ≠ .string) : KeepsAt t b (arrayLiteral rules n) fun _ => true := by
  rw [Parser.arrayLiteral]
  exact .advance ht fun t => (keeps_commaList (h.expr 0) n t).bind fun es t =>
    .expect (by decide) fun _ _ => .spanFrom fun _ => .pure id

theorem entry : Keeps true (entry rules) fun _ => false := fun t => by
  rw [Parser.entry]
  refine .peek (.ite (fun _ => .advanceAny fun _ => .expect (by decide) fun _ t => ?_) fun _ => .fail)
  exact (h.expr 0 t).bind fun e _ => .pure Bool.noConfusion

theorem objectLiteral (ht : t.kind ≠ .string) :
    KeepsAt t b (objectLiteral rules n) fun _ => true := by
  rw [Parser.objectLiteral]
  exact .advance ht fun t => (keeps_commaList h.entry n t).bind fun es t =>
    .expect (by decide) fun _ _ => .spanFrom fun _ => .pure id

theorem unary (ht : t.kind ≠ .string) : KeepsAt t b (unary rules) fun _ => false := by
  rw [Parser.unary]
  exact .advance ht fun t => (h.expr _ t).bind fun e _ => .spanFrom fun _ => .pure Bool.noConfusion

theorem functionLiteral (ht : t.kind ≠ .string) :
    KeepsAt t b (functionLiteral rules n) fun _ => true := by
  rw [Parser.functionLiteral]
  exact .advance ht fun t => (h.signature n t).bind fun f _ => .spanFrom fun _ => .pure id

omit h in
theorem property (ht : t.kind ≠ .string) (e : Expr) : KeepsAt t b (property e) fun _ => true := by
  rw [Parser.property]
  refine .advance ht fun t => .peek (.ite (fun hname => ?_) fun _ => .fail)
  refine .advance (fun hstring => ?_) fun _ => .spanFrom fun _ => .pure id
  rw [hstring] at hname
  exact absurd hname (by decide)

theorem arguments (ht : t.kind ≠ .string) : KeepsAt t b (arguments rules n) fun _ => true := by
  rw [Parser.arguments]
  exact .advance ht fun t => (keeps_commaList (h.expr 0) n t).bind fun es t =>
    .expect (by decide) fun _ _ => .pure id

omit h in
theorem properties : ∀ n e, Keeps false (properties n e) fun _ => false
  | 0, _ => fun _ => .fail
  | n + 1, e => fun t => by
    rw [Parser.properties]
    refine .sees (.ite (fun ht => ?_) fun _ => .pure Bool.noConfusion)
    have hkind : t.kind ≠ .string := by
      rw [eq_of_beq ht]
      decide
    exact (property hkind e).bind fun e t =>
      (properties n e t).mono Bool.noConfusion fun _ => Bool.noConfusion

theorem construction (ht : t.kind ≠ .string) : KeepsAt t b (construction rules n) fun _ => true := by
  rw [Parser.construction]
  refine .advance ht fun t => .peek (.ite (fun _ => ?_) fun _ => .fail)
  refine (h .operand t Phrase.noConfusion).bind fun c t => (properties n c t).bind fun c t =>
    .sees (.ite (fun ht => ?_) fun _ => .fail)
  have hkind : t.kind ≠ .string := by
    rw [eq_of_beq ht]
    decide
  exact (h.arguments n hkind).bind fun es _ => .spanFrom fun _ => .spanFrom fun _ => .pure id

/-! ### Choices -/

theorem armReader (first : Span) (pattern : Option Expr) :
    Keeps true (armReader rules first pattern) fun a => a.body.isBlock := fun t => by
  refine .sees (.ite (fun _ => (h.block t).bind fun b t => .pureBind ?_) fun _ =>
    .peek ((h.expr 0 t).bind fun e t => .spanFrom fun _ => .pureBind ?_))
  · exact .spanFrom fun _ => .pure id
  · exact .spanFrom fun _ => .pure id

theorem matchArm : Keeps true (matchArm rules) fun a => a.body.isBlock := fun t => by
  rw [Parser.matchArm]
  refine .peek (.get fun s => .ite (fun _ => .advanceAny fun _ => .pureBind ?_) fun _ => ?_)
  · exact .expect (by decide) fun _ => h.armReader t.span none
  · exact (h.expr 0 t).bind fun e _ => .pureBind (.expect (by decide) fun _ =>
      h.armReader t.span (some e))

theorem matchArms : ∀ n, Keeps true (matchArms rules n) fun _ => false
  | 0 => fun _ => .fail
  | n + 1 => fun t => by
    have hmore (a : MatchArm) : Keeps true (Parser.matchArms rules n >>= fun as => pure (a :: as))
        fun _ => false := fun t => (matchArms n t).bind fun as _ => .pure Bool.noConfusion
    rw [Parser.matchArms]
    refine .sees (.ite (fun _ => .pure Bool.noConfusion) fun _ => (h.matchArm t).bind fun a t => ?_)
    obtain ⟨first, pattern, body⟩ := a
    cases body with
    | block body => exact .skip (by decide) (hmore _) (hmore _ t)
    | value sp e => exact .skip (by decide) (hmore _) (.pure Bool.noConfusion)

theorem choice (ht : t.kind ≠ .string) : KeepsAt t b (choice rules n) fun _ => true := by
  rw [Parser.choice]
  exact .advance ht fun t => (h.expr 0 t).bind fun e t => .expect (by decide) fun _ t =>
    (h.matchArms n t).bind fun as t => .expect (by decide) fun _ _ => .spanFrom fun _ => .pure id

/-! ### Expressions -/

theorem operand : Keeps true (Parser.operand rules n) fun _ => false := fun t => by
  rw [Parser.operand]
  refine .peek ?_
  split
  · rw [numberLiteral]
    refine .peek ?_
    split
    · exact .advanceAny fun _ => .pure Bool.noConfusion
    · exact .fail
  · exact .advanceAny fun _ => .pure Bool.noConfusion
  · exact .advanceAny fun _ => .pure Bool.noConfusion
  · exact .advanceAny fun _ => .pure Bool.noConfusion
  · exact .advanceAny fun _ => .pure Bool.noConfusion
  · exact .advanceAny fun _ => .pure Bool.noConfusion
  · next ht => exact (h.group (by rw [ht]; decide)).mono id fun _ => Bool.noConfusion
  · next ht => exact (h.arrayLiteral n (by rw [ht]; decide)).mono id fun _ => Bool.noConfusion
  · next ht => exact (h.objectLiteral n (by rw [ht]; decide)).mono id fun _ => Bool.noConfusion
  · next ht => exact h.unary (by rw [ht]; decide)
  · next ht => exact h.unary (by rw [ht]; decide)
  · next ht => exact h.unary (by rw [ht]; decide)
  · next ht => exact h.unary (by rw [ht]; decide)
  · next ht => exact (h.functionLiteral n (by rw [ht]; decide)).mono id fun _ => Bool.noConfusion
  · next ht => exact (h.choice n (by rw [ht]; decide)).bind fun m _ => .pure Bool.noConfusion
  · next ht => exact (h.construction n (by rw [ht]; decide)).mono id fun _ => Bool.noConfusion
  · exact .fail

theorem extend (ht : t.kind ≠ .string) (right : Nat) (left : Expr) :
    KeepsAt t b (extend rules n right left) fun _ => false := by
  rw [Parser.extend]
  refine .peek ?_
  split
  · exact (h.arguments n ht).bind fun es _ => .spanFrom fun _ => .pure Bool.noConfusion
  · exact .advance ht fun t => (h.expr 0 t).bind fun e t => .expect (by decide) fun _ _ =>
      .spanFrom fun _ => .pure Bool.noConfusion
  · exact (property ht left).mono id fun _ => Bool.noConfusion
  · exact .advance ht fun _ => .spanFrom fun _ => .pure Bool.noConfusion
  · exact .advance ht fun _ => .spanFrom fun _ => .pure Bool.noConfusion
  · exact .advance ht fun t => (h.expr right t).bind fun e _ => .spanFrom fun _ => .pure Bool.noConfusion
  · refine .advance ht fun t => (h.expr right t).bind fun e _ => .ite (fun _ => ?_) fun _ => ?_
    · exact .spanFrom fun _ => .pure Bool.noConfusion
    · exact .spanFrom fun _ => .pure Bool.noConfusion

theorem climb (least : Nat) : ∀ n left, Keeps false (climb rules least n left) fun _ => false
  | 0, _ => fun _ => .fail
  | n + 1, left => fun t => by
    rw [Parser.climb]
    refine .peek ?_
    split
    · exact .pure Bool.noConfusion
    · next power hpower =>
      have ht : t.kind ≠ .string := fun ht => by
        rw [ht] at hpower
        cases hpower
      refine .ite (fun _ => .pure Bool.noConfusion) fun _ => ?_
      exact (h.extend n ht _ left).bind fun e => climb least n e

/-! ### Statements -/

theorem statements : ∀ n, Keeps true (statements rules n) fun _ => true
  | 0 => fun _ => .fail
  | n + 1 => fun t => by
    rw [Parser.statements]
    refine .skipIte (by decide) (fun _ => .pure id) (.sees (.ite (fun _ => .fail) fun _ => ?_))
    exact (h.stmt t).bind fun s t => (statements n t).bind fun ss _ => .pure id

theorem blockRule : Keeps b (Parser.block rules n) fun _ => true := fun t => by
  rw [Parser.block]
  exact .expect (by decide) fun _ t => (h.statements n t).bind fun ss _ => .spanFrom fun _ => .pure id

theorem exprStmt : Keeps true (exprStmt rules) fun _ => true := fun t => by
  rw [Parser.exprStmt]
  exact .peek ((h.expr 0 t).bind fun e t => .expect (by decide) fun _ _ => .spanFrom fun _ => .pure id)

theorem declaration (ht : t.kind ≠ .string) : KeepsAt t b (declaration rules n) fun _ => true := by
  rw [Parser.declaration]
  refine .advance ht fun _ => .expectName fun name t => (keeps_annotated n t).bind fun a t =>
    .skipIte (by decide) (fun t => (h.expr 0 t).bind fun e _ => .pureBind ?_) (.pureBind ?_)
  · exact .expect (by decide) fun _ _ => .spanFrom fun _ => .pure id
  · exact .expect (by decide) fun _ _ => .spanFrom fun _ => .pure id

theorem condRule (ht : t.kind ≠ .string) : KeepsAt t b (Parser.cond rules) fun _ => true := by
  rw [Parser.cond]
  refine .advance ht fun t => (h.expr 0 t).bind fun e t => (h.block t).bind fun b t => .skipIte (by decide)
    (fun t => .sees (.ite (fun ht => ?_) fun _ => ?_)) (.pureBind (.spanFrom fun _ => .pure id))
  · have hkind : t.kind ≠ .string := by
      rw [eq_of_beq ht]
      decide
    exact (h.cond hkind).bind fun c _ => .pureBind (.spanFrom fun _ => .pure id)
  · exact (h.block t).bind fun b _ => .pureBind (.spanFrom fun _ => .pure id)

omit h in
theorem importStmt (ht : t.kind ≠ .string) : KeepsAt t b importStmt fun _ => true := by
  have hpath (first : Span) (name : Text) (wildcard : Bool) :
      Keeps true (RereadStmt.pathReader first name wildcard) fun _ => true := fun t => by
    refine .skipIte (by decide) (fun _ => .expectAny fun _ _ => .pureBind ?_)
      (.ite (fun _ => .failBind) fun _ => .pureBind ?_)
    · exact .expect (by decide) fun _ _ => .spanFrom fun _ => .pure id
    · exact .expect (by decide) fun _ _ => .spanFrom fun _ => .pure id
  rw [Parser.importStmt]
  refine .advance ht fun t' => .skip (by decide) (fun t' => ?_) ?_
  · exact .pureBind (hpath t.span [] true t')
  · exact .expectName fun name => hpath t.span name false

theorem foreachStmt (ht : t.kind ≠ .string) : KeepsAt t b (foreachStmt rules) fun _ => true := by
  have htail {first : Span} {value index : Text} :
      Keeps true (do
        let _ ← expect .kwIn
        let iterable ← rules.expr 0
        let body ← rules.block
        return Stmt.foreachLoop (← spanFrom first) value index iterable body) fun _ => true := fun t =>
    .expect (by decide) fun _ t => (h.expr 0 t).bind fun e t => (h.block t).bind fun b _ =>
      .spanFrom fun _ => .pure id
  rw [Parser.foreachStmt]
  refine .advance ht fun _ => .expectName fun value t => .skipIte (by decide) (fun _ => ?_) (.pureBind (htail t))
  exact .expectName fun index => htail

theorem whileStmt (ht : t.kind ≠ .string) : KeepsAt t b (whileStmt rules) fun _ => true := by
  rw [Parser.whileStmt]
  exact .advance ht fun t => (h.expr 0 t).bind fun e t => (h.block t).bind fun b _ =>
    .spanFrom fun _ => .pure id

theorem members : ∀ n, Keeps true (members rules n) fun _ => true
  | 0 => fun _ => .fail
  | n + 1 => fun t => by
    have hfield (p : Param) : Keeps true (Parser.members rules n >>= fun r => pure (p :: r.1, r.2))
        fun _ => true := fun t => (members n t).bind fun r _ => .pure id
    rw [Parser.members]
    refine .sees (.ite (fun _ => .pure id) fun _ => .sees (.ite (fun ht => ?_) fun _ => ?_))
    · have hkind : t.kind ≠ .string := by
        rw [eq_of_beq ht]
        decide
      exact (h.namedFunction n hkind).bind fun f t => (members n t).bind fun r _ => .pure id
    · refine (keeps_param n t).bind fun p _ => .skipIte (by decide) (hfield p) ?_
      exact .expect (by decide) fun _ => hfield p

theorem structDecl (ht : t.kind ≠ .string) : KeepsAt t b (structDecl rules n) fun _ => true := by
  rw [structDecl_eq]
  exact .advance ht fun _ => .expectName fun name _ => .expect (by decide) fun _ t =>
    (h.members n t).bind fun r _ => .expect (by decide) fun _ _ => .spanFrom fun _ => .pure id

omit h in
theorem enumDecl (ht : t.kind ≠ .string) : KeepsAt t b (enumDecl n) fun _ => true := by
  have hname : Keeps true expectName fun _ => false := fun t => by
    have : KeepsAt t true (expectName >>= fun n => pure n) fun _ => false :=
      .expectName fun n _ => .pure Bool.noConfusion
    rwa [bind_pure] at this
  rw [Parser.enumDecl]
  exact .advance ht fun _ => .expectName fun name _ => .expect (by decide) fun _ t =>
    (keeps_commaList hname n t).bind fun ms _ => .expect (by decide) fun _ _ => .spanFrom fun _ => .pure id

theorem chooseStmt (ht : t.kind ≠ .string) : KeepsAt t b (chooseStmt rules n) fun _ => true := by
  rw [Parser.chooseStmt]
  exact .peek ((h.choice n ht).bind fun m _ => .skip (by decide) (fun _ => .spanFrom fun _ => .pure id)
    (.spanFrom fun _ => .pure id))

theorem returnStmt (ht : t.kind ≠ .string) : KeepsAt t b (returnStmt rules) fun _ => true := by
  rw [Parser.returnStmt]
  refine .advance ht fun t => .sees (.ite (fun _ => .pureBind ?_) fun _ => (h.expr 0 t).bind
    fun e _ => .pureBind ?_)
  · exact .expect (by decide) fun _ _ => .spanFrom fun _ => .pure id
  · exact .expect (by decide) fun _ _ => .spanFrom fun _ => .pure id

omit h in
theorem wordStmt (ht : t.kind ≠ .string) (make : Span → Stmt) :
    KeepsAt t b (wordStmt make) fun _ => true := by
  rw [Parser.wordStmt]
  exact .advance ht fun _ => .expect (by decide) fun _ _ => .spanFrom fun _ => .pure id

theorem statement : Keeps true (statement rules n) fun _ => true := fun t => by
  rw [Parser.statement]
  refine .peek ?_
  split
  · exact (h.block t).bind fun b _ => .pure id
  · next ht => exact h.declaration n (by rw [ht]; decide)
  · next ht => exact h.declaration n (by rw [ht]; decide)
  · next ht =>
    refine .get fun s => .ite (fun _ => h.exprStmt t) fun _ => ?_
    exact (h.namedFunction n (by rw [ht]; decide)).bind fun f _ => .pure id
  · next ht => exact (h.cond (by rw [ht]; decide)).bind fun c _ => .pure id
  · next ht => exact importStmt (by rw [ht]; decide)
  · next ht => exact h.foreachStmt (by rw [ht]; decide)
  · next ht => exact h.whileStmt (by rw [ht]; decide)
  · next ht => exact h.structDecl n (by rw [ht]; decide)
  · next ht => exact enumDecl n (by rw [ht]; decide)
  · next ht => exact h.chooseStmt n (by rw [ht]; decide)
  · next ht => exact wordStmt (by rw [ht]; decide) _
  · next ht => exact wordStmt (by rw [ht]; decide) _
  · next ht => exact h.returnStmt (by rw [ht]; decide)
  · exact h.exprStmt t

end Rules.KeepApart

/-! ### Programs -/

open ScriptLang.Parser

theorem Rules.keepApart_ofDepth : ∀ d, (Rules.ofDepth d).KeepApart
  | 0 => fun _ _ _ => .fail
  | d + 1 => by
    have h := Rules.keepApart_ofDepth d
    intro p t ht
    cases p with
    | expr least => exact (h .operand t Phrase.noConfusion).bind fun e => h.climb least d e
    | operand => exact h.operand d t
    | stmt => exact h.statement d t
    | block => exact h.blockRule d t
    | cond => exact h.condRule (ht rfl)

theorem Parser.not_doubled_of_program {rules : Rules} (h : rules.KeepApart) {n : Nat} {s s' : Stream}
    {ss : List Stmt} (hs : Parser.program rules n s = .ok (ss, s')) : ¬s.Doubled true := by
  induction n generalizing s s' ss with
  | zero => exact nomatch hs
  | succ n ih =>
    intro hdoubled
    rw [Parser.program] at hs
    obtain ⟨ended, _, hended, hs⟩ := bind_eq_ok.1 hs
    cases hended
    split at hs
    · next hend => exact hdoubled.going (eq_of_beq hend)
    · obtain ⟨st, s₁, hst, hs⟩ := bind_eq_ok.1 hs
      obtain ⟨rest, s₂, hrest, -⟩ := bind_eq_ok.1 hs
      exact ih hrest (h.stmt _ hdoubled rfl hst)

theorem programReader_eq_ok {d : Nat} {s s' : Stream} {b : Block} : programReader d s = .ok (b, s') ↔
    ∃ ss, Parser.program (Rules.ofDepth d) d s = .ok (ss, s') ∧
      b = ⟨s.current.span.upTo s'.current.span, ss⟩ := by
  have hrun : programReader d s = (Parser.program (Rules.ofDepth d) d s).bind fun r =>
      .ok (⟨s.current.span.upTo r.2.current.span, r.1⟩, r.2) := rfl
  rw [hrun]
  cases Parser.program (Rules.ofDepth d) d s with
  | error e => exact ⟨nofun, fun ⟨_, h, _⟩ => nomatch h⟩
  | ok r =>
    obtain ⟨ss, s₁⟩ := r
    constructor
    · intro h
      cases h
      exact ⟨ss, rfl, rfl⟩
    · rintro ⟨ss', h, rfl⟩
      cases h
      rfl

/-- No program has two strings in a row. -/
theorem Program.not_doubled_of_ofTokens {tokens : List Token} {b : Block}
    (h : Program.ofTokens tokens = .ok b) : ¬(Stream.ofTokens tokens).Doubled true := by
  obtain ⟨s', hs⟩ := Program.ofTokens_eq_ok.1 h
  obtain ⟨ss, hss, -⟩ := programReader_eq_ok.1 hs
  exact Parser.not_doubled_of_program (Rules.keepApart_ofDepth _) hss

end ScriptLang
