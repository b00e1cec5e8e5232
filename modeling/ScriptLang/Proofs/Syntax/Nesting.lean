import ScriptLang.Proofs.Syntax.Outline
import ScriptLang.Proofs.Syntax.Unfinished

/-!
# The spans of a tree nest

Every node of the program of a text is at the place of its first byte, starts and ends with a token, and
has its parts inside of it, apart from each other and in the order of the source
(`Program.nested_parse`).

A `Tape` is a text with its tokens, `Stream.On` says that a stream is at a point of it. `Tape.Lays` says of
two points that sound outlines stand in a row between them; rows are put together as the readers are
(`Tape.Lays.trans`), and the span that a reader takes from its first token to the one passed last makes a
node of the row (`Tape.Lays.node`, and `Tape.Lays.grow` where a node starts with a part that was read
before). A reader is followed from a stream with `Parser.After`.
-/

namespace ScriptLang

open Outline (Gathers)

/-- A text with its tokens and the token for its end. -/
structure Tape where
  /-- The text. -/
  source : Text
  /-- The name of its file. -/
  file : Text
  /-- The tokens. -/
  tokens : List Token
  /-- The token for the end. -/
  stop : Token
  /-- The last one is for the end. -/
  ended : stop.kind = .eof
  /-- No other token is. -/
  going : ∀ t ∈ tokens, t.kind ≠ .eof
  /-- No token is empty. -/
  nonempty : ∀ t ∈ tokens, t.span.start < t.span.stop
  /-- Every token ends before the next one starts. -/
  ordered : (tokens ++ [stop]).Pairwise fun t u => t.span.stop ≤ u.span.start
  /-- The line and the column of a token are those of its first byte. -/
  place : ∀ t ∈ tokens ++ [stop], t.span = source.place file t.span.start t.span.stop
  /-- The end is a point. -/
  point : stop.span.start = stop.span.stop

namespace Stream

/-- The offset at which the next token starts. -/
def start (s : Stream) : Nat := s.current.span.start

/-- The offset at which the last token that was passed ends. -/
def reach (s : Stream) : Nat := s.last.span.stop

theorem next_last (s : Stream) : s.next.last = s.current := by
  unfold next
  split <;> rfl

/-- Whether a stream is at a point of a text. -/
structure On (T : Tape) (s : Stream) : Prop where
  /-- The tokens ahead are the last ones of the text. -/
  ahead : s.current :: s.rest <:+ T.tokens ++ [T.stop]
  /-- What was passed is behind the stream. -/
  behind : s.reach ≤ s.start
  /-- If anything was passed, the last of it is a token of the text. -/
  last : 0 < s.reach → s.last ∈ T.tokens

namespace On

variable {T : Tape} {s : Stream}

/-- A stream is at its end, or before a token and another one. -/
theorem cases (h : s.On T) : (s.current = T.stop ∧ s.rest = []) ∨
    (s.current ∈ T.tokens ∧ ∃ t ts, s.rest = t :: ts ∧ s.current.span.stop ≤ t.span.start) := by
  have hordered := List.Pairwise.sublist h.ahead.sublist T.ordered
  obtain ⟨us, hus⟩ := h.ahead
  cases hrest : s.rest with
  | nil =>
    rw [hrest] at hus
    exact .inl ⟨(List.cons.inj (List.append_inj' hus rfl).2).1, rfl⟩
  | cons t ts =>
    rw [hrest] at hus hordered
    refine .inr ⟨?_, t, ts, rfl, (List.pairwise_cons.1 hordered).1 t List.mem_cons_self⟩
    have hinit := congrArg List.dropLast hus
    rw [List.dropLast_concat, List.dropLast_append_of_ne_nil (List.cons_ne_nil _ _)] at hinit
    rw [← hinit]
    exact List.mem_append_right _ List.mem_cons_self

theorem mem (h : s.On T) (hne : s.current ≠ T.stop) : s.current ∈ T.tokens := by
  rcases h.cases with ⟨hstop, -⟩ | ⟨hmem, -⟩
  · exact absurd hstop hne
  · exact hmem

/-- No token starts behind the end. -/
theorem start_le (h : s.On T) : s.start ≤ T.stop.span.start := by
  rcases h.cases with ⟨hstop, -⟩ | ⟨hmem, -⟩
  · exact Nat.le_of_eq (congrArg (·.span.start) hstop)
  · have hstop := (List.pairwise_append.1 T.ordered).2.2 _ hmem _ (List.mem_singleton_self _)
    exact Nat.le_trans (Nat.le_of_lt (T.nonempty _ hmem)) hstop

theorem next (h : s.On T) (hne : s.current ≠ T.stop) : s.next.On T ∧ s.start < s.next.reach := by
  have hmem := h.mem hne
  have hlt := T.nonempty _ hmem
  rcases h.cases with ⟨hstop, -⟩ | ⟨-, t, ts, hrest, hle⟩
  · exact absurd hstop hne
  · obtain ⟨current, rest, index, last⟩ := s
    subst hrest
    exact ⟨⟨(List.suffix_cons _ _).trans h.ahead, hle, fun _ => hmem⟩, hlt⟩

/-- The span from the start of a token up to the token that was passed last. -/
theorem placed {first : Span} (h : s.On T)
    (hplace : first = T.source.place T.file first.start first.stop)
    (hstart : ∃ t ∈ T.tokens, t.span.start = first.start) (hlt : first.start < s.reach) :
    Outline.Placed T.source T.file T.tokens (first.upTo s.last.span) := by
  refine ⟨?_, hstart, s.last, h.last (Nat.lt_of_le_of_lt (Nat.zero_le _) hlt), rfl⟩
  rw [Span.upTo]
  conv_lhs => rw [hplace]
  rfl

end On

end Stream

namespace Tape

/-- What is laid out between two points of a text: sound outlines in a row. -/
def Lays (T : Tape) (s : Stream) (os : List Outline) (s' : Stream) : Prop :=
  s.On T → s'.On T ∧ s.reach ≤ s'.reach ∧ s.start ≤ s'.start ∧
    Row T.source T.file T.tokens s.start os s'.reach

namespace Lays

variable {T : Tape} {s s₁ s₂ : Stream} {os os' : List Outline} {o : Outline}
  {groups : List (List Outline)}

theorem refl (s : Stream) : T.Lays s [] s := fun h => ⟨h, Nat.le_refl _, Nat.le_refl _, .nil⟩

theorem trans (h : T.Lays s os s₁) (h' : T.Lays s₁ os' s₂) : T.Lays s (os ++ os') s₂ := by
  intro hs
  obtain ⟨hs₁, hreach, hstart, hrow⟩ := h hs
  obtain ⟨hs₂, hreach', hstart', hrow'⟩ := h' hs₁
  exact ⟨hs₂, Nat.le_trans hreach hreach', Nat.le_trans hstart hstart',
    hrow.append hrow' hs₁.behind hstart hreach'⟩

theorem ne_stop {t : Token} (ht : t.kind ≠ .eof) (T : Tape) : t ≠ T.stop := by
  rintro rfl
  exact ht T.ended

/-- A token that is passed leaves no outline. -/
theorem pass (hs : s.current.kind ≠ .eof) : T.Lays s [] s.next := by
  intro hon
  obtain ⟨hnext, hlt⟩ := hon.next (ne_stop hs T)
  have hstart : s.start ≤ s.next.start := Nat.le_trans (Nat.le_of_lt hlt) hnext.behind
  exact ⟨hnext, Nat.le_trans hon.behind (Nat.le_of_lt hlt), hstart, .nil⟩

theorem append_nil (h : T.Lays s (os ++ []) s₁) : T.Lays s os s₁ := by
  rwa [List.append_nil] at h

/-- One more token behind a row. -/
theorem passed (h : T.Lays s os s₁) (hs : s₁.current.kind ≠ .eof) : T.Lays s os s₁.next :=
  (h.trans (pass hs)).append_nil

/-- A node from a point on, up to the token that was passed last. -/
theorem opened (h : T.Lays s os s₁) (hlt : s.On T → s.start < s₁.reach) (hos : Gathers groups os) :
    T.Lays s [.node (s.current.span.upTo s₁.last.span) groups] s₁ := by
  intro hon
  obtain ⟨hon₁, hreach, hstart, hrow⟩ := h hon
  have hne : s.current ≠ T.stop := by
    intro hstop
    have hstop : s.start = T.stop.span.start := congrArg (·.span.start) hstop
    have := hlt hon
    have := hon₁.behind
    have := hon₁.start_le
    omega
  have hplaced := hon₁.placed (T.place _ (List.mem_append_left _ (hon.mem hne))) ⟨_, hon.mem hne, rfl⟩ (hlt hon)
  exact ⟨hon₁, hreach, hstart, hrow.node hos hplaced (hlt hon) (Nat.le_refl _) (Nat.le_refl _)⟩

/-- A node whose first token is passed before its parts. -/
theorem node (hs : s.current.kind ≠ .eof) (h : T.Lays s.next os s₁) (hos : Gathers groups os) :
    T.Lays s [.node (s.current.span.upTo s₁.last.span) groups] s₁ := by
  refine ((pass hs).trans h).opened (fun hon => ?_) hos
  obtain ⟨hnext, hlt⟩ := hon.next (ne_stop hs T)
  exact Nat.lt_of_lt_of_le hlt (h hnext).2.1

/-- A node that starts with its first part, if it has parts. -/
theorem around (h : T.Lays s os s₁) (ho : o ∈ os) (hos : Gathers groups os) :
    T.Lays s [.node (s.current.span.upTo s₁.last.span) groups] s₁ :=
  h.opened (fun hon => (h hon).2.2.2.lt_of_mem ho) hos

/-- A node that is a token. -/
theorem leaf (hs : s.current.kind ≠ .eof) : T.Lays s [.node s.current.span []] s.next := by
  have hspan : s.current.span.upTo s.next.last.span = s.current.span := by
    rw [Stream.next_last]
    rfl
  exact hspan ▸ node hs (refl s.next) (Gathers.of_eq rfl)

/-- A node that starts with a part that was read before. -/
theorem grow (h : T.Lays s [o] s₁) (h' : T.Lays s₁ os s₂) (hos : Gathers groups (o :: os)) :
    T.Lays s [.node (o.span.upTo s₂.last.span) groups] s₂ := by
  intro hon
  obtain ⟨hon₁, -, -, hrow⟩ := h hon
  obtain ⟨hon₂, hreach, hstart, hboth⟩ := h.trans h' hon
  obtain ⟨hlo, hhi⟩ := hrow.inside o List.mem_cons_self
  have ho := hrow.sound o List.mem_cons_self
  have hlt : o.span.start < s₂.reach :=
    Nat.lt_of_lt_of_le ho.nonempty (Nat.le_trans hhi (h' hon₁).2.1)
  have hplaced := hon₂.placed ho.placed.place ho.placed.start hlt
  exact ⟨hon₂, hreach, hstart, hboth.from_head.node hos hplaced hlt hlo (Nat.le_refl _)⟩

/-- An expression that starts with one that was read before. -/
theorem extend {e : Expr} (h : T.Lays s [Outline.expr e] s₁) (h' : T.Lays s₁ os s₂)
    (hos : Gathers groups (Outline.expr e :: os)) :
    T.Lays s [.node (e.span.upTo s₂.last.span) groups] s₂ := by
  rw [← Outline.span_expr]
  exact h.grow h' hos

end Lays

end Tape

/-! ### What holds after reading -/

namespace Parser

variable {α β : Type}

/-- What holds of the result of a reader and of the stream that it leaves, if it succeeds. -/
def After (s : Stream) (x : Parser α) (Q : α → Stream → Prop) : Prop :=
  ∀ ⦃a s'⦄, x s = .ok (a, s') → Q a s'

namespace After

variable {s : Stream} {x : Parser α} {f : α → Parser β} {P : α → Stream → Prop} {Q : β → Stream → Prop}
  {k : Kind}

theorem bind (hx : After s x P) (hf : ∀ a s₁, P a s₁ → After s₁ (f a) Q) : After s (x >>= f) Q := by
  intro b s' hb
  obtain ⟨a, s₁, ha, hb⟩ := bind_eq_ok.1 hb
  exact hf a s₁ (hx ha) hb

theorem pure {a : α} (h : P a s) : After s (Pure.pure a) P := by
  intro a' s' ha
  cases ha
  exact h

theorem map {F : α → β} (hx : After s x P) (hF : ∀ a s₁, P a s₁ → Q (F a) s₁) :
    After s (x >>= fun a => Pure.pure (F a)) Q :=
  hx.bind fun a s₁ ha => .pure (hF a s₁ ha)

theorem pureBind {a : α} (h : After s (f a) Q) : After s (Pure.pure a >>= f) Q := h

theorem fail {fault : Token → ParseFault} : After s (Parser.fail fault) P := by
  intro a s' h
  cases h

theorem failBind {fault : Token → ParseFault} : After s (Parser.fail fault >>= f) Q := by
  intro b s' h
  cases h

theorem ite {c : Prop} [Decidable c] {y : Parser α} (hx : c → After s x P) (hy : ¬c → After s y P) :
    After s (if c then x else y) P := by
  split
  · exact hx ‹c›
  · exact hy ‹¬c›

theorem peek {f : Token → Parser β} (h : After s (f s.current) Q) : After s (peek >>= f) Q := h

theorem get {f : Stream → Parser β} (h : After s (f s) Q) : After s (MonadState.get >>= f) Q := h

theorem advance {f : Token → Parser β} (h : After s.next (f s.current) Q) : After s (advance >>= f) Q := h

theorem spanFrom {first : Span} {f : Span → Parser β} (h : After s (f (first.upTo s.last.span)) Q) :
    After s (spanFrom first >>= f) Q := h

theorem sees {f : Bool → Parser β} (h : After s (f (s.current.kind == k)) Q) :
    After s (sees k >>= f) Q := h

theorem seesIte {y z : Parser β} (hy : s.current.kind = k → After s y Q) (hz : After s z Q) :
    After s (Parser.sees k >>= fun b => if b = true then y else z) Q :=
  .sees (.ite (fun hk => hy (eq_of_beq hk)) fun _ => hz)

theorem skip {f : Bool → Parser β} (hk : k ≠ .eof)
    (hyes : s.current.kind ≠ .eof → After s.next (f true) Q) (hno : After s (f false) Q) :
    After s (skip k >>= f) Q := by
  rw [Parser.skip, bind_assoc]
  refine .sees ?_
  cases hs : s.current.kind == k with
  | true => exact hyes (Token.ne_eof_of_beq hs hk)
  | false => exact hno

theorem skipIte {y z : Parser β} (hk : k ≠ .eof) (hy : s.current.kind ≠ .eof → After s.next y Q)
    (hz : After s z Q) : After s (Parser.skip k >>= fun b => if b = true then y else z) Q :=
  .skip hk hy hz

theorem expect {f : Token → Parser β} (hk : k ≠ .eof)
    (h : s.current.kind ≠ .eof → After s.next (f s.current) Q) : After s (expect k >>= f) Q := by
  rw [Parser.expect, bind_assoc]
  refine .sees ?_
  cases hs : s.current.kind == k with
  | true => exact h (Token.ne_eof_of_beq hs hk)
  | false => exact .failBind

theorem expectName {f : Text → Parser β}
    (h : ∀ name, s.current.kind ≠ .eof → After s.next (f name) Q) : After s (expectName >>= f) Q := by
  rw [Parser.expectName, bind_assoc]
  refine .peek ?_
  split
  · exact .failBind
  split
  · next hs => exact h _ (Token.ne_eof_of_beq hs (by decide))
  · exact .failBind

end After

end Parser

/-! ### Types and signatures -/

open ScriptLang.Parser (After)
open Tape.Lays (pass refl)

variable {T : Tape} {s s₀ : Stream}

theorem Kind.ne_eof_of_eq {k k' : Kind} (h : k = k') (hk' : k' ≠ .eof) : k ≠ .eof := h ▸ hk'

namespace Parser

theorem lays_commaList {α : Type} {close : Kind} {item : Parser α} {g : α → List Outline}
    (h : ∀ s, After s item fun a s' => T.Lays s (g a) s') :
    ∀ n s, After s (commaList close item n) fun as s' => T.Lays s (as.flatMap g) s'
  | 0, _ => .fail
  | n + 1, s => by
    rw [commaList]
    refine .seesIte (fun _ => .pure (refl s)) <| (h s).bind fun a s₁ ha => After.skipIte (by decide) (fun hs => ?_) ?_
    · exact (lays_commaList h n s₁.next).map fun as s₂ has => (ha.passed hs).trans has
    · exact .pure (by simpa using ha)

theorem lays_type (T : Tape) : ∀ n s, After s (type n) fun t s' => T.Lays s [Outline.type t] s'
  | 0, _ => .fail
  | n + 1, s => by
    rw [type]
    refine .peek ?_
    split
    · next hk => exact .advance (.pure (.leaf (Kind.ne_eof_of_eq hk (by decide))))
    · next hk => exact .advance (.pure (.leaf (Kind.ne_eof_of_eq hk (by decide))))
    · next hk =>
      refine .advance <| .expect (by decide) fun hs => (lays_type T n _).bind fun t s₁ ht => .spanFrom (.pure ?_)
      exact .node (Kind.ne_eof_of_eq hk (by decide)) ((pass hs).trans ht) (.of_eq rfl)
    · exact .fail

theorem lays_ascription (T : Tape) (n : Nat) (s : Stream) :
    After s ( annotation n) fun t s' => T.Lays s (Outline.ascription t) s' := by
  rw [ annotation]
  exact .skipIte (by decide) (fun hs => (lays_type T n _).map fun t s₁ ht => (pass hs).trans ht) (.pure (refl s))

theorem lays_param (T : Tape) (n : Nat) (s : Stream) :
    After s (param n) fun p s' => T.Lays s (Outline.ascription p.type) s' :=
  .expectName fun _ hs => (lays_ascription T n _).map fun _ _ ht => (pass hs).trans ht

end Parser

/-- The outline of a phrase. -/
def Phrase.outline : (ph : Phrase) → ph.Tree → Outline
  | .expr _ | .operand => Outline.expr
  | .stmt => Outline.stmt
  | .block => Outline.block
  | .cond => Outline.cond

/-- Readers of trees whose nodes nest. -/
def Rules.Lay (T : Tape) (rules : Rules) : Prop :=
  ∀ ph s, (ph = .cond → s.current.kind ≠ .eof) →
    After s (rules ph) fun a s' => T.Lays s [ph.outline a] s'

namespace Rules.Lay

variable {rules : Rules} (h : rules.Lay T) (n : Nat)
include h

theorem expr (least : Nat) (s : Stream) :
    After s (rules.expr least) fun e s' => T.Lays s [Outline.expr e] s' :=
  h (.expr least) s Phrase.noConfusion

theorem block (s : Stream) : After s rules.block fun b s' => T.Lays s [Outline.block b] s' :=
  h .block s Phrase.noConfusion

theorem exprs (close : Kind) (s : Stream) :
    After s (Parser.commaList close (rules.expr 0) n) fun es s' => T.Lays s (Outline.exprs es) s' := by
  simp only [Outline.exprs_eq_flatMap]
  exact Parser.lays_commaList (fun s => h.expr 0 s) n s

theorem signature (s : Stream) : After s (Parser.signature rules n) fun f s' =>
    T.Lays s (Outline.params f.1 ++ (Outline.ascription f.2.1 ++ [Outline.block f.2.2])) s' := by
  refine .expect (by decide) fun hs => (Parser.lays_commaList (fun s => Parser.lays_param T n s) n _).bind fun ps s₁ hps => ?_
  refine .expect (by decide) fun hs₁ => (Parser.lays_ascription T n _).bind fun r s₂ hr => ?_
  exact (h.block s₂).map fun b s₃ hb => ((pass hs).trans hps).trans (((pass hs₁).trans hr).trans hb)

theorem namedFunction (hs : s.current.kind ≠ .eof) :
    After s (Parser.namedFunction rules n) fun f s' => T.Lays s [Outline.function f] s' := by
  refine .advance <| .expectName fun _ hname => (h.signature n _).bind fun f s₁ hf => .spanFrom (.pure ?_)
  exact .node hs ((pass hname).trans hf) (.of_eq (by simp))

/-! ### Operands -/

theorem group (hs : s.current.kind ≠ .eof) :
    After s (Parser.group rules) fun e s' => T.Lays s [Outline.expr e] s' :=
  .advance <| (h.expr 0 _).bind fun _ _ he => .expect (by decide) fun hs₁ =>
    .pure (((pass hs).trans he).passed hs₁)

theorem arguments (hs : s.current.kind ≠ .eof) :
    After s (Parser.arguments rules n) fun es s' => T.Lays s (Outline.exprs es) s' :=
  .advance <| (h.exprs n _ _).bind fun _ _ hes => .expect (by decide) fun hs₁ =>
    .pure (((pass hs).trans hes).passed hs₁)

theorem arrayLiteral (hs : s.current.kind ≠ .eof) :
    After s (Parser.arrayLiteral rules n) fun e s' => T.Lays s [Outline.expr e] s' := by
  refine .advance <| (h.exprs n _ _).bind fun es s₁ hes => .expect (by decide) fun hs₁ => .spanFrom (.pure ?_)
  exact .node hs (hes.passed hs₁) (.of_eq (List.append_nil _))

theorem entry (s : Stream) :
    After s (Parser.entry rules) fun e s' => T.Lays s [Outline.expr e.2] s' := by
  have hkind {k : Kind} (hk : (k == .ident || k == .string || k.isKeyword) = true) : k ≠ .eof := by
    rintro rfl
    cases hk
  refine .peek <| .ite (fun hk => ?_) fun _ => .fail
  refine .advance <| .expect (by decide) fun hs₁ => (h.expr 0 _).map fun e s₁ he => ?_
  exact (pass (hkind hk)).trans ((pass hs₁).trans he)

theorem objectLiteral (hs : s.current.kind ≠ .eof) :
    After s (Parser.objectLiteral rules n) fun e s' => T.Lays s [Outline.expr e] s' := by
  refine .advance <| (Parser.lays_commaList h.entry n _).bind fun es s₁ hes =>
    .expect (by decide) fun hs₁ => .spanFrom (.pure ?_)
  exact .node hs (hes.passed hs₁) (.of_eq (by simp [Outline.entries_eq_flatMap]))

theorem unary (hs : s.current.kind ≠ .eof) :
    After s (Parser.unary rules) fun e s' => T.Lays s [Outline.expr e] s' :=
  .advance <| (h.expr _ _).bind fun _ _ he => .spanFrom (.pure (.node hs he (.of_eq rfl)))

theorem functionLiteral (hs : s.current.kind ≠ .eof) :
    After s (Parser.functionLiteral rules n) fun e s' => T.Lays s [Outline.expr e] s' :=
  .advance <| (h.signature n _).bind fun _ _ hf =>
    .spanFrom (.pure (.node hs hf (.of_eq (by simp))))

omit h in
theorem property {e : Expr} (he : T.Lays s₀ [Outline.expr e] s) (hs : s.current.kind ≠ .eof) :
    After s (Parser.property e) fun e' s' => T.Lays s₀ [Outline.expr e'] s' := by
  have hkind {k : Kind} (hk : (k == .ident || k.isKeyword) = true) : k ≠ .eof := by
    rintro rfl
    cases hk
  refine .advance <| .peek <| .ite (fun hk => ?_) fun _ => .fail
  refine .advance <| .spanFrom (.pure ?_)
  exact he.extend ((pass hs).trans (pass (hkind hk))) (.of_eq rfl)

omit h in
theorem properties : ∀ (n : Nat) {s : Stream} {e : Expr}, T.Lays s₀ [Outline.expr e] s →
    After s (Parser.properties n e) fun e' s' => T.Lays s₀ [Outline.expr e'] s'
  | 0, _, _, _ => .fail
  | n + 1, s, e, he => by
    refine .seesIte (fun hk => ?_) (.pure he)
    exact (property he (Kind.ne_eof_of_eq hk (by decide))).bind fun _ _ he' => properties n he'

theorem construction (hs : s.current.kind ≠ .eof) :
    After s (Parser.construction rules n) fun e s' => T.Lays s [Outline.expr e] s' := by
  unfold Parser.construction
  refine .advance <| .peek <| .ite (fun _ => ?_) fun _ => .fail
  refine (h .operand _ Phrase.noConfusion).bind fun callee s₁ hc => (properties n hc).bind fun callee s₂ hc => ?_
  refine .seesIte (fun hk => ?_) .fail
  refine (h.arguments n (Kind.ne_eof_of_eq hk (by decide))).bind fun es s₃ hes => .spanFrom <| .spanFrom (.pure ?_)
  exact .node hs (hc.extend hes (.of_eq (by simp))) (.of_eq rfl)

/-! ### Choices -/

theorem armReader (pattern : Option Expr)
    (hp : T.Lays s₀ (pattern.toList.map Outline.expr) s) :
    After s (armReader rules s₀.current.span pattern) fun a s' => T.Lays s₀ [Outline.arm a] s' := by
  have finished {body : ArmBody} {s₁ : Stream} (hbody : T.Lays s [Outline.armBody body] s₁) :
      After s₁ (do return ⟨← Parser.spanFrom s₀.current.span, pattern, body⟩ : Parser MatchArm)
        fun a s' => T.Lays s₀ [Outline.arm a] s' := by
    refine .spanFrom (.pure ?_)
    have hboth := hp.trans hbody
    have hmem : Outline.armBody body ∈ pattern.toList.map Outline.expr ++ [Outline.armBody body] :=
      List.mem_append_right _ List.mem_cons_self
    cases pattern with
    | none => exact hboth.around hmem (.of_eq rfl)
    | some e => exact hboth.around hmem (.of_eq rfl)
  refine .seesIte (fun _ => (h.block s).bind fun b s₁ hb => .pureBind ?_) ?_
  · exact finished (show T.Lays s [Outline.armBody (.block b)] s₁ from hb)
  refine .peek <| (h.expr 0 s).bind fun e s₁ he => .spanFrom <| .pureBind (finished ?_)
  exact he.around List.mem_cons_self (.of_eq rfl)

theorem matchArm (s : Stream) :
    After s (Parser.matchArm rules) fun a s' => T.Lays s [Outline.arm a] s' := by
  refine .peek <| .get <| .ite (fun hwild => ?_) fun _ => ?_
  · have hs : s.current.kind ≠ .eof :=
      Token.ne_eof_of_beq (Bool.and_eq_true_iff.1 (Bool.and_eq_true_iff.1 hwild).1).1 (by decide)
    refine .advance <| .pureBind <| .expect (by decide) fun hs₁ => ?_
    exact h.armReader none ((pass hs).trans (pass hs₁))
  · refine (h.expr 0 s).bind fun e s₁ he => .pureBind <| .expect (by decide) fun hs₁ => ?_
    exact h.armReader (some e) (he.passed hs₁)

theorem matchArms : ∀ (n : Nat) (s : Stream),
    After s (Parser.matchArms rules n) fun as s' => T.Lays s (Outline.arms as) s'
  | 0, _ => .fail
  | n + 1, s => by
    refine .seesIte (fun _ => .pure (refl s)) <| (h.matchArm s).bind fun a s₁ ha => ?_
    refine .skip (by decide) (fun hs₁ => .ite (fun _ => ?_) fun _ => ?_) (.ite (fun _ => ?_) fun _ => ?_)
    · exact (matchArms n _).map fun as s₂ has => (ha.passed hs₁).trans has
    · exact .pure (ha.passed hs₁)
    · exact (matchArms n _).map fun as s₂ has => ha.trans has
    · exact .pure ha

theorem choice (hs : s.current.kind ≠ .eof) :
    After s (Parser.choice rules n) fun m s' => T.Lays s [Outline.choice m] s' := by
  refine .advance <| (h.expr 0 _).bind fun e s₁ he => .expect (by decide) fun hs₁ => ?_
  refine (h.matchArms n _).bind fun as s₂ has => .expect (by decide) fun hs₂ => .spanFrom (.pure ?_)
  exact .node hs (he.trans (((pass hs₁).trans has).passed hs₂)) (.of_eq (by simp))

/-! ### Expressions -/

theorem operand (s : Stream) :
    After s (Parser.operand rules n) fun e s' => T.Lays s [Outline.expr e] s' := by
  unfold Parser.operand
  refine .peek ?_
  by_cases hs : s.current.kind = .eof
  · rw [hs]
    exact .fail
  split
  · unfold Parser.numberLiteral
    refine .peek ?_
    split
    · exact .advance (.pure (.leaf hs))
    · exact .fail
  · exact .advance (.pure (.leaf hs))
  · exact .advance (.pure (.leaf hs))
  · exact .advance (.pure (.leaf hs))
  · exact .advance (.pure (.leaf hs))
  · exact .advance (.pure (.leaf hs))
  · exact h.group hs
  · exact h.arrayLiteral n hs
  · exact h.objectLiteral n hs
  · exact h.unary hs
  · exact h.unary hs
  · exact h.unary hs
  · exact h.unary hs
  · exact h.functionLiteral n hs
  · exact (h.choice n hs).map fun _ _ hm => hm
  · exact h.construction n hs
  · exact .fail

theorem extend {left : Expr} (hl : T.Lays s₀ [Outline.expr left] s) (hs : s.current.kind ≠ .eof)
    (right : Nat) :
    After s (Parser.extend rules n right left) fun e s' => T.Lays s₀ [Outline.expr e] s' := by
  unfold Parser.extend
  refine .peek ?_
  split
  · refine (h.arguments n hs).bind fun es s₁ hes => .spanFrom (.pure ?_)
    exact hl.extend hes (.of_eq (by simp))
  · refine .advance <| (h.expr 0 _).bind fun e s₁ he => .expect (by decide) fun hs₁ => .spanFrom (.pure ?_)
    exact hl.extend (((pass hs).trans he).passed hs₁) (.of_eq rfl)
  · exact property hl hs
  · exact .advance <| .spanFrom <| .pure (hl.extend (pass hs) (.of_eq rfl))
  · exact .advance <| .spanFrom <| .pure (hl.extend (pass hs) (.of_eq rfl))
  · refine .advance <| (h.expr right _).bind fun e s₁ he => .spanFrom (.pure ?_)
    exact hl.extend ((pass hs).trans he) (.of_eq rfl)
  · refine .advance <| (h.expr right _).bind fun e s₁ he => .ite (fun _ => ?_) fun _ => ?_
    · exact .spanFrom <| .pure (hl.extend ((pass hs).trans he) (.of_eq rfl))
    · exact .spanFrom <| .pure (hl.extend ((pass hs).trans he) (.of_eq rfl))

theorem climb (least : Nat) : ∀ (n : Nat) {s : Stream} {left : Expr},
    T.Lays s₀ [Outline.expr left] s →
    After s (Parser.climb rules least n left) fun e s' => T.Lays s₀ [Outline.expr e] s'
  | 0, _, _, _ => .fail
  | n + 1, s, left, hl => by
    unfold Parser.climb
    refine .peek ?_
    by_cases hs : s.current.kind = .eof
    · rw [hs]
      exact .pure hl
    split
    · exact .pure hl
    · exact .ite (fun _ => .pure hl) fun _ => (h.extend n hl hs _).bind fun _ _ he => climb least n he

/-! ### Statements -/

theorem statements : ∀ (n : Nat) (s : Stream),
    After s (Parser.statements rules n) fun ss s' => T.Lays s (Outline.stmts ss) s'
  | 0, _ => .fail
  | n + 1, s => by
    refine .skipIte (by decide) (fun hs => .pure (pass hs)) <| .seesIte (fun _ => .fail) ?_
    exact (h .stmt s Phrase.noConfusion).bind fun a s₁ ha => (statements n s₁).map fun as s₂ has => ha.trans has

theorem blockRule (s : Stream) :
    After s (Parser.block rules n) fun b s' => T.Lays s [Outline.block b] s' :=
  .expect (by decide) fun hs => (h.statements n _).bind fun _ _ hss =>
    .spanFrom (.pure (.node hs hss (.of_eq (List.append_nil _))))

theorem exprStmt (s : Stream) :
    After s (Parser.exprStmt rules) fun a s' => T.Lays s [Outline.stmt a] s' :=
  .peek <| (h.expr 0 s).bind fun _ _ he => .expect (by decide) fun hs₁ =>
    .spanFrom (.pure ((he.passed hs₁).around List.mem_cons_self (.of_eq rfl)))

theorem declaration (hs : s.current.kind ≠ .eof) :
    After s (Parser.declaration rules n) fun a s' => T.Lays s [Outline.stmt a] s' := by
  unfold Parser.declaration
  refine .advance <| .expectName fun name hname => (Parser.lays_ascription T n _).bind fun t s₁ ht => ?_
  have ht := (pass hname).trans ht
  refine .skipIte (by decide) (fun hs₁ => (h.expr 0 _).bind fun e s₂ he => .pureBind ?_) (.pureBind ?_)
  · refine .expect (by decide) fun hs₂ => .spanFrom (.pure ?_)
    exact .node hs ((ht.trans ((pass hs₁).trans he)).passed hs₂) (.of_eq (by simp))
  · refine .expect (by decide) fun hs₁ => .spanFrom (.pure ?_)
    exact .node hs (ht.passed hs₁) (.of_eq (by simp))

theorem condRule (hs : s.current.kind ≠ .eof) :
    After s (Parser.cond rules) fun c s' => T.Lays s [Outline.cond c] s' := by
  unfold Parser.cond
  refine .advance <| (h.expr 0 _).bind fun c s₁ hc => (h.block s₁).bind fun yes s₂ hyes => ?_
  refine .skipIte (by decide) (fun hs₂ => .seesIte (fun hk => ?_) ?_) ?_
  · refine (h .cond _ fun _ => Kind.ne_eof_of_eq hk (by decide)).bind fun no s₃ hno => .pureBind ?_
    exact .spanFrom <| .pure <| .node hs (hc.trans ((hyes.passed hs₂).trans hno)) (.of_eq rfl)
  · refine (h.block _).bind fun no s₃ hno => .pureBind ?_
    exact .spanFrom <| .pure <| .node hs (hc.trans ((hyes.passed hs₂).trans hno)) (.of_eq rfl)
  · exact .pureBind <| .spanFrom <| .pure <| .node hs (hc.trans hyes) (.of_eq rfl)

omit h in
theorem importStmt (hs : s.current.kind ≠ .eof) :
    After s Parser.importStmt fun a s' => T.Lays s [Outline.stmt a] s' := by
  have hpath {s₁ : Stream} (h₁ : T.Lays s.next [] s₁) (name : Text) (wildcard : Bool) :
      After s₁ (RereadStmt.pathReader s.current.span name wildcard)
        fun a s' => T.Lays s [Outline.stmt a] s' := by
    have finished {s₂ : Stream} (h₂ : T.Lays s.next [] s₂) (path : Text) : After s₂ (do
        let _ ← Parser.expect .semicolon
        return Stmt.importing (← Parser.spanFrom s.current.span) name wildcard path)
        fun a s' => T.Lays s [Outline.stmt a] s' :=
      .expect (by decide) fun hs₂ => .spanFrom (.pure (.node hs (h₂.passed hs₂) (.of_eq rfl)))
    refine .skipIte (by decide) (fun hs₁ => ?_) (.ite (fun _ => .failBind) fun _ => ?_)
    · exact .expect (by decide) fun hs₂ => .pureBind (finished ((h₁.passed hs₁).passed hs₂) _)
    · exact .pureBind (finished h₁ _)
  unfold Parser.importStmt
  refine .advance <| .skip (by decide) (fun hs₁ => ?_) ?_
  · exact .pureBind (hpath (pass hs₁) [] true)
  · exact .expectName fun name hname => hpath (pass hname) name false

theorem foreachStmt (hs : s.current.kind ≠ .eof) :
    After s (Parser.foreachStmt rules) fun a s' => T.Lays s [Outline.stmt a] s' := by
  have finished {s₁ : Stream} (h₁ : T.Lays s.next [] s₁) (value index : Text) : After s₁ (do
      let _ ← Parser.expect .kwIn
      let iterable ← rules.expr 0
      let body ← rules.block
      return Stmt.foreachLoop (← Parser.spanFrom s.current.span) value index iterable body)
      fun a s' => T.Lays s [Outline.stmt a] s' := by
    refine .expect (by decide) fun hs₁ => (h.expr 0 _).bind fun e s₂ he => (h.block s₂).bind fun b s₃ hb => ?_
    exact .spanFrom <| .pure <| .node hs (h₁.trans ((pass hs₁).trans (he.trans hb))) (.of_eq rfl)
  unfold Parser.foreachStmt
  refine .advance <| .expectName fun value hname => .skipIte (by decide) (fun hs₁ => ?_) ?_
  · exact .expectName fun index hname' => finished ((pass hname).trans ((pass hs₁).trans (pass hname'))) _ _
  · exact .pureBind (finished (pass hname) _ _)

theorem whileStmt (hs : s.current.kind ≠ .eof) :
    After s (Parser.whileStmt rules) fun a s' => T.Lays s [Outline.stmt a] s' :=
  .advance <| (h.expr 0 _).bind fun _ s₁ he => (h.block s₁).bind fun _ _ hb =>
    .spanFrom (.pure (.node hs (he.trans hb) (.of_eq rfl)))

/-- The fields and the methods of a struct stand between each other. -/
theorem members : ∀ (n : Nat) (s : Stream), After s (Parser.members rules n) fun r s' =>
    ∃ os, T.Lays s os s' ∧ Gathers [Outline.params r.1, Outline.functions r.2] os
  | 0, _ => .fail
  | n + 1, s => by
    have rest {s₁ : Stream} (f : Param) (hf : T.Lays s (Outline.ascription f.type) s₁) :
        After s₁ (Parser.members rules n >>= fun r => pure (f :: r.1, r.2)) fun r s' =>
          ∃ os, T.Lays s os s' ∧ Gathers [Outline.params r.1, Outline.functions r.2] os :=
      (members n s₁).map fun r s₂ ⟨os, hos, hgroups⟩ => ⟨_, hf.trans hos, hgroups.field _⟩
    unfold Parser.members
    refine .seesIte (fun _ => .pure ⟨[], refl s, .none⟩) <| .seesIte (fun hk => ?_) ?_
    · refine (h.namedFunction n (Kind.ne_eof_of_eq hk (by decide))).bind fun m s₁ hm => ?_
      exact (members n s₁).map fun r s₂ ⟨os, hos, hgroups⟩ => ⟨_, hm.trans hos, hgroups.method _⟩
    · refine (Parser.lays_param T n s).bind fun f s₁ hf => .skipIte (by decide) (fun hs₁ => ?_) ?_
      · exact rest f (hf.passed hs₁)
      · exact .expect (by decide) fun hs₁ => rest f (hf.passed hs₁)

theorem structDecl (hs : s.current.kind ≠ .eof) :
    After s (Parser.structDecl rules n) fun a s' => T.Lays s [Outline.stmt a] s' := by
  rw [Parser.structDecl_eq]
  refine .advance <| .expectName fun name hname => .expect (by decide) fun hs₁ => ?_
  refine (h.members n _).bind fun r s₂ ⟨os, hos, hgroups⟩ => .expect (by decide) fun hs₂ => .spanFrom (.pure ?_)
  exact .node hs (((pass hname).trans ((pass hs₁).trans hos)).passed hs₂) hgroups

omit h in
theorem enumDecl (hs : s.current.kind ≠ .eof) :
    After s (Parser.enumDecl n) fun a s' => T.Lays s [Outline.stmt a] s' := by
  have hname (s : Stream) : After s Parser.expectName fun _ s' => T.Lays s [] s' := by
    rw [← bind_pure Parser.expectName]
    exact .expectName fun name hs => .pure (pass hs)
  refine .advance <| .expectName fun name hname' => .expect (by decide) fun hs₁ => ?_
  refine (Parser.lays_commaList hname n _).bind fun ms s₂ hms => .expect (by decide) fun hs₂ => .spanFrom (.pure ?_)
  exact .node hs (((pass hname').trans ((pass hs₁).trans hms)).passed hs₂) (.of_eq (by simp))

theorem chooseStmt (hs : s.current.kind ≠ .eof) :
    After s (Parser.chooseStmt rules n) fun a s' => T.Lays s [Outline.stmt a] s' := by
  refine .peek <| (h.choice n hs).bind fun m s₁ hm => .skip (by decide) (fun hs₁ => ?_) ?_
  · exact .spanFrom (.pure ((hm.passed hs₁).around List.mem_cons_self (.of_eq rfl)))
  · exact .spanFrom (.pure (hm.around List.mem_cons_self (.of_eq rfl)))

theorem returnStmt (hs : s.current.kind ≠ .eof) :
    After s (Parser.returnStmt rules) fun a s' => T.Lays s [Outline.stmt a] s' := by
  unfold Parser.returnStmt
  refine .advance <| .seesIte (fun _ => .pureBind ?_) ((h.expr 0 _).bind fun e s₁ he => .pureBind ?_)
  · exact .expect (by decide) fun hs₁ => .spanFrom (.pure (.node hs (pass hs₁) (.of_eq rfl)))
  · exact .expect (by decide) fun hs₁ => .spanFrom (.pure (.node hs (he.passed hs₁) (.of_eq rfl)))

omit h in
theorem wordStmt {make : Span → Stmt} (hmake : ∀ sp, Outline.stmt (make sp) = .node sp [])
    (hs : s.current.kind ≠ .eof) :
    After s (Parser.wordStmt make) fun a s' => T.Lays s [Outline.stmt a] s' := by
  refine .advance <| .expect (by decide) fun hs₁ => .spanFrom (.pure ?_)
  rw [hmake]
  exact .node hs (pass hs₁) (.of_eq rfl)

theorem statement (s : Stream) :
    After s (Parser.statement rules n) fun a s' => T.Lays s [Outline.stmt a] s' := by
  unfold Parser.statement
  refine .peek ?_
  by_cases hs : s.current.kind = .eof
  · rw [hs]
    exact h.exprStmt s
  split
  · exact (h.block s).map fun _ _ hb => hb
  · exact h.declaration n hs
  · exact h.declaration n hs
  · exact .get <| .ite (fun _ => h.exprStmt s) fun _ => (h.namedFunction n hs).map fun _ _ hf => hf
  · exact (h .cond s fun _ => hs).map fun _ _ hc => hc
  · exact importStmt hs
  · exact h.foreachStmt hs
  · exact h.whileStmt hs
  · exact h.structDecl n hs
  · exact enumDecl n hs
  · exact h.chooseStmt n hs
  · exact wordStmt (fun _ => rfl) hs
  · exact wordStmt (fun _ => rfl) hs
  · exact h.returnStmt hs
  · exact h.exprStmt s

/-- The statements of a program reach up to its end. -/
theorem program : ∀ (n : Nat) (s : Stream), After s (Parser.program rules n) fun ss s' =>
    T.Lays s (Outline.stmts ss) s' ∧ s'.current.kind = .eof
  | 0, _ => .fail
  | n + 1, s => by
    refine .seesIte (fun hk => .pure ⟨refl s, hk⟩) <| (h .stmt s Phrase.noConfusion).bind fun a s₁ ha => ?_
    exact (program n s₁).map fun as s₂ ⟨has, hend⟩ => ⟨ha.trans has, hend⟩

end Rules.Lay

theorem Rules.lay_ofDepth (T : Tape) : ∀ d, (Rules.ofDepth d).Lay T
  | 0 => fun _ _ _ => .fail
  | d + 1 => by
    have h := Rules.lay_ofDepth T d
    intro ph s hs
    cases ph with
    | expr least => exact (h .operand s Phrase.noConfusion).bind fun _ _ he => h.climb least d he
    | operand => exact h.operand d s
    | stmt => exact h.statement d s
    | block => exact h.blockRule d s
    | cond => exact h.condRule (hs rfl)

/-! ### Programs -/

/-- The tape of a text that has tokens. -/
theorem Tape.exists_of_scan {source file : Text} {ts : List Token}
    (h : Token.scan source file = .ok ts) :
    ∃ T : Tape, T.source = source ∧ T.file = file ∧ ts = T.tokens ++ [T.stop] := by
  have htiles : Token.Tiles source file 0 (Token.scan source file) := Token.tiles_scanFrom [] source rfl
  rw [h] at htiles
  obtain ⟨tokens, rfl, htiled⟩ := htiles
  obtain ⟨ls, hcomplete, -⟩ := Token.complete_scanFrom h
  have hlexemes := hcomplete.lexemes
  rw [List.map_append] at hlexemes
  obtain ⟨hls, -⟩ := List.append_inj' hlexemes rfl
  refine ⟨{ source, file, tokens
            stop := ⟨.eof, [], source.place file source.length source.length⟩
            ended := rfl
            going := fun t ht => hcomplete.going t.lexeme (hls ▸ List.mem_map_of_mem ht)
            nonempty := fun t ht => (htiled.fits t ht).nonempty
            ordered := ?_, place := ?_, point := rfl }, rfl, rfl, rfl⟩
  · refine List.pairwise_append.2 ⟨htiled.ordered, List.pairwise_singleton _ _, fun t ht u hu => ?_⟩
    obtain rfl := List.mem_singleton.1 hu
    exact (htiled.fits t ht).inside
  · exact List.forall_mem_append.2 ⟨fun t ht => (htiled.fits t ht).place, List.forall_mem_singleton.2 rfl⟩

theorem Stream.on_ofTokens (T : Tape) : (Stream.ofTokens (T.tokens ++ [T.stop])).On T := by
  have hstart (ts : List Token) :
      (Stream.ofTokens (ts ++ [T.stop])).current :: (Stream.ofTokens (ts ++ [T.stop])).rest = ts ++ [T.stop] ∧
        (Stream.ofTokens (ts ++ [T.stop])).reach = 0 := by
    rw [Stream.ofTokens_stop T.ended]
    cases ts <;> exact ⟨rfl, rfl⟩
  obtain ⟨hahead, hreach⟩ := hstart T.tokens
  refine ⟨⟨[], hahead⟩, ?_, ?_⟩
  · rw [hreach]
    exact Nat.zero_le _
  · rw [hreach]
    exact fun h => absurd h (Nat.lt_irrefl 0)

/-- What the spans of a program have to do with its text, with the tokens of the text and with the token
for the end. -/
structure Program.Nested (source file : Text) (tokens : List Token) (stop : Token) (b : Block) : Prop where
  /-- The program starts where a token starts, with the line and the column of that place. -/
  placed : Outline.Placed source file (tokens ++ [stop]) b.span
  /-- It ends with the text. -/
  stop : b.span.stop = stop.span.stop
  /-- It does not end before its start. -/
  le : b.span.start ≤ b.span.stop
  /-- It is empty only if it has no statements. -/
  empty : b.span.start = b.span.stop → b.body = []
  /-- Its statements lie in it, one behind the other. -/
  arranged : Outline.Arranged b.span [(Outline.stmts b.body).map Outline.span]
  /-- All nodes of the statements are as they should be. -/
  sound : ∀ o ∈ Outline.stmts b.body, o.Sound source file tokens

theorem Program.nested_of_lays {T : Tape} {s s' : Stream} {b : Block} (hon : s.On T)
    (hspan : b.span = s.current.span.upTo s'.current.span) (hlay : T.Lays s (Outline.stmts b.body) s')
    (hend : s'.current.kind = .eof) : Program.Nested T.source T.file T.tokens T.stop b := by
  obtain ⟨hon', -, -, hrow⟩ := hlay hon
  have hstop : s'.current = T.stop := by
    rcases hon'.cases with ⟨hstop, -⟩ | ⟨hmem, -⟩
    · exact hstop
    · exact absurd hend (T.going _ hmem)
  rw [hstop] at hspan
  have hstart : b.span.start = s.start := by
    rw [hspan]
    rfl
  have hend : b.span.stop = T.stop.span.stop := by
    rw [hspan]
    rfl
  have hmem : s.current ∈ T.tokens ++ [T.stop] := hon.ahead.subset List.mem_cons_self
  have hle := hon.start_le
  have hreach := Nat.le_trans hon'.behind hon'.start_le
  have hpoint := T.point
  refine ⟨⟨?_, ⟨_, hmem, hstart.symm⟩, _, List.mem_append_right _ (List.mem_singleton_self _), hend.symm⟩,
    hend, by omega, fun heq => ?_, ?_, hrow.sound⟩
  · rw [hspan, Span.upTo]
    conv_lhs => rw [T.place _ hmem]
    rfl
  · cases hbody : b.body with
    | nil => rfl
    | cons a as =>
      rw [hbody] at hrow
      have hlt : s.start < s'.reach := hrow.lt_of_mem List.mem_cons_self
      omega
  · rw [← hstart] at hrow
    have hgroups : Gathers [Outline.stmts b.body] (Outline.stmts b.body) := .of_eq (List.append_nil _)
    exact (hrow.mono (Nat.le_refl _) (by omega)).arranged hgroups

/-- The outlines of a program that is read from a text are laid out in its tokens. -/
theorem Program.lays_parse {source file : Text} {b : Block} (h : Program.parse source file = .ok b) :
    ∃ (T : Tape) (s s' : Stream), T.source = source ∧ T.file = file ∧
      Token.scan source file = .ok (T.tokens ++ [T.stop]) ∧ s.On T ∧
      b.span = s.current.span.upTo s'.current.span ∧ T.Lays s (Outline.stmts b.body) s' ∧
      s'.current.kind = .eof := by
  unfold Program.parse at h
  cases hts : Token.scan source file with
  | error e =>
    rw [hts] at h
    cases h
  | ok ts =>
    rw [hts] at h
    obtain ⟨T, rfl, rfl, rfl⟩ := Tape.exists_of_scan hts
    obtain ⟨s', hread⟩ := Program.ofTokens_eq_ok.1 h
    have hon := Stream.on_ofTokens T
    generalize Stream.ofTokens (T.tokens ++ [T.stop]) = s at hon hread
    have hafter : After s (programReader s.depth) fun b s' =>
        b.span = s.current.span.upTo s'.current.span ∧ T.Lays s (Outline.stmts b.body) s' ∧
          s'.current.kind = .eof :=
      .peek <| ((Rules.lay_ofDepth T _).program _ s).bind fun ss s' ⟨hlay, hend⟩ =>
        .peek (.pure ⟨rfl, hlay, hend⟩)
    exact ⟨T, s, s', rfl, rfl, rfl, hon, hafter hread⟩

/-- The spans of every program that is read from a text nest and point at the text. -/
theorem Program.nested_parse {source file : Text} {b : Block} (h : Program.parse source file = .ok b) :
    ∃ tokens stop, Token.scan source file = .ok (tokens ++ [stop]) ∧ stop.kind = .eof ∧
      Program.Nested source file tokens stop b := by
  obtain ⟨T, s, s', rfl, rfl, hscan, hon, hspan, hlay, hend⟩ := Program.lays_parse h
  exact ⟨T.tokens, T.stop, hscan, T.ended, Program.nested_of_lays hon hspan hlay hend⟩

/-- The statements of a program that is read from a text stand in a row. -/
theorem Program.row_parse {source file : Text} {b : Block} (h : Program.parse source file = .ok b) :
    ∃ tokens start stop, Row source file tokens start (Outline.stmts b.body) stop := by
  obtain ⟨T, s, s', rfl, rfl, -, hon, -, hlay, -⟩ := Program.lays_parse h
  exact ⟨T.tokens, s.start, s'.reach, (hlay hon).2.2.2⟩

/-- A program with a group, whose parentheses belong to no node inside of the statement. -/
theorem Program.nested_group :
    ∃ b, Program.parse "(1+x)*2;" "" = .ok b ∧ ∃ tokens stop,
      Token.scan "(1+x)*2;" "" = .ok (tokens ++ [stop]) ∧ stop.kind = .eof ∧
        Program.Nested "(1+x)*2;" "" tokens stop b := by
  obtain ⟨b, hb⟩ : ∃ b, Program.parse "(1+x)*2;" "" = .ok b := ⟨_, rfl⟩
  exact ⟨b, hb, Program.nested_parse hb⟩

end ScriptLang
