import ScriptLang.Proofs.Syntax.Phrases
import ScriptLang.Proofs.Syntax.Spans
import ScriptLang.Proofs.Token.Places

/-!
# Where the nodes of a tree start

The span of a node starts where one of its tokens starts. So whatever holds of the start of every token
that a program is read from holds of the start of every node (`Program.places_ofTokens`), and of the
start of the token at which reading stops if there is no program. `Parser.Places` says both of a reader;
it is shown for the readers of the grammar one by one.
-/

namespace ScriptLang

/-- A condition on where a span starts. -/
structure StartRule where
  /-- The condition. -/
  holds : Span → Prop
  /-- It says nothing about the end. -/
  upTo : ∀ {first : Span} (last : Span), holds first → holds (first.upTo last)

/-- Whether the tokens that are ahead start where a rule allows it. -/
def Stream.Within (p : StartRule) (s : Stream) : Prop :=
  p.holds s.current.span ∧ ∀ t ∈ s.rest, p.holds t.span

theorem Stream.Within.next {p : StartRule} {s : Stream} (h : s.Within p) : s.next.Within p := by
  obtain ⟨current, rest, index, last⟩ := s
  cases rest with
  | nil => exact h
  | cons t ts => exact List.forall_mem_cons.1 h.2

namespace SyntaxError

/-- The place that an error is about. -/
def span : SyntaxError → Span
  | .scan e _ => e.point.span e.file 1
  | .parse _ token _ => token.span

theorem location_diagnostic (e : SyntaxError) : e.diagnostic.location = some e.span.location := by
  cases e <;> rfl

end SyntaxError

namespace Parser

variable {α β : Type}

/-- What a reader gives when the tokens ahead start where a rule allows it: a result with a property, or
an error that is about such a place. -/
def Places (p : StartRule) (x : Parser α) (P : α → Prop) : Prop :=
  ∀ s : Stream, s.Within p → match x s with
    | .ok (a, s') => s'.Within p ∧ P a
    | .error e => p.holds e.span

namespace Places

variable {p : StartRule} {x : Parser α} {f : α → Parser β} {P : α → Prop} {Q : β → Prop} {k : Kind}

theorem bind (hx : Places p x P) (hf : ∀ a, P a → Places p (f a) Q) : Places p (x >>= f) Q := by
  intro s hs
  have h := hx s hs
  rw [bind_apply]
  generalize x s = r at h ⊢
  cases r with
  | error e => exact h
  | ok r => exact hf r.1 h.2 r.2 h.1

theorem pure {a : α} (h : P a) : Places p (Pure.pure a) P := fun _ hs => ⟨hs, h⟩

theorem pureBind {a : α} (h : Places p (f a) Q) : Places p (Pure.pure a >>= f) Q := h

theorem map {g : α → β} (hx : Places p x P) (hg : ∀ a, P a → Q (g a)) :
    Places p (x >>= fun a => Pure.pure (g a)) Q :=
  hx.bind fun a ha => .pure (hg a ha)

theorem fail {fault : Token → ParseFault} : Places p (Parser.fail fault) P := fun _ hs => hs.1

theorem ite {c : Prop} [Decidable c] {y : Parser α} (hx : Places p x P) (hy : Places p y P) :
    Places p (if c then x else y) P := by
  split
  · exact hx
  · exact hy

theorem peek : Places p Parser.peek fun t => p.holds t.span := fun _ hs => ⟨hs, hs.1⟩

theorem advance : Places p Parser.advance fun t => p.holds t.span := fun _ hs => ⟨hs.next, hs.1⟩

theorem sees : Places p (Parser.sees k) fun _ => True := fun _ hs => ⟨hs, trivial⟩

theorem get : Places p MonadState.get fun _ => True := fun _ hs => ⟨hs, trivial⟩

theorem spanFrom {first : Span} (h : p.holds first) : Places p (Parser.spanFrom first) p.holds :=
  fun s hs => ⟨hs, p.upTo s.last.span h⟩

theorem skip : Places p (Parser.skip k) fun _ => True :=
  sees.bind fun _ _ => .ite (advance.bind fun _ _ => .pure trivial) (.pure trivial)

theorem expect : Places p (Parser.expect k) fun t => p.holds t.span :=
  sees.bind fun _ _ => .ite advance .fail

theorem expectName : Places p Parser.expectName fun _ => True :=
  peek.bind fun _ _ => .ite .fail (.ite (advance.bind fun _ _ => .pure trivial) .fail)

theorem commaList {item : Parser α} (h : Places p item P) (c : Kind) :
    ∀ n, Places p (Parser.commaList c item n) fun as => ∀ a ∈ as, P a
  | 0 => .fail
  | n + 1 => by
    unfold Parser.commaList
    refine sees.bind fun _ _ => .ite (.pure (List.forall_mem_nil _)) (h.bind fun a ha => ?_)
    refine skip.bind fun _ _ => .ite ?_ (.pure (List.forall_mem_singleton.2 ha))
    exact (commaList h c n).map fun as has => List.forall_mem_cons.2 ⟨ha, has⟩

theorem type : ∀ n, Places p (Parser.type n) fun _ => True
  | 0 => .fail
  | n + 1 => by
    unfold Parser.type
    refine peek.bind fun t ht => ?_
    split
    · exact advance.map fun _ _ => trivial
    · exact advance.map fun _ _ => trivial
    · refine advance.bind fun _ _ => expect.bind fun _ _ => (type n).bind fun _ _ => ?_
      exact (spanFrom ht).map fun _ _ => trivial
    · exact .fail

theorem ascription (n : Nat) : Places p ( Parser.annotation n) fun _ => True :=
  skip.bind fun _ _ => .ite ((type n).map fun _ _ => trivial) (.pure trivial)

theorem param (n : Nat) : Places p (Parser.param n) fun _ => True :=
  expectName.bind fun _ _ => (ascription n).map fun _ _ => trivial

end Places

end Parser

/-- Whether the nodes of a phrase start where a rule allows it. -/
def Phrase.Within (p : StartRule) : (ph : Phrase) → ph.Tree → Prop
  | .expr _ | .operand => fun e => Spans.Within p.holds (Spans.expr e)
  | .stmt => fun s => Spans.Within p.holds (Spans.stmt s)
  | .block => fun b => Spans.Within p.holds (Spans.block b)
  | .cond => fun c => Spans.Within p.holds (Spans.cond c)

/-- Readers of trees whose nodes start where a rule allows it. -/
def Rules.Place (p : StartRule) (rules : Rules) : Prop :=
  ∀ ph, Parser.Places p (rules ph) (ph.Within p)

namespace Rules.Place

open ScriptLang.Parser (Places)
open ScriptLang.Parser.Places

variable {p : StartRule} {rules : Rules} (h : rules.Place p) (n : Nat)
include h

theorem expr (least : Nat) :
    Places p (rules.expr least) fun e => Spans.Within p.holds (Spans.expr e) := h (.expr least)

theorem block : Places p rules.block fun b => Spans.Within p.holds (Spans.block b) := h .block

theorem signature : Places p (Parser.signature rules n) fun f => Spans.Within p.holds (Spans.block f.2.2) :=
  expect.bind fun _ _ => ((param n).commaList _ n).bind fun _ _ => expect.bind fun _ _ =>
    (ascription n).bind fun _ _ => h.block.map fun _ hb => hb

theorem namedFunction :
    Places p (Parser.namedFunction rules n) fun f => Spans.Within p.holds (Spans.function f) :=
  advance.bind fun _ ht => expectName.bind fun _ _ => (h.signature n).bind fun _ hf =>
    (spanFrom ht).map fun _ hs => Spans.within_function.2 ⟨hs, hf⟩

/-! ### Operands -/

theorem group : Places p (Parser.group rules) fun e => Spans.Within p.holds (Spans.expr e) :=
  advance.bind fun _ _ => (h.expr 0).bind fun _ he => expect.map fun _ _ => he

theorem arguments :
    Places p (Parser.arguments rules n) fun es => ∀ e ∈ es, Spans.Within p.holds (Spans.expr e) :=
  advance.bind fun _ _ => ((h.expr 0).commaList _ n).bind fun _ hes => expect.map fun _ _ => hes

theorem arrayLiteral :
    Places p (Parser.arrayLiteral rules n) fun e => Spans.Within p.holds (Spans.expr e) :=
  advance.bind fun _ ht => ((h.expr 0).commaList _ n).bind fun _ hes => expect.bind fun _ _ =>
    (spanFrom ht).map fun _ hs => Spans.within_cons.2 ⟨hs, Spans.within_exprs.2 hes⟩

theorem entry : Places p (Parser.entry rules) fun e => Spans.Within p.holds (Spans.expr e.2) :=
  peek.bind fun _ _ => .ite (advance.bind fun _ _ => expect.bind fun _ _ =>
    (h.expr 0).map fun _ he => he) .fail

theorem objectLiteral :
    Places p (Parser.objectLiteral rules n) fun e => Spans.Within p.holds (Spans.expr e) :=
  advance.bind fun _ ht => (h.entry.commaList _ n).bind fun _ hes => expect.bind fun _ _ =>
    (spanFrom ht).map fun _ hs => Spans.within_cons.2 ⟨hs, Spans.within_entries.2 hes⟩

theorem unary : Places p (Parser.unary rules) fun e => Spans.Within p.holds (Spans.expr e) :=
  advance.bind fun _ ht => (h.expr _).bind fun _ he =>
    (spanFrom ht).map fun _ hs => Spans.within_cons.2 ⟨hs, he⟩

theorem functionLiteral :
    Places p (Parser.functionLiteral rules n) fun e => Spans.Within p.holds (Spans.expr e) :=
  advance.bind fun _ ht => (h.signature n).bind fun _ hf =>
    (spanFrom ht).map fun _ hs => Spans.within_function.2 ⟨hs, hf⟩

omit h in
theorem property {e : Expr} (he : Spans.Within p.holds (Spans.expr e)) :
    Places p (Parser.property e) fun e => Spans.Within p.holds (Spans.expr e) :=
  advance.bind fun _ _ => peek.bind fun _ _ => .ite (advance.bind fun _ _ =>
    (spanFrom (Spans.of_expr he)).map fun _ hs => Spans.within_cons.2 ⟨hs, he⟩) .fail

omit h in
theorem properties {e : Expr} (he : Spans.Within p.holds (Spans.expr e)) :
    ∀ n, Places p (Parser.properties n e) fun e => Spans.Within p.holds (Spans.expr e)
  | 0 => .fail
  | n + 1 => sees.bind fun _ _ => .ite ((property he).bind fun _ hc => properties hc n) (.pure he)

theorem construction :
    Places p (Parser.construction rules n) fun e => Spans.Within p.holds (Spans.expr e) := by
  unfold Parser.construction
  refine advance.bind fun _ ht => peek.bind fun _ _ => .ite ((h .operand).bind fun _ hc => ?_) .fail
  refine (properties hc n).bind fun c hc => sees.bind fun _ _ => .ite ?_ .fail
  refine (h.arguments n).bind fun es hes => (spanFrom (Spans.of_expr hc)).bind fun _ hcall => ?_
  refine (spanFrom ht).map fun _ hs => ?_
  simp only [Spans.expr, Spans.within_cons, Spans.within_append, Spans.within_exprs]
  exact ⟨hs, hcall, hc, hes⟩

/-! ### Choices -/

theorem armReader {first : Span} (hfirst : p.holds first) {pattern : Option Expr}
    (hp : ∀ e, pattern = some e → Spans.Within p.holds (Spans.expr e)) :
    Places p (armReader rules first pattern) fun a => Spans.Within p.holds (Spans.arm a) := by
  have finished {body : ArmBody} (hbody : Spans.Within p.holds (Spans.armBody body)) :
      Places p (do return ⟨← Parser.spanFrom first, pattern, body⟩ : Parser MatchArm)
        fun a => Spans.Within p.holds (Spans.arm a) :=
    (spanFrom hfirst).map fun _ hs => Spans.within_arm.2 ⟨hs, hp, hbody⟩
  refine sees.bind fun _ _ => .ite (h.block.bind fun b hb => ?_) (peek.bind fun t ht => ?_)
  · exact pureBind (finished hb)
  · refine (h.expr 0).bind fun e he => (spanFrom ht).bind fun s hs => ?_
    exact pureBind (finished (Spans.within_cons.2 ⟨hs, he⟩))

theorem matchArm : Places p (Parser.matchArm rules) fun a => Spans.Within p.holds (Spans.arm a) :=
  peek.bind fun _ ht => get.bind fun _ _ => .ite
    (advance.bind fun _ _ => pureBind <| expect.bind fun _ _ =>
      h.armReader ht nofun)
    ((h.expr 0).bind fun _ he => pureBind <| expect.bind fun _ _ =>
      h.armReader ht fun _ heq => Option.some.inj heq ▸ he)

theorem matchArms :
    ∀ n, Places p (Parser.matchArms rules n) fun as => ∀ a ∈ as, Spans.Within p.holds (Spans.arm a)
  | 0 => .fail
  | n + 1 => by
    unfold Parser.matchArms
    refine sees.bind fun _ _ => .ite (.pure (List.forall_mem_nil _)) (h.matchArm.bind fun a ha => ?_)
    refine skip.bind fun _ _ => .ite ?_ (.pure (List.forall_mem_singleton.2 ha))
    exact (matchArms n).map fun _ has => List.forall_mem_cons.2 ⟨ha, has⟩

theorem choice : Places p (Parser.choice rules n) fun m => Spans.Within p.holds (Spans.choice m) :=
  advance.bind fun _ ht => (h.expr 0).bind fun _ he => expect.bind fun _ _ =>
    (h.matchArms n).bind fun _ has => expect.bind fun _ _ =>
      (spanFrom ht).map fun _ hs => Spans.within_choice.2 ⟨hs, he, has⟩

/-! ### Expressions -/

theorem operand : Places p (Parser.operand rules n) fun e => Spans.Within p.holds (Spans.expr e) := by
  have leaf {t : Token} {e : Expr} (ht : p.holds t.span) (he : Spans.expr e = [t.span]) :
      Places p (Parser.advance >>= fun _ => Pure.pure e) fun e => Spans.Within p.holds (Spans.expr e) :=
    advance.map fun _ _ => by
      rw [he]
      exact Spans.within_cons.2 ⟨ht, Spans.within_nil⟩
  unfold Parser.operand
  refine peek.bind fun t ht => ?_
  split
  · unfold Parser.numberLiteral
    refine peek.bind fun t ht => ?_
    split
    · exact leaf ht rfl
    · exact .fail
  · exact leaf ht rfl
  · exact leaf ht rfl
  · exact leaf ht rfl
  · exact leaf ht rfl
  · exact leaf ht rfl
  · exact h.group
  · exact h.arrayLiteral n
  · exact h.objectLiteral n
  · exact h.unary
  · exact h.unary
  · exact h.unary
  · exact h.unary
  · exact h.functionLiteral n
  · exact (h.choice n).map fun _ hm => hm
  · exact h.construction n
  · exact .fail

theorem extend {left : Expr} (hl : Spans.Within p.holds (Spans.expr left)) (right : Nat) :
    Places p (Parser.extend rules n right left) fun e => Spans.Within p.holds (Spans.expr e) := by
  have hspan := spanFrom (Spans.of_expr hl)
  have pair {e : Expr} (he : Spans.Within p.holds (Spans.expr e)) :
      Spans.Within p.holds (Spans.expr left ++ Spans.expr e) := Spans.within_append.2 ⟨hl, he⟩
  unfold Parser.extend
  refine peek.bind fun op _ => ?_
  split
  · refine (h.arguments n).bind fun es hes => hspan.map fun _ hs => ?_
    exact Spans.within_cons.2 ⟨hs, Spans.within_append.2 ⟨hl, Spans.within_exprs.2 hes⟩⟩
  · refine advance.bind fun _ _ => (h.expr 0).bind fun _ he => expect.bind fun _ _ => ?_
    exact hspan.map fun _ hs => Spans.within_cons.2 ⟨hs, pair he⟩
  · exact property hl
  · exact advance.bind fun _ _ => hspan.map fun _ hs => Spans.within_cons.2 ⟨hs, hl⟩
  · exact advance.bind fun _ _ => hspan.map fun _ hs => Spans.within_cons.2 ⟨hs, hl⟩
  · refine advance.bind fun _ _ => (h.expr right).bind fun _ he => ?_
    exact hspan.map fun _ hs => Spans.within_cons.2 ⟨hs, pair he⟩
  · refine advance.bind fun _ _ => (h.expr right).bind fun _ he => .ite ?_ ?_
    · exact hspan.map fun _ hs => Spans.within_cons.2 ⟨hs, pair he⟩
    · exact hspan.map fun _ hs => Spans.within_cons.2 ⟨hs, pair he⟩

theorem climb (least : Nat) : ∀ (n : Nat) {left : Expr}, Spans.Within p.holds (Spans.expr left) →
    Places p (Parser.climb rules least n left) fun e => Spans.Within p.holds (Spans.expr e)
  | 0, _, _ => .fail
  | n + 1, left, hl => by
    unfold Parser.climb
    refine peek.bind fun _ _ => ?_
    split
    · exact .pure hl
    · exact .ite (.pure hl) ((h.extend n hl _).bind fun _ he => climb least n he)

/-! ### Statements -/

theorem statements :
    ∀ n, Places p (Parser.statements rules n) fun ss => ∀ s ∈ ss, Spans.Within p.holds (Spans.stmt s)
  | 0 => .fail
  | n + 1 => skip.bind fun _ _ => .ite (.pure (List.forall_mem_nil _)) <| sees.bind fun _ _ =>
      .ite .fail <| (h .stmt).bind fun _ hs => (statements n).map fun _ hss =>
        List.forall_mem_cons.2 ⟨hs, hss⟩

theorem blockRule :
    Places p (Parser.block rules n) fun b => Spans.Within p.holds (Spans.block b) :=
  expect.bind fun _ ht => (h.statements n).bind fun _ hss =>
    (spanFrom ht).map fun _ hs => Spans.within_block.2 ⟨hs, hss⟩

theorem exprStmt : Places p (Parser.exprStmt rules) fun s => Spans.Within p.holds (Spans.stmt s) :=
  peek.bind fun _ ht => (h.expr 0).bind fun _ he => expect.bind fun _ _ =>
    (spanFrom ht).map fun _ hs => Spans.within_cons.2 ⟨hs, he⟩

theorem declaration :
    Places p (Parser.declaration rules n) fun s => Spans.Within p.holds (Spans.stmt s) := by
  unfold Parser.declaration
  refine advance.bind fun _ ht => expectName.bind fun _ _ => (ascription n).bind fun _ _ =>
    skip.bind fun _ _ => .ite ((h.expr 0).bind fun e he => ?_) ?_
  · exact pureBind <| expect.bind fun _ _ =>
      (spanFrom ht).map fun _ hs => Spans.within_cons.2 ⟨hs, he⟩
  · exact pureBind <| expect.bind fun _ _ =>
      (spanFrom ht).map fun _ hs => Spans.within_cons.2 ⟨hs, Spans.within_nil⟩

theorem condRule : Places p (Parser.cond rules) fun c => Spans.Within p.holds (Spans.cond c) := by
  unfold Parser.cond
  refine advance.bind fun _ ht => (h.expr 0).bind fun c hc => h.block.bind fun yes hyes =>
    skip.bind fun _ _ => .ite (sees.bind fun _ _ => .ite ?_ ?_) ?_
  · refine (h .cond).bind fun _ hno => pureBind <| (spanFrom ht).map
      fun _ hs => Spans.within_cond.2 ⟨hs, hc, hyes, fun no hno' => ?_⟩
    cases hno'
    exact hno
  · refine h.block.bind fun _ hno => pureBind <| (spanFrom ht).map
      fun _ hs => Spans.within_cond.2 ⟨hs, hc, hyes, fun no hno' => ?_⟩
    cases hno'
    exact hno
  · exact pureBind <| (spanFrom ht).map
      fun _ hs => Spans.within_cond.2 ⟨hs, hc, hyes, nofun⟩

omit h in
theorem importStmt : Places p Parser.importStmt fun s => Spans.Within p.holds (Spans.stmt s) := by
  have named {first : Span} (ht : p.holds first) (name : Text) (wildcard : Bool) :
      Places p (do
        let path ← if ← Parser.skip .kwFrom then
            let t ← Parser.expect .string
            Pure.pure t.value
          else if wildcard then Parser.fail .expectedFrom
          else Pure.pure []
        let _ ← Parser.expect .semicolon
        return Stmt.importing (← Parser.spanFrom first) name wildcard path)
        fun s => Spans.Within p.holds (Spans.stmt s) := by
    have finished (path : Text) : Places p (do
        let _ ← Parser.expect .semicolon
        return Stmt.importing (← Parser.spanFrom first) name wildcard path)
        fun s => Spans.Within p.holds (Spans.stmt s) :=
      expect.bind fun _ _ => (spanFrom ht).map fun _ hs => Spans.within_cons.2 ⟨hs, Spans.within_nil⟩
    refine skip.bind fun _ _ => .ite ?_ (.ite ?_ ?_)
    · exact expect.bind fun t _ => pureBind (finished t.value)
    · exact Places.bind (P := fun _ => True) .fail fun _ _ => finished _
    · exact pureBind (finished [])
  unfold Parser.importStmt
  refine advance.bind fun t ht => skip.bind fun wildcard _ => .ite ?_ ?_
  · exact pureBind (named ht [] wildcard)
  · exact expectName.bind fun name _ => named ht name wildcard

theorem foreachStmt : Places p (Parser.foreachStmt rules) fun s => Spans.Within p.holds (Spans.stmt s) := by
  have finished {first : Span} (ht : p.holds first) (value index : Text) : Places p (do
      let _ ← Parser.expect .kwIn
      let iterable ← rules.expr 0
      let body ← rules.block
      return Stmt.foreachLoop (← Parser.spanFrom first) value index iterable body)
      fun s => Spans.Within p.holds (Spans.stmt s) :=
    expect.bind fun _ _ => (h.expr 0).bind fun _ he => h.block.bind fun _ hb =>
      (spanFrom ht).map fun _ hs => Spans.within_cons.2 ⟨hs, Spans.within_append.2 ⟨he, hb⟩⟩
  unfold Parser.foreachStmt
  refine advance.bind fun t ht => expectName.bind fun value _ => skip.bind fun _ _ => .ite ?_ ?_
  · exact expectName.bind fun index _ => finished ht value index
  · exact pureBind (finished ht value [])

theorem whileStmt : Places p (Parser.whileStmt rules) fun s => Spans.Within p.holds (Spans.stmt s) :=
  advance.bind fun _ ht => (h.expr 0).bind fun _ he => h.block.bind fun _ hb =>
    (spanFrom ht).map fun _ hs => Spans.within_cons.2 ⟨hs, Spans.within_append.2 ⟨he, hb⟩⟩

theorem members : ∀ n, Places p (Parser.members rules n) fun r =>
    ∀ f ∈ r.2, Spans.Within p.holds (Spans.function f)
  | 0 => .fail
  | n + 1 => by
    have rest (f : Param) : Places p (Parser.members rules n >>= fun r => Pure.pure (f :: r.1, r.2))
        fun r => ∀ f ∈ r.2, Spans.Within p.holds (Spans.function f) :=
      (members n).map fun _ hr => hr
    unfold Parser.members
    refine sees.bind fun _ _ => .ite (.pure (List.forall_mem_nil _)) (sees.bind fun _ _ => .ite ?_ ?_)
    · exact (h.namedFunction n).bind fun m hm => (members n).map fun r hr =>
        List.forall_mem_cons.2 ⟨hm, hr⟩
    · refine (param n).bind fun f _ => skip.bind fun _ _ => .ite (rest f) ?_
      exact expect.bind fun _ _ => rest f

theorem structDecl : Places p (Parser.structDecl rules n) fun s => Spans.Within p.holds (Spans.stmt s) :=
  advance.bind fun _ ht => expectName.bind fun _ _ => expect.bind fun _ _ => (h.members n).bind
    fun _ hr => advance.bind fun _ _ => (spanFrom ht).map fun _ hs =>
      Spans.within_cons.2 ⟨hs, Spans.within_functions.2 hr⟩

omit h in
theorem enumDecl : Places p (Parser.enumDecl n) fun s => Spans.Within p.holds (Spans.stmt s) :=
  advance.bind fun _ ht => expectName.bind fun _ _ => expect.bind fun _ _ =>
    (expectName.commaList _ n).bind fun _ _ => expect.bind fun _ _ =>
      (spanFrom ht).map fun _ hs => Spans.within_cons.2 ⟨hs, Spans.within_nil⟩

theorem chooseStmt : Places p (Parser.chooseStmt rules n) fun s => Spans.Within p.holds (Spans.stmt s) :=
  peek.bind fun _ ht => (h.choice n).bind fun _ hm => skip.bind fun _ _ =>
    (spanFrom ht).map fun _ hs => Spans.within_cons.2 ⟨hs, hm⟩

theorem returnStmt : Places p (Parser.returnStmt rules) fun s => Spans.Within p.holds (Spans.stmt s) := by
  unfold Parser.returnStmt
  refine advance.bind fun _ ht => sees.bind fun _ _ => .ite ?_ ((h.expr 0).bind fun _ he => ?_)
  · exact pureBind <| expect.bind fun _ _ =>
      (spanFrom ht).map fun _ hs => Spans.within_cons.2 ⟨hs, Spans.within_nil⟩
  · exact pureBind <| expect.bind fun _ _ =>
      (spanFrom ht).map fun _ hs => Spans.within_cons.2 ⟨hs, he⟩

omit h in
theorem wordStmt {make : Span → Stmt} (hmake : ∀ s, Spans.stmt (make s) = [s]) :
    Places p (Parser.wordStmt make) fun s => Spans.Within p.holds (Spans.stmt s) :=
  advance.bind fun _ ht => expect.bind fun _ _ => (spanFrom ht).map fun _ hs => by
    rw [hmake]
    exact Spans.within_cons.2 ⟨hs, Spans.within_nil⟩

theorem statement : Places p (Parser.statement rules n) fun s => Spans.Within p.holds (Spans.stmt s) := by
  unfold Parser.statement
  refine peek.bind fun _ _ => ?_
  split
  · exact h.block.map fun _ hb => hb
  · exact h.declaration n
  · exact h.declaration n
  · exact get.bind fun _ _ => .ite h.exprStmt ((h.namedFunction n).map fun _ hf => hf)
  · exact (h .cond).map fun _ hc => hc
  · exact importStmt
  · exact h.foreachStmt
  · exact h.whileStmt
  · exact h.structDecl n
  · exact enumDecl n
  · exact h.chooseStmt n
  · exact wordStmt fun _ => rfl
  · exact wordStmt fun _ => rfl
  · exact h.returnStmt
  · exact h.exprStmt

end Rules.Place

/-! ### Programs -/

open ScriptLang.Parser (Places)
open ScriptLang.Parser.Places

variable {p : StartRule}

theorem Rules.place_ofDepth : ∀ d, (Rules.ofDepth d).Place p
  | 0 => fun _ => .fail
  | d + 1 => by
    have h := Rules.place_ofDepth d
    intro ph
    cases ph with
    | expr least => exact (h .operand).bind fun _ he => h.climb least d he
    | operand => exact h.operand d
    | stmt => exact h.statement d
    | block => exact h.blockRule d
    | cond => exact h.condRule

theorem Parser.places_program {rules : Rules} (h : rules.Place p) : ∀ n,
    Places p (Parser.program rules n) fun ss => ∀ s ∈ ss, Spans.Within p.holds (Spans.stmt s)
  | 0 => .fail
  | n + 1 => Places.sees.bind fun _ _ => .ite (.pure (List.forall_mem_nil _)) <| (h .stmt).bind fun _ hs =>
      (Parser.places_program h n).map fun _ hss => List.forall_mem_cons.2 ⟨hs, hss⟩

/-- What holds of the start of every token of a list that is closed holds of those of its stream. -/
theorem Stream.within_ofTokens {ts : List Token} (hclosed : ts.getLast?.map Token.kind = some .eof)
    (h : ∀ t ∈ ts, p.holds t.span) : (Stream.ofTokens ts).Within p := by
  unfold Stream.ofTokens
  rw [if_pos hclosed]
  cases ts with
  | nil => cases hclosed
  | cons t ts => exact List.forall_mem_cons.1 h

theorem Token.getLast?_scan {source file : Text} {ts : List Token}
    (h : Token.scan source file = .ok ts) : ts.getLast?.map Token.kind = some .eof := by
  obtain ⟨ls, hcomplete, -⟩ := Token.complete_scanFrom h
  have hlast := congrArg List.getLast? hcomplete.lexemes
  rw [List.getLast?_map, List.getLast?_concat] at hlast
  obtain ⟨t, ht, hlexeme⟩ := Option.map_eq_some_iff.1 hlast
  rw [ht]
  exact congrArg (some ·.kind) hlexeme

/-- The places that start in the text of a file. -/
def StartRule.of (source file : Text) : StartRule where
  holds := Span.StartsIn source file
  upTo last h := h.upTo last

/-- What is read from a text: a result with a property, or an error about a place that starts in it. -/
def Parser.ReadsIn {α : Type} (source file : Text) (P : α → Prop) : Except SyntaxError α → Prop
  | .ok a => P a
  | .error e => e.span.StartsIn source file

theorem Parser.Places.scanned {α : Type} {P : α → Prop} {source file : Text} {ts : List Token}
    {x : Parser α} (hx : Places (.of source file) x P) (hts : Token.scan source file = .ok ts) :
    Parser.ReadsIn source file P ((x (Stream.ofTokens ts)).map Prod.fst) := by
  have hscan := Token.startsIn_scan source file
  rw [hts] at hscan
  have hread := hx _ (Stream.within_ofTokens (Token.getLast?_scan hts) hscan)
  generalize x (Stream.ofTokens ts) = r at hread ⊢
  cases r with
  | error e => exact hread
  | ok r => exact hread.2

theorem ScanError.startsIn {source file : Text} {e : ScanError}
    (h : Token.scan source file = .error e) : (e.point.span e.file 1).StartsIn source file := by
  have hscan := Token.startsIn_scan source file
  rwa [h] at hscan

/-- All nodes of the program of a text start in it. -/
theorem Program.startsIn_parse (source file : Text) :
    Parser.ReadsIn source file (fun b => Spans.Within (Span.StartsIn source file) (Spans.block b))
      (Program.parse source file) := by
  unfold Program.parse
  cases hts : Token.scan source file with
  | error e => exact ScanError.startsIn hts
  | ok ts =>
    refine Places.scanned (x := do
        let first ← Parser.peek
        let body ← Parser.program (Rules.ofDepth (Stream.ofTokens ts).depth) (Stream.ofTokens ts).depth
        let last ← Parser.peek
        return (⟨first.span.upTo last.span, body⟩ : Block)) (peek.bind fun _ ht => ?_) hts
    exact (Parser.places_program (Rules.place_ofDepth _) _).bind fun _ hss =>
      peek.map fun last _ => Spans.within_block.2 ⟨ht.upTo last.span, hss⟩

/-- All nodes of the expression of a text start in it. -/
theorem Expr.startsIn_parse (source file : Text) :
    Parser.ReadsIn source file (fun e => Spans.Within (Span.StartsIn source file) (Spans.expr e))
      (Expr.parse source file) := by
  unfold Expr.parse
  cases hts : Token.scan source file with
  | error e => exact ScanError.startsIn hts
  | ok ts =>
    refine Places.scanned (x := do
        let e ← (Rules.ofDepth (Stream.ofTokens ts).depth).expr 0
        let _ ← Parser.skip .semicolon
        if ← Parser.sees .eof then return e else Parser.fail .expectedEnd) ?_ hts
    exact ((Rules.place_ofDepth _).expr 0).bind fun _ he => skip.bind fun _ _ => Places.sees.bind
      fun _ _ => .ite (.pure he) .fail

end ScriptLang
