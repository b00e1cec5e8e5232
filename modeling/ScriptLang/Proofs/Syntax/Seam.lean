import Mathlib.Logic.Basic
import ScriptLang.Proofs.Syntax.Bare
import ScriptLang.Proofs.Syntax.Reading

/-!
# A text that goes on

What readers make of a text when the lexemes `more` stand where it ends. Two streams are followed that
have the same lexemes up to the end of the second one, where `more` stands in the first one (`Seam`). The
places of their tokens are of no importance: results are compared without spans.

`Parser.AgreesAt p grip view x y` says that `x` reads the same on the first stream as `y` does on
the second one. The *grip* of a phrase says what it makes of the end. An expression is loose: if it
ends there, it could go on with what follows. A statement is firm: its last token, a semicolon or a
brace, is read, and what may stand behind this one, the word `else` or another semicolon, is not what
a program starts with.
-/

namespace ScriptLang

open ScriptLang.Parser

variable {more : List Lexeme}

/-- Two streams with the same lexemes up to the end of the second one, where `more` stands in the
first one. -/
structure Seam (more : List Lexeme) where
  /-- The stream that goes on. -/
  long : Stream
  /-- The stream that ends. -/
  short : Stream
  /-- They are the same up to the end. -/
  joins : ∃ ls, short.ahead = ls ++ [.eof] ∧ long.ahead = ls ++ more ∧ ∀ l ∈ ls, l.kind ≠ .eof
  /-- Something follows, if only the end. -/
  ne : more ≠ []
  /-- It does not continue a statement or an arm. -/
  opens : Lexeme.first more ∉ [Kind.kwElse, .semicolon, .fatArrow]

namespace Seam

variable {p : Seam more}

theorem first_ne (p : Seam more) {k : Kind} (hk : k ∈ [Kind.kwElse, .semicolon, .fatArrow]) :
    Lexeme.first more ≠ k := fun h => p.opens (h ▸ hk)

/-- Whether the second stream is at its end. -/
abbrev Ended (p : Seam more) : Prop := p.short.current.kind = .eof

theorem ahead_of_ended (h : p.Ended) : p.short.ahead = [.eof] ∧ p.long.ahead = more := by
  obtain ⟨ls, hshort, hlong, hls⟩ := p.joins
  cases ls with
  | nil => exact ⟨hshort, hlong⟩
  | cons l ls => exact absurd ((Settles.first_ahead hshort).symm.trans h) (hls l List.mem_cons_self)

/-- Before the end both are before the same lexeme. -/
theorem current (h : ¬p.Ended) :
    p.long.current = ⟨p.short.current.kind, p.short.current.value, p.long.current.span⟩ := by
  obtain ⟨ls, hshort, hlong, hls⟩ := p.joins
  cases ls with
  | nil => exact absurd (Settles.first_ahead hshort) h
  | cons l ls =>
    have hlexeme : p.long.current.lexeme = p.short.current.lexeme :=
      (List.cons.inj hlong).1.trans (List.cons.inj hshort).1.symm
    simp only [Token.lexeme, Lexeme.mk.injEq] at hlexeme
    rw [← hlexeme.1, ← hlexeme.2]

theorem kind (h : ¬p.Ended) : p.long.current.kind = p.short.current.kind := by
  rw [p.current h]

/-- Both streams after a token. -/
def next (p : Seam more) (h : ¬p.Ended) : Seam more where
  long := p.long.next
  short := p.short.next
  joins := by
    obtain ⟨ls, hshort, hlong, hls⟩ := p.joins
    cases ls with
    | nil => exact absurd (Settles.first_ahead hshort) h
    | cons l ls =>
      exact ⟨ls, (Settles.next_ahead (by simp) hshort).2,
        (Settles.next_ahead (by simp [p.ne]) hlong).2, fun l' hl => hls l' (List.mem_cons_of_mem _ hl)⟩
  ne := p.ne
  opens := p.opens

/-- Both are before the same second lexeme, or the second one is at its last. -/
theorem second (h : ¬p.Ended) : p.long.second = p.short.second ∨
    (p.next h).Ended ∧ p.short.second = .eof ∧ p.long.second = Lexeme.first more := by
  obtain ⟨ls, hshort, hlong, hls⟩ := p.joins
  match ls with
  | [] => exact absurd (Settles.first_ahead hshort) h
  | [l] =>
    have hnext := Settles.next_ahead (List.cons_ne_nil _ _) hshort
    obtain ⟨l', more', rfl⟩ := List.exists_cons_of_ne_nil p.ne
    exact .inr ⟨Settles.first_ahead hnext.2, Settles.second_ahead hshort, Settles.second_ahead hlong⟩
  | l :: l' :: ls => exact .inl ((Settles.second_ahead hlong).trans (Settles.second_ahead hshort).symm)

end Seam

/-- What a phrase makes of the end. -/
structure Grip where
  /-- Whether it is not read if it has to start there. -/
  starts : Bool
  /-- Whether it could go on if it gets there. -/
  goes : Bool

namespace Grip

/-- The grip of what may be empty there or could go on. -/
abbrev loose : Grip := ⟨false, true⟩

/-- The grip of what may be empty there and does not go on. -/
abbrev closed : Grip := ⟨false, false⟩

/-- The grip of what is not read there and does not go on. -/
abbrev firm : Grip := ⟨true, false⟩

end Grip

namespace Parser

variable {α β γ δ : Type}

/-- What a reader `y` reads of the stream that ends is what `x` reads of the other one, up to what
`view` leaves out. A loose reader may get to the end instead. -/
def AgreesAt (p : Seam more) (grip : Grip) (view : α → γ) (x y : Parser α) : Prop :=
  ∀ ⦃b c⦄, y p.short = .ok (b, c) → ∃ q : Seam more, q.short = c ∧
    (p.Ended → grip.starts = false ∧ q.Ended) ∧
    ((grip.goes = true ∧ q.Ended) ∨ ∃ a, x p.long = .ok (a, q.long) ∧ view a = view b)

/-- The same at every place. -/
def Agrees (more : List Lexeme) (grip : Grip) (view : α → γ) (x y : Parser α) : Prop :=
  ∀ p : Seam more, AgreesAt p grip view x y

namespace AgreesAt

variable {p : Seam more} {grip : Grip} {b : Bool} {view : α → γ} {view' : β → δ} {x y : Parser α}
  {f g : α → Parser β} {k : Kind}

/-- A loose phrase before a firm one, or before one that is loose as well. -/
theorem bind (hx : AgreesAt p .loose view x y)
    (hf : ∀ a a', view a = view a' → Agrees more ⟨b, !b⟩ view' (f a) (g a')) :
    AgreesAt p ⟨b, !b⟩ view' (x >>= f) (y >>= g) := by
  intro b₁ c hb
  obtain ⟨a, c₁, ha, hb⟩ := bind_eq_ok.1 hb
  obtain ⟨q, rfl, hend, hq⟩ := hx ha
  rcases hq with ⟨-, hq⟩ | ⟨a', ha', hview⟩
  · obtain ⟨r, rfl, hend', -⟩ := hf a a rfl q hb
    obtain ⟨rfl, hr⟩ := hend' hq
    exact ⟨r, rfl, fun _ => ⟨rfl, hr⟩, .inl ⟨rfl, hr⟩⟩
  · obtain ⟨r, rfl, hend', hr⟩ := hf a' a hview q hb
    refine ⟨r, rfl, fun hp => hend' (hend hp).2,
      hr.imp_right fun ⟨b', hb', hview'⟩ => ⟨b', ?_, hview'⟩⟩
    rw [bind_apply, ha']
    exact hb'

/-- A firm phrase before what does not go on at the end. -/
theorem last (hx : AgreesAt p .firm view x y)
    (hf : ∀ a b, view a = view b → Agrees more .closed view' (f a) (g b)) :
    AgreesAt p grip view' (x >>= f) (y >>= g) := by
  intro b c hb
  obtain ⟨a, c₁, ha, hb⟩ := bind_eq_ok.1 hb
  obtain ⟨q, rfl, hend, hq⟩ := hx ha
  rcases hq with ⟨hloose, -⟩ | ⟨a', ha', hview⟩
  · cases hloose
  · obtain ⟨r, rfl, -, hr⟩ := hf a' a hview q hb
    refine ⟨r, rfl, fun hp => Bool.noConfusion (hend hp).1, ?_⟩
    rcases hr with ⟨hloose, -⟩ | ⟨b', hb', hview'⟩
    · cases hloose
    · refine .inr ⟨b', ?_, hview'⟩
      rw [bind_apply, ha']
      exact hb'

/-- A firm phrase is read wherever another one may be. -/
theorem any (h : AgreesAt p .firm view x y) : AgreesAt p grip view x y := by
  intro b c hb
  obtain ⟨q, hq, hend, hr⟩ := h hb
  exact ⟨q, hq, fun hp => Bool.noConfusion (hend hp).1, hr.imp_left fun h => Bool.noConfusion h.1⟩

theorem mono {view₂ : α → δ} (h : AgreesAt p grip view x y)
    (hview : ∀ a b, view a = view b → view₂ a = view₂ b) : AgreesAt p grip view₂ x y := by
  intro b c hb
  obtain ⟨q, hq, hend, hr⟩ := h hb
  exact ⟨q, hq, hend, hr.imp_right fun ⟨a, ha, hab⟩ => ⟨a, ha, hview a b hab⟩⟩

theorem pure {a a' : α} (h : view a = view a') : AgreesAt p ⟨false, b⟩ view (pure a) (pure a') := by
  intro b' c hb
  cases hb
  exact ⟨p, rfl, fun hp => ⟨rfl, hp⟩, .inr ⟨a, rfl, h⟩⟩

/-- What is read before the end may be empty. -/
theorem inside {a a' : α} (hp : ¬p.Ended) (h : view a = view a') :
    AgreesAt p grip view (Pure.pure a) (Pure.pure a') := by
  intro b' c hb
  cases hb
  exact ⟨p, rfl, fun hend => absurd hend hp, .inr ⟨a, rfl, h⟩⟩

/-- A firm phrase is not read at the end. -/
theorem ended {x' : Parser α} {view₂ : α → δ} (hp : p.Ended) (h : AgreesAt p .firm view x y) :
    AgreesAt p grip view₂ x' y := by
  intro b c hb
  obtain ⟨q, -, hend, -⟩ := h hb
  exact Bool.noConfusion (hend hp).1

/-- What is read at the end is of no importance to a loose phrase. -/
theorem stop {b : α} (hp : p.Ended) : AgreesAt p .loose view x (Pure.pure b) := by
  intro b' c hb
  cases hb
  exact ⟨p, rfl, fun _ => ⟨rfl, hp⟩, .inl ⟨rfl, hp⟩⟩

theorem fail {fault : Token → ParseFault} : AgreesAt p grip view x (Parser.fail fault) := by
  intro b c hb
  cases hb

theorem failBind {fault : Token → ParseFault} {x : Parser β} :
    AgreesAt p grip view' x (Parser.fail fault >>= g) := by
  intro b c hb
  cases hb

theorem ite {c : Prop} [Decidable c] {x' y' : Parser α} (hx : c → AgreesAt p grip view x y)
    (hy : ¬c → AgreesAt p grip view x' y') :
    AgreesAt p grip view (if c then x else x') (if c then y else y') := by
  split
  · exact hx ‹c›
  · exact hy ‹¬c›

theorem pureBind {a a' : α} (h : AgreesAt p grip view' (f a) (g a')) :
    AgreesAt p grip view' (Pure.pure a >>= f) (Pure.pure a' >>= g) := h

/-- A look at the next token. -/
theorem peek {f g : Token → Parser β}
    (hend : p.Ended → AgreesAt p grip view' (f p.long.current) (g p.short.current))
    (h : ∀ sp, ¬p.Ended → AgreesAt p grip view'
      (f ⟨p.short.current.kind, p.short.current.value, sp⟩) (g p.short.current)) :
    AgreesAt p grip view' (peek >>= f) (peek >>= g) := by
  intro b c hb
  by_cases hp : p.Ended
  · exact hend hp hb
  · have hrun : (Parser.peek >>= f) p.long = f p.long.current p.long := rfl
    rw [hrun, p.current hp]
    exact h _ hp hb

/-- The same where only its place matters. -/
theorem peekSpan {f g : Token → Parser β} (h : ∀ t u, AgreesAt p grip view' (f t) (g u)) :
    AgreesAt p grip view' (Parser.peek >>= f) (Parser.peek >>= g) := fun _ _ hb => h _ _ hb

theorem get {f g : Stream → Parser β} (h : AgreesAt p grip view' (f p.long) (g p.short)) :
    AgreesAt p grip view' (MonadState.get >>= f) (MonadState.get >>= g) := fun _ _ hb => h hb

theorem spanFrom {s s' : Span} {f g : Span → Parser β}
    (h : ∀ sp sp', AgreesAt p grip view' (f sp) (g sp')) :
    AgreesAt p grip view' (spanFrom s >>= f) (spanFrom s' >>= g) := fun _ _ hb => h _ _ hb

/-- Behind a token that is not the end, it is enough not to go on at the end. -/
theorem pass {grip' : Grip} {f g : Token → Parser β} (hp : ¬p.Ended)
    (hgrip : grip'.goes = true → grip.goes = true)
    (h : ∀ sp, Agrees more grip' view' (f ⟨p.short.current.kind, p.short.current.value, sp⟩)
      (g p.short.current)) :
    AgreesAt p grip view' (advance >>= f) (advance >>= g) := by
  intro b c hb
  obtain ⟨q, hq, -, hr⟩ := h p.long.current.span (p.next hp) hb
  refine ⟨q, hq, fun hend => absurd hend hp, hr.imp (fun ⟨hloose, hend⟩ => ⟨hgrip hloose, hend⟩)
    fun ⟨a, ha, hview⟩ => ⟨a, ?_, hview⟩⟩
  have hrun : (Parser.advance >>= f) p.long = f p.long.current p.long.next := rfl
  rw [hrun, p.current hp]
  exact ha

theorem advance {f g : Token → Parser β} (hp : ¬p.Ended)
    (h : ∀ sp, Agrees more grip view' (f ⟨p.short.current.kind, p.short.current.value, sp⟩)
      (g p.short.current)) :
    AgreesAt p grip view' (Parser.advance >>= f) (Parser.advance >>= g) :=
  .pass hp id h

/-- A choice by the next token. It is not the end, and what follows the text does not decide it where
nothing else does. -/
theorem seesAny {f g : Bool → Parser β} (hk : k ≠ .eof)
    (hgrip : grip.starts = false → grip.goes = false → Lexeme.first more ≠ k)
    (htrue : ¬p.Ended → p.short.current.kind = k → AgreesAt p grip view' (f true) (g true))
    (hfalse : AgreesAt p grip view' (f false) (g false)) :
    AgreesAt p grip view' (sees k >>= f) (sees k >>= g) := by
  intro b c hb
  have hrun : (Parser.sees k >>= f) p.long = f (p.long.current.kind == k) p.long := rfl
  replace hb : g (p.short.current.kind == k) p.short = .ok (b, c) := hb
  rw [hrun]
  by_cases hp : p.Ended
  · rw [show (p.short.current.kind == k) = false from beq_eq_false_iff_ne.2 (hp ▸ hk.symm)] at hb
    obtain ⟨q, hq, hend, hr⟩ := hfalse hb
    obtain ⟨hstarts, hqend⟩ := hend hp
    refine ⟨q, hq, hend, ?_⟩
    cases hgoes : grip.goes with
    | true => exact .inl ⟨rfl, hqend⟩
    | false =>
      have hfirst := Settles.first_ahead (p.ahead_of_ended hp).2
      rw [hfirst, beq_eq_false_iff_ne.2 (hgrip hstarts hgoes)]
      rwa [hgoes] at hr
  · rw [p.kind hp]
    cases hkind : p.short.current.kind == k with
    | true =>
      rw [hkind] at hb
      exact htrue hp (eq_of_beq hkind) hb
    | false =>
      rw [hkind] at hb
      exact hfalse hb

theorem open_grip {P : Prop} (hstarts : b = false) (hgoes : (!b) = false) : P := by
  subst hstarts
  cases hgoes

theorem sees {f g : Bool → Parser β} (hk : k ≠ .eof)
    (htrue : ¬p.Ended → p.short.current.kind = k → AgreesAt p ⟨b, !b⟩ view' (f true) (g true))
    (hfalse : AgreesAt p ⟨b, !b⟩ view' (f false) (g false)) :
    AgreesAt p ⟨b, !b⟩ view' (Parser.sees k >>= f) (Parser.sees k >>= g) :=
  .seesAny hk open_grip htrue hfalse

/-- A token that may be passed, with another grip behind it. -/
theorem skipTo (grip' : Grip) {f g : Bool → Parser β} (hk : k ≠ .eof)
    (hgrip : grip.starts = false → grip.goes = false → Lexeme.first more ≠ k)
    (hgrip' : grip'.goes = true → grip.goes = true) (htrue : Agrees more grip' view' (f true) (g true))
    (hfalse : AgreesAt p grip view' (f false) (g false)) :
    AgreesAt p grip view' (skip k >>= f) (skip k >>= g) := by
  have hskip (h : Bool → Parser β) : (Parser.skip k >>= h) = Parser.sees k >>= fun seen =>
      if seen = true then Parser.advance >>= fun _ => h true else h false := by
    rw [Parser.skip, bind_assoc]
    congr 1
    funext seen
    cases seen <;> rfl
  rw [hskip, hskip]
  refine .seesAny hk hgrip (fun hp _ => ?_) ?_
  · exact .pass hp hgrip' fun _ => htrue
  · exact hfalse

theorem skip {f g : Bool → Parser β} (hk : k ≠ .eof)
    (htrue : Agrees more ⟨b, !b⟩ view' (f true) (g true))
    (hfalse : AgreesAt p ⟨b, !b⟩ view' (f false) (g false)) :
    AgreesAt p ⟨b, !b⟩ view' (Parser.skip k >>= f) (Parser.skip k >>= g) :=
  .skipTo ⟨b, !b⟩ hk open_grip id htrue hfalse

theorem seesIte {x x' y y' : Parser α} (hk : k ≠ .eof)
    (hx : ¬p.Ended → p.short.current.kind = k → AgreesAt p ⟨b, !b⟩ view x x')
    (hy : AgreesAt p ⟨b, !b⟩ view y y') :
    AgreesAt p ⟨b, !b⟩ view (Parser.sees k >>= fun seen => if seen = true then x else y)
      (Parser.sees k >>= fun seen => if seen = true then x' else y') :=
  .sees (f := fun seen => if seen = true then x else y) hk hx hy

theorem skipIte {x x' y y' : Parser α} (hk : k ≠ .eof) (hx : Agrees more ⟨b, !b⟩ view x x')
    (hy : AgreesAt p ⟨b, !b⟩ view y y') :
    AgreesAt p ⟨b, !b⟩ view (Parser.skip k >>= fun passed => if passed = true then x else y)
      (Parser.skip k >>= fun passed => if passed = true then x' else y') :=
  .skip (f := fun passed => if passed = true then x else y) hk hx hy

/-- The end, where something has to follow. -/
theorem seesEof {fault fault' : Token → ParseFault} (h : ¬p.Ended → AgreesAt p grip view x y) :
    AgreesAt p grip view
      (Parser.sees .eof >>= fun seen => if seen = true then Parser.fail fault else x)
      (Parser.sees .eof >>= fun seen => if seen = true then Parser.fail fault' else y) := by
  intro b c hb
  replace hb : (if (p.short.current.kind == .eof) = true then Parser.fail fault' else y) p.short =
      .ok (b, c) := hb
  have hp : ¬p.Ended := fun hp => by
    rw [show p.short.current.kind = .eof from hp] at hb
    cases hb
  have hrun : (Parser.sees .eof >>= fun seen => if seen = true then Parser.fail fault else x) p.long =
      (if (p.long.current.kind == .eof) = true then Parser.fail fault else x) p.long := rfl
  rw [hrun, p.kind hp, if_neg (by simpa using hp)]
  rw [if_neg (by simpa using hp)] at hb
  exact h hp hb

theorem token (hk : k ≠ .eof) : AgreesAt p .firm Token.value (expect k) (expect k) := by
  rw [expect]
  refine .sees hk (fun hp _ => ?_) .fail
  rw [if_pos rfl, ← bind_pure Parser.advance]
  exact .pass hp (id : Grip.closed.goes = true → _) fun sp q => .pure rfl

theorem expect {f g : Token → Parser β} (hk : k ≠ .eof)
    (h : ∀ t u, t.value = u.value → Agrees more ⟨b, !b⟩ view' (f t) (g u)) :
    AgreesAt p ⟨b, !b⟩ view' (expect k >>= f) (expect k >>= g) :=
  (token hk).any.bind h

/-- The last token of a phrase. -/
theorem expectLast {f g : Token → Parser β} (hk : k ≠ .eof)
    (h : ∀ t u, Agrees more .closed view' (f t) (g u)) :
    AgreesAt p grip view' (Parser.expect k >>= f) (Parser.expect k >>= g) :=
  (token hk).last fun t u _ => h t u

theorem name : AgreesAt p .firm id expectName expectName := by
  rw [expectName]
  refine .peek (fun hp => ?_) fun sp hp => .ite (fun _ => .fail) fun _ => .ite (fun _ => ?_) fun _ => .fail
  · rw [show p.short.current.kind = .eof from hp]
    exact .fail
  · exact .pass hp (id : Grip.closed.goes = true → _) fun sp q => .pure rfl

theorem expectName {f g : Text → Parser β} (h : ∀ n, Agrees more ⟨b, !b⟩ view' (f n) (g n)) :
    AgreesAt p ⟨b, !b⟩ view' (expectName >>= f) (expectName >>= g) :=
  name.any.bind fun n n' hn => by
    obtain rfl : n = n' := hn
    exact h n

end AgreesAt

/-! ### Lists, types and signatures -/

variable {m n : Nat}

theorem agrees_commaList (close : Kind) (hclose : close ≠ .eof) {item item' : Parser α}
    {view : α → γ} (hitem : Agrees more .loose view item item') (hmn : m ≤ n)
    (p : Seam more) :
    AgreesAt p .loose (List.map view) (commaList close item n) (commaList close item' m) := by
  induction m generalizing n p with
  | zero => exact .fail
  | succ m ih =>
    obtain ⟨n, rfl⟩ := Nat.exists_eq_succ_of_ne_zero (Nat.ne_zero_of_lt hmn)
    rw [commaList, commaList]
    refine .seesIte hclose (fun _ _ => .pure rfl) ((hitem p).bind fun a a' ha p => ?_)
    refine .skipIte (by decide) (fun p => ?_) (.pure (congrArg (· :: []) ha))
    exact (ih (Nat.le_of_succ_le_succ hmn) p).bind fun as as' has p =>
      .pure (congrArg₂ (· :: ·) ha has)

theorem agrees_type (hmn : m ≤ n) : Agrees more .loose TypeExpr.bare (type n) (type m) := fun p => by
  induction m generalizing n p with
  | zero => exact .fail
  | succ m ih =>
    obtain ⟨n, rfl⟩ := Nat.exists_eq_succ_of_ne_zero (Nat.ne_zero_of_lt hmn)
    rw [type, type]
    refine .peek (fun hp => ?_) fun sp hp => ?_
    · rw [show p.short.current.kind = .eof from hp]
      exact .fail
    dsimp only
    split
    · exact .advance hp fun _ p => .pure rfl
    · exact .advance hp fun _ p => .pure rfl
    · refine .advance hp fun _ p => .expect (by decide) fun _ _ _ p => ?_
      exact (ih (Nat.le_of_succ_le_succ hmn) p).bind fun a a' ha p => .spanFrom fun _ _ =>
        .pure (congrArg (TypeExpr.list {}) ha)
    · exact .fail

theorem agrees_annotated (hmn : m ≤ n) :
    Agrees more .loose (Option.map TypeExpr.bare) ( annotation n) ( annotation m) := fun p => by
  rw [ annotation, annotation]
  refine .skipIte (by decide) (fun p => ?_) (.pure rfl)
  exact (agrees_type hmn p).bind fun a a' ha p => .pure (congrArg some ha)

theorem agrees_param (hmn : m ≤ n) : Agrees more .loose Param.bare (param n) (param m) := fun p => by
  rw [param, param]
  exact .expectName fun name p => (agrees_annotated hmn p).bind fun a a' ha p =>
    .pure (congrArg (Param.mk name) ha)

end Parser

end ScriptLang
