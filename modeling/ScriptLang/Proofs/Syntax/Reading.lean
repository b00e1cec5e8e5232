import ScriptLang.Proofs.Syntax.Spelling
import ScriptLang.Syntax.Parse

/-!
# What a reader makes of given lexemes

`Parser.Settles x ls rest good P` describes a reader `x` on the lexemes `ls` with `rest` behind them.
If `good`, it succeeds, stops exactly at `rest` and its result is as `P` says. If not, it fails or
its result is not as `P` says. So both the text that is read back and the text that is not are
followed through the same rules.

`Parser.Always x P` says that `P` holds of every result of `x`, whatever the tokens are.
-/

namespace ScriptLang

/-- The kind of the first lexeme. -/
def Lexeme.first (ls : List Lexeme) : Kind := (ls.head?.map Lexeme.kind).getD .eof

/-- The lexemes that are still to be read. -/
def Stream.ahead (s : Stream) : List Lexeme := s.current.lexeme :: s.rest.map Token.lexeme

namespace Parser

variable {α β : Type}

/-- Every result of a reader has a property. -/
def Always (x : Parser α) (P : α → Prop) : Prop := ∀ ⦃s a s'⦄, x s = .ok (a, s') → P a

/-- What a reader makes of the lexemes `ls` before `rest`. -/
def Settles (x : Parser α) (ls rest : List Lexeme) (good : Bool) (P : α → Prop) : Prop :=
  ∀ s : Stream, rest ≠ [] → s.ahead = ls ++ rest →
    (good = true → ∃ a s', x s = .ok (a, s') ∧ s'.ahead = rest ∧ P a) ∧
    (good = false → ∀ a s', x s = .ok (a, s') → ¬P a)

/-! ### Sequences -/

theorem bind_apply (x : Parser α) (f : α → Parser β) (s : Stream) :
    (x >>= f) s = (x s).bind fun r => f r.1 r.2 := rfl

/-- A sequence succeeds when both of its readers do. -/
theorem bind_eq_ok {x : Parser α} {f : α → Parser β} {s s' : Stream} {b : β} :
    (x >>= f) s = .ok (b, s') ↔ ∃ a s₁, x s = .ok (a, s₁) ∧ f a s₁ = .ok (b, s') := by
  rw [bind_apply]
  cases x s with
  | error e => simp [Except.bind]
  | ok r =>
    obtain ⟨a, s₁⟩ := r
    constructor
    · exact fun h => ⟨a, s₁, rfl, h⟩
    · rintro ⟨a', s₁', h₁, h₂⟩
      cases h₁
      exact h₂

namespace Always

variable {x : Parser α} {f : α → Parser β} {P : α → Prop} {Q : β → Prop}

theorem bind (h : ∀ a, Always (f a) Q) : Always (x >>= f) Q := by
  intro s b s' hb
  obtain ⟨a, s₁, -, h₂⟩ := bind_eq_ok.1 hb
  exact h a h₂

/-- The same when more is known about the first result. -/
theorem bind_of (hx : Always x P) (h : ∀ a, P a → Always (f a) Q) : Always (x >>= f) Q := by
  intro s b s' hb
  obtain ⟨a, s₁, h₁, h₂⟩ := bind_eq_ok.1 hb
  exact h a (hx h₁) h₂

theorem pure {a : α} (h : P a) : Always (pure a) P := by
  intro s a' s' ha
  cases ha
  exact h

theorem pureBind {a : α} (h : Always (f a) Q) : Always (Pure.pure a >>= f) Q := h

theorem fail {fault : Token → ParseFault} : Always (Parser.fail fault) P := by
  intro s a s' h
  cases h

theorem ite {c : Prop} [Decidable c] {y : Parser α} (hx : Always x P) (hy : Always y P) :
    Always (if c then x else y) P := by
  split
  · exact hx
  · exact hy

theorem elim {s s' : Stream} {a : α} (h : Always x P) (ha : x s = .ok (a, s')) : P a := h ha

theorem mono {P' : α → Prop} (h : Always x P) (hP : ∀ a, P a → P' a) : Always x P' :=
  fun _ _ _ ha => hP _ (h ha)

end Always

namespace Settles

variable {x : Parser α} {f : α → Parser β} {P : α → Prop} {Q : β → Prop}
  {l : Lexeme} {ls ls₁ ls₂ rest : List Lexeme} {g g₁ g₂ : Bool}

theorem pure {a : α} (h : P a) : Settles (pure a) [] rest true P :=
  fun s _ hs => ⟨fun _ => ⟨a, s, rfl, hs, h⟩, nofun⟩

/-- A result that is right just when the tree is good. -/
theorem pure_iff {a : α} (h : P a ↔ g = true) : Settles (Pure.pure a) [] rest g P := by
  intro s _ hs
  refine ⟨fun hg => ⟨a, s, rfl, hs, h.2 hg⟩, fun hg a' s' ha => ?_⟩
  cases ha
  exact fun ha => Bool.false_ne_true (hg.symm.trans (h.1 ha))

/-- One reader after another. When the first does not read what it should, the second must not
repair that. -/
theorem bind (hx : Settles x ls₁ (ls₂ ++ rest) g₁ P)
    (hf : ∀ a, P a → Settles (f a) ls₂ rest g₂ Q)
    (hn : ∀ a, ¬P a → Always (f a) fun b => ¬Q b) :
    Settles (x >>= f) (ls₁ ++ ls₂) rest (g₁ && g₂) Q := by
  intro s hr hs
  rw [List.append_assoc] at hs
  obtain ⟨hgood, hbad⟩ := hx s (by simp [hr]) hs
  cases g₁ with
  | true =>
    obtain ⟨a, s₁, h₁, hs₁, ha⟩ := hgood rfl
    obtain ⟨hgood₂, hbad₂⟩ := hf a ha s₁ hr hs₁
    have hrun : (x >>= f) s = f a s₁ := by rw [bind_apply, h₁]; rfl
    rw [hrun]
    exact ⟨hgood₂, hbad₂⟩
  | false =>
    refine ⟨nofun, fun _ b s' hb => ?_⟩
    obtain ⟨a, s₁, h₁, h₂⟩ := bind_eq_ok.1 hb
    exact hn a (hbad rfl a s₁ h₁) h₂

/-- One reader after another, where the first always reads what it should. -/
theorem seq (hx : Settles x ls₁ (ls₂ ++ rest) true P)
    (hf : ∀ a, P a → Settles (f a) ls₂ rest g Q) : Settles (x >>= f) (ls₁ ++ ls₂) rest g Q := by
  intro s hr hs
  rw [List.append_assoc] at hs
  obtain ⟨a, s₁, h₁, hs₁, ha⟩ := (hx s (by simp [hr]) hs).1 rfl
  have hrun : (x >>= f) s = f a s₁ := by rw [bind_apply, h₁]; rfl
  rw [hrun]
  exact hf a ha s₁ hr hs₁

/-- A reader after which everything is read as it should. -/
theorem closed (hx : Settles x ls₁ (ls₂ ++ rest) g P)
    (hf : ∀ a, P a → Settles (f a) ls₂ rest true Q)
    (hn : ∀ a, ¬P a → Always (f a) fun b => ¬Q b) : Settles (x >>= f) (ls₁ ++ ls₂) rest g Q := by
  have h := bind hx hf hn
  rwa [Bool.and_true] at h

/-- A reader after which no token is left. -/
theorem last (hx : Settles x ls rest g P) (hf : ∀ a, P a → Settles (f a) [] rest true Q)
    (hn : ∀ a, ¬P a → Always (f a) fun b => ¬Q b) : Settles (x >>= f) ls rest g Q := by
  rw [← List.append_nil ls]
  exact closed hx hf hn

/-- A reader whose result is only put into another form. -/
theorem map {F : α → β} (hx : Settles x ls rest g P) (hF : ∀ a, P a ↔ Q (F a)) :
    Settles (x >>= fun a => Pure.pure (F a)) ls rest g Q :=
  last hx (fun a ha => pure ((hF a).1 ha)) fun a ha => .pure fun h => ha ((hF a).2 h)

theorem mono {P' : α → Prop} (h : Settles x ls rest g P) (hP : ∀ a, P a ↔ P' a) :
    Settles x ls rest g P' := by
  have : P = P' := funext fun a => propext (hP a)
  exact this ▸ h

/-- A reader that never gives the wanted result. -/
theorem never (h : Always x fun a => ¬P a) : Settles x ls rest false P :=
  fun _ _ _ => ⟨nofun, fun _ _ _ ha => h ha⟩

/-! ### Single tokens -/

theorem next_ahead {s : Stream} (hne : ls ≠ []) (hs : s.ahead = l :: ls) :
    s.current.lexeme = l ∧ s.next.ahead = ls := by
  obtain ⟨current, rest, index, last⟩ := s
  simp only [Stream.ahead, List.cons.injEq] at hs
  obtain ⟨hl, rfl⟩ := hs
  cases rest with
  | nil => exact absurd rfl hne
  | cons t ts => exact ⟨hl, rfl⟩

theorem first_ahead {s : Stream} (hs : s.ahead = ls) : s.current.kind = Lexeme.first ls := by
  rw [← hs]
  rfl

theorem advance {f : Token → Parser β} (h : ∀ t, t.lexeme = l → Settles (f t) ls rest g Q) :
    Settles (advance >>= f) (l :: ls) rest g Q := by
  intro s hr hs
  have hne : ls ++ rest ≠ [] := by simp [hr]
  obtain ⟨hl, hs'⟩ := next_ahead hne hs
  exact h s.current hl s.next hr hs'

theorem peek {f : Token → Parser β} (h : ∀ t, t.lexeme = l → Settles (f t) (l :: ls) rest g Q) :
    Settles (peek >>= f) (l :: ls) rest g Q := by
  intro s hr hs
  have hl : s.current.lexeme = l := by
    simp only [Stream.ahead, List.cons_append, List.cons.injEq] at hs
    exact hs.1
  exact h s.current hl s hr hs

/-- The same where only the kind of the token matters. -/
theorem peekKind {f : Token → Parser β}
    (h : ∀ t, t.kind = Lexeme.first (ls ++ rest) → Settles (f t) ls rest g Q) :
    Settles (Parser.peek >>= f) ls rest g Q :=
  fun s hr hs => h s.current (first_ahead hs) s hr hs

/-- A look at the tokens themselves. -/
theorem get {f : Stream → Parser β}
    (h : ∀ s : Stream, s.ahead = ls ++ rest → Settles (f s) ls rest g Q) :
    Settles (MonadState.get >>= f) ls rest g Q :=
  fun s hr hs => h s hs s hr hs

theorem second_ahead {s : Stream} {l₁ l₂ : Lexeme} (hs : s.ahead = l₁ :: l₂ :: ls) :
    s.second = l₂.kind := by
  obtain ⟨current, rest, index, last⟩ := s
  cases rest with
  | nil => simp [Stream.ahead] at hs
  | cons t ts =>
    simp only [Stream.ahead, List.map_cons, List.cons.injEq] at hs
    exact congrArg Lexeme.kind hs.2.1

theorem sees {k : Kind} {f : Bool → Parser β}
    (h : Settles (f (Lexeme.first (ls ++ rest) == k)) ls rest g Q) :
    Settles (sees k >>= f) ls rest g Q := by
  intro s hr hs
  have hk := first_ahead hs
  have hrun : (Parser.sees k >>= f) s = f (s.current.kind == k) s := rfl
  rw [hrun, hk]
  exact h s hr hs

/-- A choice by the next token that is taken. -/
theorem seesThen {k : Kind} {y z : Parser β} (hk : Lexeme.first (ls ++ rest) = k)
    (h : Settles y ls rest g Q) :
    Settles (Parser.sees k >>= fun b => if b = true then y else z) ls rest g Q := by
  refine sees ?_
  rw [hk, beq_self_eq_true, if_pos rfl]
  exact h

/-- A choice by the next token that is not taken. -/
theorem seesElse {k : Kind} {y z : Parser β} (hk : Lexeme.first (ls ++ rest) ≠ k)
    (h : Settles z ls rest g Q) :
    Settles (Parser.sees k >>= fun b => if b = true then y else z) ls rest g Q := by
  refine sees ?_
  rw [beq_eq_false_iff_ne.2 hk, if_neg Bool.false_ne_true]
  exact h

theorem pureBind {a : α} (h : Settles (f a) ls rest g Q) :
    Settles (Pure.pure a >>= f) ls rest g Q := h

theorem spanFrom {first : Span} {f : Span → Parser β} (h : ∀ sp, Settles (f sp) ls rest g Q) :
    Settles (spanFrom first >>= f) ls rest g Q :=
  fun s hr hs => h (first.upTo s.last.span) s hr hs

theorem expect {k : Kind} {f : Token → Parser β} (hl : l.kind = k)
    (h : ∀ t, t.lexeme = l → Settles (f t) ls rest g Q) :
    Settles (expect k >>= f) (l :: ls) rest g Q := by
  intro s hr hs
  have hne : ls ++ rest ≠ [] := by simp [hr]
  obtain ⟨ht, hs'⟩ := next_ahead hne hs
  have hk : s.current.kind = k := by rw [first_ahead hs, ← hl]; rfl
  have hrun : (Parser.expect k >>= f) s = f s.current s.next := by
    simp [Parser.expect, bind_apply, Parser.sees, Parser.advance, hk, Except.bind]
  rw [hrun]
  exact h s.current ht s.next hr hs'

theorem skip {k : Kind} {f : Bool → Parser β} (hl : l.kind = k)
    (h : Settles (f true) ls rest g Q) : Settles (skip k >>= f) (l :: ls) rest g Q := by
  intro s hr hs
  have hne : ls ++ rest ≠ [] := by simp [hr]
  obtain ⟨-, hs'⟩ := next_ahead hne hs
  have hk : s.current.kind = k := by rw [first_ahead hs, ← hl]; rfl
  have hrun : (Parser.skip k >>= f) s = f true s.next := by
    simp [Parser.skip, bind_apply, Parser.sees, hk, Except.bind]
    rfl
  rw [hrun]
  exact h s.next hr hs'

theorem noSkip {k : Kind} {f : Bool → Parser β} (hl : Lexeme.first (ls ++ rest) ≠ k)
    (h : Settles (f false) ls rest g Q) : Settles (Parser.skip k >>= f) ls rest g Q := by
  intro s hr hs
  have hk : s.current.kind ≠ k := by rwa [first_ahead hs]
  have hrun : (Parser.skip k >>= f) s = f false s := by
    simp [Parser.skip, bind_apply, Parser.sees, hk, Except.bind]
    rfl
  rw [hrun]
  exact h s hr hs

/-- A choice by a token that is passed. -/
theorem skipThen {k : Kind} {y z : Parser β} (hl : l.kind = k) (h : Settles y ls rest g Q) :
    Settles (Parser.skip k >>= fun b => if b = true then y else z) (l :: ls) rest g Q :=
  skip hl (by rwa [if_pos rfl])

/-- A choice by a token that is not there. -/
theorem skipElse {k : Kind} {y z : Parser β} (hl : Lexeme.first (ls ++ rest) ≠ k)
    (h : Settles z ls rest g Q) :
    Settles (Parser.skip k >>= fun b => if b = true then y else z) ls rest g Q :=
  noSkip hl (by rwa [if_neg Bool.false_ne_true])

theorem expectName {name : Text} {f : Text → Parser β} (h : Settles (f name) ls rest g Q) :
    Settles (expectName >>= f) (.ident name :: ls) rest g Q := by
  intro s hr hs
  have hne : ls ++ rest ≠ [] := by simp [hr]
  obtain ⟨ht, hs'⟩ := next_ahead hne hs
  simp only [Token.lexeme, Lexeme.ident, Lexeme.mk.injEq] at ht
  have hrun : (Parser.expectName >>= f) s = f name s.next := by
    simp [Parser.expectName, bind_apply, Parser.peek, ht, Except.bind,
      show Kind.ident.isKeyword = false by decide]
    rfl
  rw [hrun]
  exact h s.next hr hs'

end Settles

/-! ### Lists -/

/-- Items separated by commas, each of which is read as it should when the list goes on or ends
behind it. Lists are compared by what `view` keeps of their items. -/
theorem settles_commaList {γ δ : Type} {c : Kind} {item : Parser α} {spell : γ → List Lexeme}
    {good : γ → Bool} {view : α → δ} {goal : γ → δ} (hclose : c ≠ .comma)
    {rest : List Lexeme} (hrest : Lexeme.first rest = c) :
    ∀ (as : List γ) (n : Nat), as.length < n →
      (∀ a ∈ as, Lexeme.first (spell a) ≠ c ∧ spell a ≠ []) →
      (∀ a ∈ as, ∀ r, Lexeme.first r = .comma ∨ Lexeme.first r = c →
        Settles item (spell a) r (good a) fun x => view x = goal a) →
      Settles (commaList c item n) (Spell.commas (as.map spell)) rest (as.all good)
        fun xs => xs.map view = as.map goal := by
  intro as
  induction as with
  | nil =>
    intro n hn _ _
    obtain ⟨n, rfl⟩ := Nat.exists_eq_add_one_of_ne_zero (Nat.ne_of_gt hn)
    rw [commaList]
    exact .seesThen hrest (.pure rfl)
  | cons a as ih =>
    intro n hn hfirst hitem
    obtain ⟨n, rfl⟩ := Nat.exists_eq_add_one_of_ne_zero (Nat.ne_of_gt (Nat.zero_lt_of_lt hn))
    obtain ⟨hne, hnil⟩ := hfirst a (by simp)
    have hhead : ∀ r, Lexeme.first (spell a ++ r) ≠ c := by
      intro r
      obtain ⟨l, ls, hl⟩ := List.exists_cons_of_ne_nil hnil
      rw [hl] at hne ⊢
      exact hne
    rw [commaList]
    cases as with
    | nil =>
      have hlast : Settles (commaList c item (n + 1)) (spell a ++ []) rest (good a && true)
          fun xs => xs.map view = [a].map goal := by
        rw [commaList]
        refine .seesElse (by rw [List.append_nil]; exact hhead rest) ?_
        refine .bind (hitem a (by simp) rest (.inr hrest)) (fun x hx => ?_) (fun x hx => ?_)
        · exact .skipElse (by rw [List.nil_append, hrest]; exact hclose) (.pure (by simp [hx]))
        · refine .bind fun b => .ite (.bind fun xs => .pure ?_) (.pure ?_) <;> simp [hx]
      rw [commaList, List.append_nil] at hlast
      simpa [Spell.commas] using hlast
    | cons b as =>
      have hmany : Settles (commaList c item (n + 1))
          (spell a ++ Kind.comma.lexeme :: Spell.commas ((b :: as).map spell)) rest
          (good a && (b :: as).all good) fun xs => xs.map view = (a :: b :: as).map goal := by
        rw [commaList]
        refine .seesElse (by rw [List.append_assoc]; exact hhead _) ?_
        refine .bind (hitem a (by simp) _ (.inl rfl)) (fun x hx => ?_) (fun x hx => ?_)
        · refine .skipThen rfl ?_
          have hrec := ih n (by simp at hn ⊢; omega) (fun x hc => hfirst x (by simp [hc]))
            (fun x hc => hitem x (by simp [hc]))
          exact hrec.map fun xs => by simp [hx]
        · refine .bind fun b => .ite (.bind fun xs => .pure ?_) (.pure ?_) <;> simp [hx]
      rw [commaList] at hmany
      exact hmany

end Parser

end ScriptLang
