import ScriptLang.Proofs.Syntax.Reading

/-!
# How far readers go

A reader goes on from token to token and never passes the last one, which is for the end. So the
number of tokens bounds how many rules can be inside of each other and how long lists are.

`Parser.StepsAt t L L' x y` says that two readers do the same before the token `t` when at most `L`
tokens are left, with this one. They differ in their bounds on depths and lengths only, and both
bounds are enough: if they fail, it is for another reason, and if they succeed, at most `L'` tokens
are left.
-/

namespace ScriptLang

namespace Stream

/-- The number of tokens that are left, with the one that stands next. -/
def size (s : Stream) : Nat := s.rest.length + 1

/-- Whether the last token of a stream is for the end. -/
def Closed (s : Stream) : Prop := ∃ ts stop, s.current :: s.rest = ts ++ [stop] ∧ stop.kind = .eof

/-- What passing tokens leads to. An end is not passed. -/
inductive Passes : Stream → Stream → Prop
  | refl (s : Stream) : Passes s s
  | step {s s' : Stream} (going : s.current.kind ≠ .eof) (h : Passes s.next s') : Passes s s'

variable {s s' s'' : Stream}

theorem Closed.next (h : s.Closed) (going : s.current.kind ≠ .eof) :
    s.next.Closed ∧ s.next.size + 1 = s.size := by
  obtain ⟨ts, stop, hs, hstop⟩ := h
  obtain ⟨current, rest, index, last⟩ := s
  cases ts with
  | nil =>
    cases hs
    exact absurd hstop going
  | cons t ts =>
    obtain ⟨rfl, rfl⟩ := List.cons.inj hs
    cases ts with
    | nil => exact ⟨⟨[], stop, rfl, hstop⟩, rfl⟩
    | cons u ts => exact ⟨⟨u :: ts, stop, rfl, hstop⟩, rfl⟩

theorem Passes.trans (h : s.Passes s') (h' : s'.Passes s'') : s.Passes s'' := by
  induction h with
  | refl => exact h'
  | step going _ ih => exact .step going (ih h')

theorem Passes.closed (h : s.Passes s') (hs : s.Closed) : s'.Closed := by
  induction h with
  | refl => exact hs
  | step going _ ih => exact ih (hs.next going).1

end Stream

theorem Token.ne_eof_of_beq {t : Token} {k : Kind} (h : (t.kind == k) = true) (hk : k ≠ .eof) :
    t.kind ≠ .eof :=
  eq_of_beq h ▸ hk

namespace Parser

variable {α β : Type}

/-- What a reader may make of a stream: it passes tokens, and at most `L` are left, or it fails at a
token. -/
def Leads (s : Stream) (L : Nat) : Except SyntaxError (α × Stream) → Prop
  | .ok (_, s') => s.Passes s' ∧ s'.size ≤ L
  | .error e => ∃ u fault, s.Passes u ∧ fault ≠ .tooDeep ∧ e = .parse fault u.current u.index

theorem Leads.after {s s₁ : Stream} {L : Nat} {r : Except SyntaxError (α × Stream)}
    (h : Leads s₁ L r) (hs : s.Passes s₁) : Leads s L r := by
  cases r with
  | ok r => exact ⟨hs.trans h.1, h.2⟩
  | error e =>
    obtain ⟨u, fault, hu, hfault⟩ := h
    exact ⟨u, fault, hs.trans hu, hfault⟩

/-- What two readers make of a stream before the token `t` with at most `L` tokens. -/
def StepsAt (t : Token) (L L' : Nat) (x y : Parser α) : Prop :=
  ∀ ⦃s : Stream⦄, s.Closed → s.current = t → s.size ≤ L → x s = y s ∧ Leads s L' (y s)

/-- The same before every token. -/
def Steps (L L' : Nat) (x y : Parser α) : Prop := ∀ t, StepsAt t L L' x y

namespace StepsAt

variable {t : Token} {L L₁ L₂ : Nat} {x y x' y' : Parser α} {f g : α → Parser β} {k : Kind}

theorem bind (hx : StepsAt t L L₁ x y) (hf : ∀ a, Steps L₁ L₂ (f a) (g a)) :
    StepsAt t L L₂ (x >>= f) (y >>= g) := by
  intro s hs ht hL
  obtain ⟨hxy, hlead⟩ := hx hs ht hL
  rw [bind_apply, bind_apply, hxy]
  cases hy : y s with
  | error e =>
    rw [hy] at hlead
    exact ⟨rfl, hlead⟩
  | ok r =>
    rw [hy] at hlead
    obtain ⟨hpass, hL₁⟩ := hlead
    obtain ⟨hfg, hlead⟩ := hf r.1 _ (hpass.closed hs) rfl hL₁
    exact ⟨hfg, hlead.after hpass⟩

theorem mono (h : StepsAt t L L₁ x y) (hL : L₁ ≤ L₂) : StepsAt t L L₂ x y := by
  intro s hs ht hle
  obtain ⟨hxy, hlead⟩ := h hs ht hle
  refine ⟨hxy, ?_⟩
  cases hy : y s with
  | error e =>
    rw [hy] at hlead
    exact hlead
  | ok r =>
    rw [hy] at hlead
    exact ⟨hlead.1, Nat.le_trans hlead.2 hL⟩

/-- Some token is left. -/
theorem none : StepsAt t 0 L₁ x y := fun _ _ _ h => absurd h (Nat.not_succ_le_zero _)

theorem pure {a : α} (h : L ≤ L₁) : StepsAt t L L₁ (pure a) (pure a) := fun s _ _ hL =>
  ⟨rfl, .refl s, Nat.le_trans hL h⟩

theorem fail {fault : Token → ParseFault} (h : ∀ t, fault t ≠ .tooDeep) :
    StepsAt t L L₁ (Parser.fail fault : Parser α) (Parser.fail fault) := fun s _ _ _ =>
  ⟨rfl, s, fault s.current, .refl s, h _, rfl⟩

theorem failBind {fault : Token → ParseFault} (h : ∀ t, fault t ≠ .tooDeep) :
    StepsAt t L L₁ (Parser.fail fault >>= f) (Parser.fail fault >>= g) := fun s _ _ _ =>
  ⟨rfl, s, fault s.current, .refl s, h _, rfl⟩

theorem get {f g : Stream → Parser β} (h : ∀ s : Stream, s.current = t → StepsAt t L L₁ (f s) (g s)) :
    StepsAt t L L₁ (MonadState.get >>= f) (MonadState.get >>= g) := fun s hs ht hL => h s ht hs ht hL

theorem peek {f g : Token → Parser β} (h : StepsAt t L L₁ (f t) (g t)) :
    StepsAt t L L₁ (peek >>= f) (peek >>= g) := by
  rintro s hs rfl hL
  exact h hs rfl hL

theorem advance {f g : Token → Parser β} (ht : t.kind ≠ .eof) (h : Steps (L - 1) L₁ (f t) (g t)) :
    StepsAt t L L₁ (advance >>= f) (advance >>= g) := by
  rintro s hs rfl hL
  obtain ⟨hnext, hsize⟩ := hs.next ht
  obtain ⟨hfg, hlead⟩ := h _ hnext rfl (by omega)
  exact ⟨hfg, hlead.after (.step ht (.refl _))⟩

theorem spanFrom {first : Span} {f g : Span → Parser β} (h : ∀ sp, StepsAt t L L₁ (f sp) (g sp)) :
    StepsAt t L L₁ (spanFrom first >>= f) (spanFrom first >>= g) :=
  fun s hs ht hL => h (first.upTo s.last.span) hs ht hL

end StepsAt

/-! ### The end of a struct -/

theorem brace_members {rules : Rules} : ∀ {n s r s'}, members rules n s = .ok (r, s') →
    s'.current.kind = .rbrace
  | 0, _, _, _, hs => nomatch hs
  | n + 1, s, r, s', hs => by
    rw [members] at hs
    obtain ⟨closed, _, hclosed, hs⟩ := bind_eq_ok.1 hs
    cases hclosed
    split at hs
    · next hbrace =>
      cases hs
      exact eq_of_beq hbrace
    obtain ⟨method, _, hmethod, hs⟩ := bind_eq_ok.1 hs
    cases hmethod
    split at hs
    · obtain ⟨f, _, -, hs⟩ := bind_eq_ok.1 hs
      obtain ⟨r, _, hr, hs⟩ := bind_eq_ok.1 hs
      cases hs
      exact brace_members hr
    · obtain ⟨p, _, -, hs⟩ := bind_eq_ok.1 hs
      obtain ⟨comma, _, -, hs⟩ := bind_eq_ok.1 hs
      split at hs
      · obtain ⟨r, _, hr, hs⟩ := bind_eq_ok.1 hs
        cases hs
        exact brace_members hr
      · obtain ⟨u, _, -, hs⟩ := bind_eq_ok.1 hs
        obtain ⟨r, _, hr, hs⟩ := bind_eq_ok.1 hs
        cases hs
        exact brace_members hr

theorem expect_of_eq {k : Kind} {s : Stream} (h : s.current.kind = k) :
    expect k s = .ok (s.current, s.next) := by
  rw [expect, bind_apply]
  show (if (s.current.kind == k) = true then advance else fail _) s = _
  rw [if_pos (beq_iff_eq.2 h)]
  rfl

theorem expect_of_ne {k : Kind} {s : Stream} (h : s.current.kind ≠ k) :
    expect k s = .error (.parse (.expected k s.current) s.current s.index) := by
  rw [expect, bind_apply]
  show (if (s.current.kind == k) = true then advance else fail _) s = _
  rw [if_neg fun hk => h (eq_of_beq hk)]
  rfl

/-- The token that is passed behind the members of a struct is the closing brace. -/
theorem structDecl_eq (rules : Rules) (n : Nat) : structDecl rules n = do
    let first ← advance
    let name ← expectName
    let _ ← expect .lbrace
    let (fields, methods) ← members rules n
    let _ ← expect .rbrace
    return .struct (← spanFrom first.span) name fields methods := by
  have hbrace {γ : Type} (f : List Param × List FunctionDecl → Token → Parser γ) :
      (members rules n >>= fun r => advance >>= f r) =
        members rules n >>= fun r => expect .rbrace >>= f r := by
    funext s
    rw [bind_apply, bind_apply]
    cases hs : members rules n s with
    | error e => rfl
    | ok r =>
      show (advance >>= f r.1) r.2 = (expect .rbrace >>= f r.1) r.2
      rw [bind_apply, bind_apply]
      rw [expect_of_eq (brace_members hs)]
      rfl
  rw [structDecl]
  congr 1
  funext first
  congr 1
  funext name
  congr 1
  funext t
  exact hbrace fun r _ => spanFrom first.span >>= fun sp => pure (Stmt.struct sp name r.1 r.2)

end Parser

end ScriptLang
