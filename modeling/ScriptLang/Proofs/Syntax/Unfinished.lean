import ScriptLang.Proofs.Syntax.Ensured
import ScriptLang.Proofs.Syntax.Steps

/-!
# Reading what is not finished

What the parser makes of the first tokens of a program that it reads. Two readers are followed, one
on all tokens and one on a stream that is *cut* after some of them. As long as the second one has
not got to the end of its tokens, both see the same, also where they look at two tokens. Once it is
there, no rule takes it anywhere else: the second reader succeeds without going on, or it fails at
the end.

The readers are given different bounds on the depth of trees and the length of lists. The bound that
a stream starts with is enough for its tokens, so that both do the same on the same tokens
(`Rules.steps_ofDepth`): every rule that calls another one without passing a token takes one from the
depth, at most three such rules follow one another, and four are counted for each token.
-/

namespace ScriptLang

namespace Stream

/-- Whether a stream is at its end, with `N` tokens before it. -/
structure Ended (N : Nat) (c : Stream) : Prop where
  /-- It is before the token for the end. -/
  current : c.current.kind = .eof
  /-- No token follows. -/
  rest : c.rest = []
  /-- All others were passed. -/
  index : c.index = N

/-- Whether a stream `c` is a stream `s` that is cut after `N` tokens, of which not all were
passed. -/
structure Cuts (N : Nat) (s c : Stream) : Prop where
  /-- Both are before the same token. -/
  current : c.current = s.current
  /-- As many tokens were passed. -/
  index : c.index = s.index
  /-- The last of them is the same. -/
  last : c.last = s.last
  /-- This is not the end. -/
  going : c.current.kind ≠ .eof
  /-- The same tokens follow up to the end of the second one. -/
  rest : ∃ ts more stop, s.rest = ts ++ more ∧ c.rest = ts ++ [stop] ∧ stop.kind = .eof ∧
    ∀ t ∈ ts, t.kind ≠ .eof
  /-- The end is where it should be. -/
  size : c.index + c.rest.length = N

variable {N : Nat} {s c : Stream}

theorem Ended.closed (h : c.Ended N) : c.Closed :=
  ⟨[], c.current, by rw [h.rest, List.nil_append], h.current⟩

theorem Ended.size (h : c.Ended N) : c.size = 1 := by
  rw [Stream.size, h.rest]
  rfl

/-- Before the last step the second token is the one for the end. -/
theorem Ended.second (h : c.next.Ended N) : c.second = .eof := by
  obtain ⟨current, rest, index, last⟩ := c
  cases rest with
  | nil => rfl
  | cons t ts => exact h.current

theorem Cuts.closed (h : s.Cuts N c) : c.Closed := by
  obtain ⟨ts, more, stop, -, hrest, hstop, -⟩ := h.rest
  exact ⟨c.current :: ts, stop, by rw [hrest, List.cons_append], hstop⟩

theorem Cuts.two_le_size (h : s.Cuts N c) : 2 ≤ c.size := by
  obtain ⟨ts, more, stop, -, hrest, -⟩ := h.rest
  rw [Stream.size, hrest, List.length_append]
  exact Nat.succ_le_succ (Nat.succ_pos _)

/-- A step takes both streams on, or it takes the second one to its end. -/
theorem Cuts.next (h : s.Cuts N c) :
    (s.next.Cuts N c.next ∧ s.second = c.second) ∨ c.next.Ended N := by
  obtain ⟨ts, more, stop, hs, hc, hstop, hts⟩ := h.rest
  obtain ⟨current, rest, index, last⟩ := s
  obtain ⟨current', rest', index', last'⟩ := c
  have hcurrent := h.current
  have hindex := h.index
  have hsize := h.size
  dsimp only at hs hc hcurrent hindex hsize
  subst hs hc hcurrent hindex
  cases ts with
  | nil => exact .inr ⟨hstop, rfl, hsize⟩
  | cons t ts =>
    refine .inl ⟨⟨rfl, rfl, rfl, hts t List.mem_cons_self, ?_, ?_⟩, rfl⟩
    · exact ⟨ts, more, stop, rfl, rfl, hstop, fun u hu => hts u (List.mem_cons_of_mem _ hu)⟩
    · rw [← hsize]
      simp only [Stream.next, List.cons_append, List.length_cons]
      omega

end Stream

/-- Whether an error is about the end, behind `N` tokens. -/
structure SyntaxError.StopsAt (N : Nat) (e : SyntaxError) : Prop where
  /-- More text could help. -/
  incomplete : e.incomplete = true
  /-- All tokens were read. -/
  index : e.index? = some N

namespace Parser

variable {α β : Type} {N : Nat}

/-- Whether a reader got to the end. -/
def EndsAt (N : Nat) : Except SyntaxError (α × Stream) → Prop
  | .ok (_, c) => c.Ended N
  | .error e => e.StopsAt N

/-- Whether a reader got to the end, or has read the same as another one. -/
def ResumesAt (N : Nat) (a : α) (s : Stream) (r : Except SyntaxError (α × Stream)) : Prop :=
  EndsAt N r ∨ ∃ c, r = .ok (a, c) ∧ s.Cuts N c

/-- What a reader `y` makes of a stream before the token `t` with at most `L` tokens. -/
structure TracksAt (N : Nat) (t : Token) (L L' : Nat) (x y : Parser α) : Prop where
  /-- It does the same as `x`, and at most `L'` tokens are left. -/
  steps : StepsAt t L L' x y
  /-- If the stream is cut, it gets to the end or reads the same as `x` does on all tokens. -/
  cut : ∀ ⦃s c a s'⦄, s.Cuts N c → c.current = t → c.size ≤ L → x s = .ok (a, s') →
    ResumesAt N a s' (y c)
  /-- It stays at the end. -/
  ended : ∀ ⦃c⦄, c.Ended N → c.current = t → c.size ≤ L → EndsAt N (y c)

/-- The same before every token. -/
def Tracks (N L L' : Nat) (x y : Parser α) : Prop := ∀ t, TracksAt N t L L' x y

theorem endsAt_fail {fault : Token → ParseFault} {c : Stream} (h : c.Ended N) :
    EndsAt N ((fail fault : Parser α) c) :=
  ⟨beq_iff_eq.2 h.current, congrArg some h.index⟩

theorem EndsAt.bind {L : Nat} {y : Parser α} {g : α → Parser β} {c : Stream} (h : EndsAt N (y c))
    (hlead : Leads c L (y c)) (hg : ∀ a c, c.Ended N → c.size ≤ L → EndsAt N (g a c)) :
    EndsAt N ((y >>= g) c) := by
  rw [bind_apply]
  cases hy : y c with
  | error e =>
    rw [hy] at h
    exact h
  | ok r =>
    rw [hy] at h hlead
    exact hg r.1 r.2 h hlead.2

namespace TracksAt

variable {t : Token} {L L₁ L₂ : Nat} {x y : Parser α} {f g : α → Parser β} {k : Kind}

theorem bind (hx : TracksAt N t L L₁ x y) (hf : ∀ a, Tracks N L₁ L₂ (f a) (g a)) :
    TracksAt N t L L₂ (x >>= f) (y >>= g) where
  steps := hx.steps.bind fun a t => (hf a t).steps
  cut := by
    intro s c b s' hc ht hL hb
    obtain ⟨a, s₁, ha, hb⟩ := bind_eq_ok.1 hb
    have hlead := (hx.steps hc.closed ht hL).2
    rcases hx.cut hc ht hL ha with hend | ⟨c₁, hy, hc₁⟩
    · exact .inl (hend.bind hlead fun a c hc hL => (hf a _).ended hc rfl hL)
    · rw [hy] at hlead
      rw [bind_apply, hy]
      exact (hf a _).cut hc₁ rfl hlead.2 hb
  ended := fun c hc ht hL => (hx.ended hc ht hL).bind (hx.steps hc.closed ht hL).2
    fun a c hc hL => (hf a _).ended hc rfl hL

theorem mono (h : TracksAt N t L L₁ x y) (hL : L₁ ≤ L₂) : TracksAt N t L L₂ x y :=
  ⟨h.steps.mono hL, h.cut, h.ended⟩

theorem pure {a : α} (h : L ≤ L₁) : TracksAt N t L L₁ (pure a) (pure a) where
  steps := .pure h
  cut := by
    intro s c b s' hc _ _ hb
    cases hb
    exact .inr ⟨c, rfl, hc⟩
  ended := fun c hc _ _ => hc

theorem fail {fault : Token → ParseFault} (h : ∀ t, fault t ≠ .tooDeep) :
    TracksAt N t L L₁ (fail fault : Parser α) (fail fault) :=
  ⟨.fail h, fun _ _ _ _ _ _ _ h => (nomatch h), fun _ hc _ _ => endsAt_fail hc⟩

theorem failBind {fault : Token → ParseFault} (h : ∀ t, fault t ≠ .tooDeep) :
    TracksAt N t L L₁ (Parser.fail fault >>= f) (Parser.fail fault >>= g) :=
  ⟨.failBind h, fun _ _ _ _ _ _ _ h => (nomatch h), fun c hc _ _ =>
    (endsAt_fail hc : EndsAt N ((Parser.fail fault : Parser β) c))⟩

/-- Some token is left. -/
theorem none : TracksAt N t 0 L₁ x y :=
  ⟨.none, fun _ _ _ _ _ _ h => absurd h (Nat.not_succ_le_zero _),
    fun _ _ _ h => absurd h (Nat.not_succ_le_zero _)⟩

theorem ite {p : Prop} [Decidable p] {x' y' : Parser α} (hx : p → TracksAt N t L L₁ x y)
    (hy : ¬p → TracksAt N t L L₁ x' y') :
    TracksAt N t L L₁ (if p then x else x') (if p then y else y') := by
  split
  · exact hx ‹p›
  · exact hy ‹¬p›

theorem pureBind {a : α} (h : TracksAt N t L L₁ (f a) (g a)) :
    TracksAt N t L L₁ (Pure.pure a >>= f) (Pure.pure a >>= g) := h

theorem peek {f g : Token → Parser β} (h : TracksAt N t L L₁ (f t) (g t)) :
    TracksAt N t L L₁ (peek >>= f) (peek >>= g) where
  steps := .peek h.steps
  cut := by
    rintro s c a s' hc rfl hL ha
    refine h.cut hc rfl hL ?_
    rw [hc.current]
    exact ha
  ended := by
    rintro c hc rfl hL
    exact h.ended hc rfl hL

theorem sees {f g : Bool → Parser β} (h : TracksAt N t L L₁ (f (t.kind == k)) (g (t.kind == k))) :
    TracksAt N t L L₁ (sees k >>= f) (sees k >>= g) :=
  peek (f := fun t => f (t.kind == k)) (g := fun t => g (t.kind == k)) h

theorem advance {f g : Token → Parser β} (ht : t.kind ≠ .eof) (h : Tracks N (L - 1) L₁ (f t) (g t)) :
    TracksAt N t L L₁ (advance >>= f) (advance >>= g) where
  steps := .advance ht fun t => (h t).steps
  cut := by
    rintro s c a s' hc rfl hL ha
    have hsize := (hc.closed.next ht).2
    rcases hc.next with ⟨hnext, -⟩ | hend
    · refine (h _).cut hnext rfl (by omega) ?_
      rw [hc.current]
      exact ha
    · exact .inl ((h _).ended hend rfl (by omega))
  ended := by
    rintro c hc rfl
    exact absurd hc.current ht

theorem spanFrom {first : Span} {f g : Span → Parser β} (h : ∀ sp, TracksAt N t L L₁ (f sp) (g sp)) :
    TracksAt N t L L₁ (spanFrom first >>= f) (spanFrom first >>= g) where
  steps := .spanFrom fun sp => (h sp).steps
  cut := by
    intro s c a s' hc ht hL ha
    refine (h (first.upTo c.last.span)).cut hc ht hL ?_
    rw [hc.last]
    exact ha
  ended := fun c hc ht hL => (h (first.upTo c.last.span)).ended hc ht hL

theorem skip {f g : Bool → Parser β} (hk : k ≠ .eof) (h : ∀ b, Tracks N L L₁ (f b) (g b)) :
    TracksAt N t L L₁ (skip k >>= f) (skip k >>= g) := by
  have hskip : TracksAt N t L L (Parser.skip k) (Parser.skip k) := by
    rw [Parser.skip]
    exact .sees (.ite (fun ht => .advance (Token.ne_eof_of_beq ht hk) fun _ => .pure (Nat.sub_le _ _)) fun _ =>
      .pure (Nat.le_refl _))
  exact hskip.bind fun b => h b

theorem expect {f g : Token → Parser β} (hk : k ≠ .eof) (h : ∀ t, Tracks N (L - 1) L₁ (f t) (g t)) :
    TracksAt N t L L₁ (expect k >>= f) (expect k >>= g) := by
  have hexpect : TracksAt N t L (L - 1) (Parser.expect k) (Parser.expect k) := by
    rw [Parser.expect]
    refine .sees (.ite (fun ht => ?_) fun _ => .fail fun _ => ParseFault.noConfusion)
    rw [← bind_pure Parser.advance]
    exact .advance (Token.ne_eof_of_beq ht hk) fun _ => .pure (Nat.le_refl _)
  exact hexpect.bind fun b => h b

theorem expectName {f g : Text → Parser β} (h : ∀ n, Tracks N (L - 1) L₁ (f n) (g n)) :
    TracksAt N t L L₁ (expectName >>= f) (expectName >>= g) := by
  have hname : TracksAt N t L (L - 1) Parser.expectName Parser.expectName := by
    rw [Parser.expectName]
    refine .peek (.ite (fun _ => .fail fun _ => ParseFault.noConfusion) fun _ =>
      .ite (fun ht => ?_) fun _ => .fail fun _ => ParseFault.noConfusion)
    exact .advance (Token.ne_eof_of_beq ht (by decide)) fun _ => .pure (Nat.le_refl _)
  exact hname.bind h

/-- Where a reader looks at two tokens, the second one may be the end for one of the two and
something else for the other. -/
theorem lookahead {f g : Token → Kind → Parser β} (h : ∀ k, TracksAt N t L L₁ (f t k) (g t k))
    (hlast : ∀ {s c a s'}, s.Cuts N c → c.current = t → c.size ≤ L → c.next.Ended N →
      f t s.second s = .ok (a, s') → ResumesAt N a s' (g t .eof c)) :
    TracksAt N t L L₁ (get >>= fun s => f s.current s.second)
      (get >>= fun s => g s.current s.second) where
  steps := .get fun s ht => ht ▸ (h s.second).steps
  cut := by
    intro s c a s' hc ht hL ha
    have hx : f t s.second s = .ok (a, s') := by
      rw [← ht, hc.current]
      exact ha
    have hy : (get >>= fun s => g s.current s.second) c = g t c.second c := by
      rw [← ht]
      rfl
    rw [hy]
    rcases hc.next with ⟨-, hsecond⟩ | hend
    · rw [← hsecond]
      exact (h _).cut hc ht hL hx
    · rw [hend.second]
      exact hlast hc ht hL hend hx
  ended := by
    rintro c hc rfl hL
    exact (h c.second).ended hc rfl hL

end TracksAt

/-! ### Lists, types and signatures -/

variable {L m n : Nat}

theorem tracks_commaList {close : Kind} {item item' : Parser α}
    (hitem : ∀ {K}, K ≤ L → Tracks N K (K - 1) item item') (hmn : m ≤ n) (hL : L ≤ m) :
    Tracks N L L (commaList close item n) (commaList close item' m) := fun t => by
  induction m generalizing L n t with
  | zero =>
    obtain rfl := Nat.le_zero.1 hL
    exact .none
  | succ m ih =>
    obtain ⟨n, rfl⟩ := Nat.exists_eq_succ_of_ne_zero (Nat.ne_zero_of_lt hmn)
    rw [commaList, commaList]
    refine .sees (.ite (fun _ => .pure (Nat.le_refl _)) fun _ =>
      (hitem (Nat.le_refl _) t).bind fun a t => .skip (by decide) fun b t =>
        .ite (fun _ => ?_) fun _ => .pure (by omega))
    refine (ih (fun hK => hitem (Nat.le_trans hK (Nat.sub_le _ _))) (Nat.le_of_succ_le_succ hmn)
      (by omega) t).bind fun as _ => .pure (by omega)

theorem tracks_type (hmn : m ≤ n) (hL : L ≤ m) : Tracks N L (L - 1) (type n) (type m) := fun t => by
  induction m generalizing L n t with
  | zero =>
    obtain rfl := Nat.le_zero.1 hL
    exact .none
  | succ m ih =>
    obtain ⟨n, rfl⟩ := Nat.exists_eq_succ_of_ne_zero (Nat.ne_zero_of_lt hmn)
    rw [type, type]
    refine .peek ?_
    by_cases ht : t.kind = .eof
    · rw [ht]
      exact .fail fun _ => ParseFault.noConfusion
    split
    · exact .advance ht fun _ => .pure (Nat.le_refl _)
    · exact .advance ht fun _ => .pure (Nat.le_refl _)
    · refine .advance ht fun _ => .expect (by decide) fun _ t =>
        (ih (Nat.le_of_succ_le_succ hmn) (by omega) t).bind
        fun a _ => .spanFrom fun _ => .pure (by omega)
    · exact .fail fun _ => ParseFault.noConfusion

theorem tracks_annotated (hmn : m ≤ n) (hL : L ≤ m) :
    Tracks N L L ( annotation n) ( annotation m) := fun t => by
  rw [ annotation, annotation]
  refine .skip (by decide) fun _ t => .ite (fun _ => ?_) fun _ => .pure (Nat.le_refl _)
  exact (tracks_type hmn hL t).bind fun a _ => .pure (Nat.sub_le _ _)

theorem tracks_param (hmn : m ≤ n) (hL : L ≤ m + 1) :
    Tracks N L (L - 1) (param n) (param m) := fun t => by
  rw [param, param]
  exact .expectName fun name t => (tracks_annotated hmn (by omega) t).bind fun a _ =>
    .pure (Nat.le_refl _)

end Parser

/-- The rest of a function with its name, behind its first token. -/
def Parser.namedSignature (rules : Rules) (n : Nat) (first : Token) : Parser FunctionDecl := do
  let name ← Parser.expectName
  let (params, result, body) ← Parser.signature rules n
  return ⟨← Parser.spanFrom first.span, name, params, result, body⟩

/-- How many phrases that start with the same token can be around a phrase. -/
def Phrase.around : Phrase → Nat
  | .stmt => 0
  | .expr _ => 1
  | .operand | .block | .cond => 2

/-- Readers of which the second ones follow the first ones as far as a stream that is cut goes, with
a depth of `d`. -/
structure Rules.Track (N d : Nat) (rules rules' : Rules) : Prop where
  /-- All phrases are followed where the depth is enough. -/
  phrase : ∀ (p : Phrase) {L : Nat}, 3 * L ≤ d + p.around → ∀ t, (p = .cond → t.kind ≠ .eof) →
    Parser.TracksAt N t L (L - 1) (rules p) (rules' p)
  /-- An expression that is a name before the end is read. -/
  name : ∀ {c : Stream} (least : Nat), 2 ≤ d → c.current.kind = .ident → c.next.Ended N →
    Parser.EndsAt N (rules'.expr least c)

namespace Rules.Track

open ScriptLang.Parser

variable {N d L m n : Nat} {t : Token} {rules rules' : Rules} (h : Rules.Track N d rules rules')
include h

theorem expr (least : Nat) (hL : 3 * L ≤ d + 1) :
    Tracks N L (L - 1) (rules.expr least) (rules'.expr least) :=
  fun t => h.phrase (.expr least) hL t Phrase.noConfusion

theorem operand (hL : 3 * L ≤ d + 2) : Tracks N L (L - 1) rules.operand rules'.operand :=
  fun t => h.phrase .operand hL t Phrase.noConfusion

theorem stmt (hL : 3 * L ≤ d) : Tracks N L (L - 1) rules.stmt rules'.stmt :=
  fun t => h.phrase .stmt hL t Phrase.noConfusion

theorem block (hL : 3 * L ≤ d + 2) : Tracks N L (L - 1) rules.block rules'.block :=
  fun t => h.phrase .block hL t Phrase.noConfusion

theorem signature (hmn : m ≤ n) (hm : L ≤ m + 1) (hL : 3 * L ≤ d + 3) :
    Tracks N L (L - 1) (signature rules n) (signature rules' m) := fun t => by
  rw [Parser.signature, Parser.signature]
  refine .expect (by decide) fun _ t =>
    (tracks_commaList (fun hK => tracks_param hmn (by omega)) hmn (by omega) t).bind
    fun ps t => .expect (by decide) fun _ t => (tracks_annotated hmn (by omega) t).bind fun r t => ?_
  exact (h.block (by omega) t).bind fun b _ => .pure (by omega)

/-- A function from behind the word `fn`. -/
theorem namedSignature (first : Token) (hmn : m ≤ n) (hm : L ≤ m + 1) (hL : 3 * L ≤ d + 3) :
    Tracks N L (L - 1) (namedSignature rules n first) (namedSignature rules' m first) := fun _ =>
  .expectName fun name t => (h.signature hmn (by omega) (by omega) t).bind fun f _ =>
    .spanFrom fun _ => .pure (by omega)

theorem namedFunction (ht : t.kind ≠ .eof) (hmn : m ≤ n) (hm : L ≤ m + 1) (hL : 3 * L ≤ d + 3) :
    TracksAt N t L (L - 1) (namedFunction rules n) (namedFunction rules' m) := by
  rw [Parser.namedFunction, Parser.namedFunction]
  exact .advance ht fun t' => (h.namedSignature t hmn (by omega) (by omega) t').mono (Nat.sub_le _ _)

theorem cond (ht : t.kind ≠ .eof) (hL : 3 * L ≤ d + 2) :
    TracksAt N t L (L - 1) rules.cond rules'.cond :=
  h.phrase .cond hL t fun _ => ht

/-! ### Operands -/

theorem exprs (close : Kind) (hmn : m ≤ n) (hm : L ≤ m) (hL : 3 * L ≤ d + 1) :
    Tracks N L L (commaList close (rules.expr 0) n) (commaList close (rules'.expr 0) m) :=
  tracks_commaList (fun hK => h.expr 0 (by omega)) hmn hm

theorem group (ht : t.kind ≠ .eof) (hL : 3 * L ≤ d + 3) :
    TracksAt N t L (L - 1) (group rules) (group rules') := by
  rw [Parser.group, Parser.group]
  exact .advance ht fun t => (h.expr 0 (by omega) t).bind fun e t =>
    .expect (by decide) fun _ _ => .pure (by omega)

theorem arrayLiteral (ht : t.kind ≠ .eof) (hmn : m ≤ n) (hm : L ≤ m + 1) (hL : 3 * L ≤ d + 3) :
    TracksAt N t L (L - 1) (arrayLiteral rules n) (arrayLiteral rules' m) := by
  rw [Parser.arrayLiteral, Parser.arrayLiteral]
  exact .advance ht fun t => (h.exprs .rbracket hmn (by omega) (by omega) t).bind fun es t =>
    .expect (by decide) fun _ _ => .spanFrom fun _ => .pure (by omega)

theorem entry (hL : 3 * L ≤ d + 3) : Tracks N L (L - 1) (entry rules) (entry rules') := fun t => by
  rw [Parser.entry, Parser.entry]
  refine .peek (.ite (fun ht => .advance (fun hend => ?_) fun _ => .expect (by decide) fun _ t => ?_)
    fun _ => .fail fun _ => ParseFault.noConfusion)
  · rw [hend] at ht
    exact absurd ht (by decide)
  · exact (h.expr 0 (by omega) t).bind fun e _ => .pure (by omega)

theorem objectLiteral (ht : t.kind ≠ .eof) (hmn : m ≤ n) (hm : L ≤ m + 1) (hL : 3 * L ≤ d + 3) :
    TracksAt N t L (L - 1) (objectLiteral rules n) (objectLiteral rules' m) := by
  rw [Parser.objectLiteral, Parser.objectLiteral]
  refine .advance ht fun t => (tracks_commaList (fun hK => h.entry (by omega)) hmn (by omega) t).bind
    fun es t => .expect (by decide) fun _ _ => .spanFrom fun _ => .pure (by omega)

theorem unary (ht : t.kind ≠ .eof) (hL : 3 * L ≤ d + 3) :
    TracksAt N t L (L - 1) (unary rules) (unary rules') := by
  rw [Parser.unary, Parser.unary]
  exact .advance ht fun t => (h.expr _ (by omega) t).bind fun e _ => .spanFrom fun _ => .pure (by omega)

theorem functionLiteral (ht : t.kind ≠ .eof) (hmn : m ≤ n) (hm : L ≤ m + 1) (hL : 3 * L ≤ d + 3) :
    TracksAt N t L (L - 1) (functionLiteral rules n) (functionLiteral rules' m) := by
  rw [Parser.functionLiteral, Parser.functionLiteral]
  exact .advance ht fun t => (h.signature hmn (by omega) (by omega) t).bind fun f _ =>
    .spanFrom fun _ => .pure (by omega)

omit h in
theorem property (ht : t.kind ≠ .eof) (e : Expr) : TracksAt N t L (L - 1) (property e) (property e) := by
  rw [Parser.property]
  refine .advance ht fun _ => .peek (.ite (fun ht => .advance (fun hend => ?_) fun _ => ?_)
    fun _ => .fail fun _ => ParseFault.noConfusion)
  · rw [hend] at ht
    exact absurd ht (by decide)
  · exact .spanFrom fun _ => .pure (by omega)

theorem arguments (ht : t.kind ≠ .eof) (hmn : m ≤ n) (hm : L ≤ m + 1) (hL : 3 * L ≤ d + 3) :
    TracksAt N t L (L - 1) (arguments rules n) (arguments rules' m) := by
  rw [Parser.arguments, Parser.arguments]
  exact .advance ht fun t => (h.exprs .rparen hmn (by omega) (by omega) t).bind fun es t =>
    .expect (by decide) fun _ _ => .pure (by omega)

omit h in
theorem properties (hmn : m ≤ n) (hm : L ≤ m) (e : Expr) :
    Tracks N L L (properties n e) (properties m e) := fun t => by
  induction m generalizing L n t e with
  | zero =>
    obtain rfl := Nat.le_zero.1 hm
    exact .none
  | succ m ih =>
    obtain ⟨n, rfl⟩ := Nat.exists_eq_succ_of_ne_zero (Nat.ne_zero_of_lt hmn)
    rw [Parser.properties, Parser.properties]
    refine .sees (.ite (fun ht => ?_) fun _ => .pure (Nat.le_refl _))
    exact (property (Token.ne_eof_of_beq ht (by decide)) e).bind fun e t =>
      (ih (Nat.le_of_succ_le_succ hmn) (by omega) e t).mono (Nat.sub_le _ _)

theorem construction (ht : t.kind ≠ .eof) (hmn : m ≤ n) (hm : L ≤ m + 1) (hL : 3 * L ≤ d + 3) :
    TracksAt N t L (L - 1) (construction rules n) (construction rules' m) := by
  rw [Parser.construction, Parser.construction]
  refine .advance ht fun t => .peek (.ite (fun _ => ?_) fun _ => .fail fun _ => ParseFault.noConfusion)
  refine (h.operand (by omega) t).bind fun c t => (properties hmn (by omega) c t).bind fun c t => ?_
  refine .sees (.ite (fun ht => ?_) fun _ => .fail fun _ => ParseFault.noConfusion)
  exact (h.arguments (Token.ne_eof_of_beq ht (by decide)) hmn (by omega) (by omega)).bind fun es _ =>
    .spanFrom fun _ => .spanFrom fun _ => .pure (by omega)

/-! ### Choices -/

theorem armReader (first : Span) (pattern : Option Expr) (hL : 3 * L ≤ d + 1) :
    Tracks N L L (armReader rules first pattern) (armReader rules' first pattern) := fun t => by
  refine .sees (.ite (fun _ => (h.block (by omega) t).bind fun b _ => .pureBind ?_) fun _ =>
    .peek ((h.expr 0 hL t).bind fun e _ => .spanFrom fun _ => .pureBind ?_))
  · exact .spanFrom fun _ => .pure (Nat.sub_le _ _)
  · exact .spanFrom fun _ => .pure (Nat.sub_le _ _)

/-- The rest of an arm, with the token that it starts with and the kind of the next one. -/
def armAfter (rules : Rules) (first : Token) (second : Kind) : Parser MatchArm :=
  if first.kind == .ident && first.value == "_" && second == .fatArrow then do
    let _ ← advance
    let _ ← expect .fatArrow
    ScriptLang.armReader rules first.span none
  else do
    let e ← rules.expr 0
    let _ ← expect .fatArrow
    ScriptLang.armReader rules first.span (some e)

theorem matchArm (hL : 3 * L ≤ d + 1) :
    Tracks N L (L - 1) (Parser.matchArm rules) (Parser.matchArm rules') := fun t => by
  have harrow (pattern : Option Expr) : Tracks N (L - 1) (L - 1)
      (expect .fatArrow >>= fun _ => ScriptLang.armReader rules t.span pattern)
      (expect .fatArrow >>= fun _ => ScriptLang.armReader rules' t.span pattern) := fun _ =>
    .expect (by decide) fun _ _ => (h.armReader _ _ (by omega) _).mono (by omega)
  have hexpr := (h.expr 0 hL t).bind fun e => harrow (some e)
  refine .lookahead (f := armAfter rules) (g := armAfter rules') (fun k => ?_)
    fun {s c a s'} hc ht hle hend ha => ?_
  · refine .ite (fun hwild => .advance (fun hend => ?_) (harrow none)) fun _ => hexpr
    rw [hend] at hwild
    exact Bool.false_ne_true hwild
  · unfold armAfter at ha ⊢
    rw [if_neg (by simp)]
    split at ha
    · -- what is the word `_` before an arrow in the one stream is a name before the end in the other one
      next hwild =>
      have hkind : c.current.kind = .ident := by
        rw [ht]
        simp only [Bool.and_eq_true, beq_iff_eq] at hwild
        exact hwild.1.1
      have hsize := hc.two_le_size
      exact .inl ((h.name 0 (by omega) hkind hend).bind ((h.expr 0 hL _).steps hc.closed rfl hle).2
        fun e c hc hle => (harrow (some e) _).ended hc rfl hle)
    · exact hexpr.cut hc ht hle ha

theorem matchArms (hmn : m ≤ n) (hm : L ≤ m) (hL : 3 * L ≤ d + 1) :
    Tracks N L L (matchArms rules n) (matchArms rules' m) := fun t => by
  induction m generalizing L n t with
  | zero =>
    obtain rfl := Nat.le_zero.1 hm
    exact .none
  | succ m ih =>
    obtain ⟨n, rfl⟩ := Nat.exists_eq_succ_of_ne_zero (Nat.ne_zero_of_lt hmn)
    rw [Parser.matchArms, Parser.matchArms]
    refine .sees (.ite (fun _ => .pure (Nat.le_refl _)) fun _ => (h.matchArm hL t).bind fun a t =>
      .skip (by decide) fun b t => .ite (fun _ => ?_) fun _ => .pure (Nat.sub_le _ _))
    exact (ih (Nat.le_of_succ_le_succ hmn) (by omega) (by omega) t).bind fun as _ => .pure (Nat.sub_le _ _)

theorem choice (ht : t.kind ≠ .eof) (hmn : m ≤ n) (hm : L ≤ m + 1) (hL : 3 * L ≤ d + 3) :
    TracksAt N t L (L - 1) (choice rules n) (choice rules' m) := by
  rw [Parser.choice, Parser.choice]
  exact .advance ht fun t => (h.expr 0 (by omega) t).bind fun e t => .expect (by decide) fun _ t =>
    (h.matchArms hmn (by omega) (by omega) t).bind fun as t => .expect (by decide) fun _ _ =>
      .spanFrom fun _ => .pure (by omega)

/-! ### Expressions -/

theorem operandRule (hmn : m ≤ n) (hm : L ≤ m + 1) (hL : 3 * L ≤ d + 3) :
    Tracks N L (L - 1) (Parser.operand rules n) (Parser.operand rules' m) := fun t => by
  rw [Parser.operand, Parser.operand]
  refine .peek ?_
  by_cases ht : t.kind = .eof
  · rw [ht]
    exact .fail fun _ => ParseFault.noConfusion
  split
  · rw [numberLiteral]
    refine .peek ?_
    split
    · exact .advance ht fun _ => .pure (Nat.le_refl _)
    · exact .fail fun _ => ParseFault.noConfusion
  · exact .advance ht fun _ => .pure (Nat.le_refl _)
  · exact .advance ht fun _ => .pure (Nat.le_refl _)
  · exact .advance ht fun _ => .pure (Nat.le_refl _)
  · exact .advance ht fun _ => .pure (Nat.le_refl _)
  · exact .advance ht fun _ => .pure (Nat.le_refl _)
  · exact h.group ht hL
  · exact h.arrayLiteral ht hmn hm hL
  · exact h.objectLiteral ht hmn hm hL
  · exact h.unary ht hL
  · exact h.unary ht hL
  · exact h.unary ht hL
  · exact h.unary ht hL
  · exact h.functionLiteral ht hmn hm hL
  · exact (h.choice ht hmn hm hL).bind fun m _ => .pure (Nat.le_refl _)
  · exact h.construction ht hmn hm hL
  · exact .fail fun _ => ParseFault.noConfusion

theorem extend (ht : t.kind ≠ .eof) (hmn : m ≤ n) (hm : L ≤ m + 1) (hL : 3 * L ≤ d + 3) (right : Nat)
    (left : Expr) :
    TracksAt N t L (L - 1) (extend rules n right left) (extend rules' m right left) := by
  rw [Parser.extend, Parser.extend]
  refine .peek ?_
  split
  · exact (h.arguments ht hmn hm hL).bind fun es _ => .spanFrom fun _ => .pure (Nat.le_refl _)
  · exact .advance ht fun t => (h.expr 0 (by omega) t).bind fun e t => .expect (by decide) fun _ _ =>
      .spanFrom fun _ => .pure (by omega)
  · exact property ht left
  · exact .advance ht fun _ => .spanFrom fun _ => .pure (Nat.le_refl _)
  · exact .advance ht fun _ => .spanFrom fun _ => .pure (Nat.le_refl _)
  · exact .advance ht fun t => (h.expr right (by omega) t).bind fun e _ =>
      .spanFrom fun _ => .pure (by omega)
  · refine .advance ht fun t => (h.expr right (by omega) t).bind fun e _ => .ite (fun _ => ?_) fun _ => ?_
    · exact .spanFrom fun _ => .pure (by omega)
    · exact .spanFrom fun _ => .pure (by omega)

theorem climb (least : Nat) (hmn : m ≤ n) (hm : L ≤ m) (hL : 3 * L ≤ d + 3) (left : Expr) :
    Tracks N L L (climb rules least n left) (climb rules' least m left) := fun t => by
  induction m generalizing L n t left with
  | zero =>
    obtain rfl := Nat.le_zero.1 hm
    exact .none
  | succ m ih =>
    obtain ⟨n, rfl⟩ := Nat.exists_eq_succ_of_ne_zero (Nat.ne_zero_of_lt hmn)
    have hmn := Nat.le_of_succ_le_succ hmn
    rw [Parser.climb, Parser.climb]
    refine .peek ?_
    split
    · exact .pure (Nat.le_refl _)
    · next hpower =>
      have ht : t.kind ≠ .eof := fun hend => by
        rw [hend] at hpower
        cases hpower
      refine .ite (fun _ => .pure (Nat.le_refl _)) fun _ => ?_
      exact (h.extend ht hmn hm hL _ left).bind fun e t =>
        (ih hmn (by omega) (by omega) e t).mono (Nat.sub_le _ _)

/-! ### Statements -/

theorem statements (hmn : m ≤ n) (hm : L ≤ m) (hL : 3 * L ≤ d) :
    Tracks N L L (statements rules n) (statements rules' m) := fun t => by
  induction m generalizing L n t with
  | zero =>
    obtain rfl := Nat.le_zero.1 hm
    exact .none
  | succ m ih =>
    obtain ⟨n, rfl⟩ := Nat.exists_eq_succ_of_ne_zero (Nat.ne_zero_of_lt hmn)
    rw [Parser.statements, Parser.statements]
    refine .skip (by decide) fun _ t => .ite (fun _ => .pure (Nat.le_refl _)) fun _ =>
      .sees (.ite (fun _ => .fail fun _ => ParseFault.noConfusion) fun _ => (h.stmt hL t).bind fun s t => ?_)
    exact (ih (Nat.le_of_succ_le_succ hmn) (by omega) (by omega) t).bind fun ss _ => .pure (Nat.sub_le _ _)

theorem blockRule (hmn : m ≤ n) (hm : L ≤ m + 1) (hL : 3 * L ≤ d + 3) :
    Tracks N L (L - 1) (Parser.block rules n) (Parser.block rules' m) := fun t => by
  rw [Parser.block, Parser.block]
  exact .expect (by decide) fun _ t => (h.statements hmn (by omega) (by omega) t).bind fun ss _ =>
    .spanFrom fun _ => .pure (Nat.le_refl _)

theorem exprStmt (hL : 3 * L ≤ d + 1) :
    Tracks N L (L - 1) (exprStmt rules) (exprStmt rules') := fun t => by
  rw [Parser.exprStmt, Parser.exprStmt]
  exact .peek ((h.expr 0 hL t).bind fun e t =>
    .expect (by decide) fun _ _ => .spanFrom fun _ => .pure (by omega))

theorem declaration (ht : t.kind ≠ .eof) (hmn : m ≤ n) (hm : L ≤ m + 1) (hL : 3 * L ≤ d + 3) :
    TracksAt N t L (L - 1) (declaration rules n) (declaration rules' m) := by
  rw [Parser.declaration, Parser.declaration]
  refine .advance ht fun _ => .expectName fun name t => (tracks_annotated hmn (by omega) t).bind
    fun a t => .skip (by decide) fun _ t =>
      .ite (fun _ => (h.expr 0 (by omega) t).bind fun e _ => .pureBind ?_)
    fun _ => .pureBind ?_
  · exact .expect (by decide) fun _ _ => .spanFrom fun _ => .pure (by omega)
  · exact .expect (by decide) fun _ _ => .spanFrom fun _ => .pure (by omega)

theorem condRule (ht : t.kind ≠ .eof) (hL : 3 * L ≤ d + 3) :
    TracksAt N t L (L - 1) (Parser.cond rules) (Parser.cond rules') := by
  rw [Parser.cond, Parser.cond]
  refine .advance ht fun t => (h.expr 0 (by omega) t).bind fun e t => (h.block (by omega) t).bind fun b t =>
    .skip (by decide) fun _ t => .ite (fun _ => .sees (.ite (fun ht => ?_) fun _ => ?_)) fun _ => .pureBind ?_
  · exact (h.cond (Token.ne_eof_of_beq ht (by decide)) (by omega)).bind fun c _ =>
      .pureBind (.spanFrom fun _ => .pure (by omega))
  · exact (h.block (by omega) t).bind fun b _ => .pureBind (.spanFrom fun _ => .pure (by omega))
  · exact .spanFrom fun _ => .pure (by omega)

omit h in
theorem importStmt (ht : t.kind ≠ .eof) : TracksAt N t L (L - 1) importStmt importStmt := by
  have hpath (K : Nat) (hK : K ≤ L - 1) (first : Span) (name : Text) (wildcard : Bool) :
      Tracks N K (L - 1) (RereadStmt.pathReader first name wildcard)
        (RereadStmt.pathReader first name wildcard) := fun t => by
    refine .skip (by decide) fun _ t => .ite (fun _ => .expect (by decide) fun _ _ => .pureBind ?_)
      fun _ => .ite
      (fun _ => .failBind fun _ => ParseFault.noConfusion) fun _ => .pureBind ?_
    · exact .expect (by decide) fun _ _ => .spanFrom fun _ => .pure (by omega)
    · exact .expect (by decide) fun _ _ => .spanFrom fun _ => .pure (by omega)
  rw [Parser.importStmt]
  refine .advance ht fun t' => .skip (by decide) fun wildcard t' => ?_
  cases wildcard with
  | true => exact .pureBind (hpath _ (Nat.le_refl _) t.span [] true t')
  | false => exact .expectName fun name => hpath _ (Nat.sub_le _ _) t.span name false

theorem foreachStmt (ht : t.kind ≠ .eof) (hL : 3 * L ≤ d + 3) :
    TracksAt N t L (L - 1) (foreachStmt rules) (foreachStmt rules') := by
  have htail {K : Nat} (hK : K ≤ L - 1) {first : Span} {value index : Text} :
      Tracks N K (L - 1)
        (do
          let _ ← expect .kwIn
          let iterable ← rules.expr 0
          let body ← rules.block
          return Stmt.foreachLoop (← spanFrom first) value index iterable body)
        (do
          let _ ← expect .kwIn
          let iterable ← rules'.expr 0
          let body ← rules'.block
          return Stmt.foreachLoop (← spanFrom first) value index iterable body) := fun t =>
    .expect (by decide) fun _ t => (h.expr 0 (by omega) t).bind fun e t =>
      (h.block (by omega) t).bind fun b _ =>
      .spanFrom fun _ => .pure (by omega)
  rw [Parser.foreachStmt, Parser.foreachStmt]
  refine .advance ht fun _ => .expectName fun value _ => .skip (by decide) fun _ t' => .ite (fun _ => ?_)
    fun _ => .pureBind (htail (by omega) t')
  exact .expectName fun index => htail (by omega)

theorem whileStmt (ht : t.kind ≠ .eof) (hL : 3 * L ≤ d + 3) :
    TracksAt N t L (L - 1) (whileStmt rules) (whileStmt rules') := by
  rw [Parser.whileStmt, Parser.whileStmt]
  exact .advance ht fun t => (h.expr 0 (by omega) t).bind fun e t => (h.block (by omega) t).bind fun b _ =>
    .spanFrom fun _ => .pure (by omega)

theorem members (hmn : m ≤ n) (hm : L ≤ m) (hL : 3 * L ≤ d + 3) :
    Tracks N L L (members rules n) (members rules' m) := fun t => by
  induction m generalizing L n t with
  | zero =>
    obtain rfl := Nat.le_zero.1 hm
    exact .none
  | succ m ih =>
    obtain ⟨n, rfl⟩ := Nat.exists_eq_succ_of_ne_zero (Nat.ne_zero_of_lt hmn)
    have hmn := Nat.le_of_succ_le_succ hmn
    have hfield {K : Nat} (hK : K ≤ L - 1) (p : Param) :
        Tracks N K L (Parser.members rules n >>= fun r => pure (p :: r.1, r.2))
          (Parser.members rules' m >>= fun r => pure (p :: r.1, r.2)) := fun t =>
      (ih hmn (by omega) (by omega) t).bind fun r _ => .pure (by omega)
    rw [Parser.members, Parser.members]
    refine .sees (.ite (fun _ => .pure (Nat.le_refl _)) fun _ => .sees (.ite (fun ht => ?_) fun _ => ?_))
    · refine (h.namedFunction (Token.ne_eof_of_beq ht (by decide)) hmn hm hL).bind fun f t => ?_
      exact (ih hmn (by omega) (by omega) t).bind fun r _ => .pure (by omega)
    · refine (tracks_param hmn hm t).bind fun p _ => .skip (by decide) fun _ t =>
        .ite (fun _ => hfield (Nat.le_refl _) p t) fun _ => ?_
      exact .expect (by decide) fun _ => hfield (Nat.sub_le _ _) p

theorem structDecl (ht : t.kind ≠ .eof) (hmn : m ≤ n) (hm : L ≤ m + 1) (hL : 3 * L ≤ d + 3) :
    TracksAt N t L (L - 1) (structDecl rules n) (structDecl rules' m) := by
  rw [structDecl_eq, structDecl_eq]
  exact .advance ht fun _ => .expectName fun name _ => .expect (by decide) fun _ t =>
    (h.members hmn (by omega) (by omega) t).bind fun r _ => .expect (by decide) fun _ _ => .spanFrom fun _ =>
      .pure (by omega)

omit h in
theorem enumDecl (ht : t.kind ≠ .eof) (hmn : m ≤ n) (hm : L ≤ m + 1) :
    TracksAt N t L (L - 1) (enumDecl n) (enumDecl m) := by
  have hname {K : Nat} : Tracks N K (K - 1) expectName expectName := fun t => by
    have : TracksAt N t K (K - 1) (expectName >>= fun n => pure n) (expectName >>= fun n => pure n) :=
      .expectName fun n _ => .pure (Nat.le_refl _)
    rwa [bind_pure] at this
  rw [Parser.enumDecl, Parser.enumDecl]
  exact .advance ht fun _ => .expectName fun name _ => .expect (by decide) fun _ t =>
    (tracks_commaList (fun _ => hname) hmn (by omega) t).bind fun ms _ => .expect (by decide) fun _ _ =>
      .spanFrom fun _ => .pure (by omega)

theorem chooseStmt (ht : t.kind ≠ .eof) (hmn : m ≤ n) (hm : L ≤ m + 1) (hL : 3 * L ≤ d + 3) :
    TracksAt N t L (L - 1) (chooseStmt rules n) (chooseStmt rules' m) := by
  rw [Parser.chooseStmt, Parser.chooseStmt]
  exact .peek ((h.choice ht hmn hm hL).bind fun m _ => .skip (by decide) fun _ _ => .spanFrom fun _ =>
    .pure (Nat.le_refl _))

theorem returnStmt (ht : t.kind ≠ .eof) (hL : 3 * L ≤ d + 3) :
    TracksAt N t L (L - 1) (returnStmt rules) (returnStmt rules') := by
  rw [Parser.returnStmt, Parser.returnStmt]
  refine .advance ht fun t => .sees (.ite (fun _ => .pureBind ?_) fun _ =>
    (h.expr 0 (by omega) t).bind fun e _ => .pureBind ?_)
  · exact .expect (by decide) fun _ _ => .spanFrom fun _ => .pure (by omega)
  · exact .expect (by decide) fun _ _ => .spanFrom fun _ => .pure (by omega)

omit h in
theorem wordStmt (ht : t.kind ≠ .eof) (make : Span → Stmt) :
    TracksAt N t L (L - 1) (wordStmt make) (wordStmt make) := by
  rw [Parser.wordStmt]
  exact .advance ht fun _ => .expect (by decide) fun _ _ => .spanFrom fun _ => .pure (by omega)

/-- A statement that starts with the word `fn`, with the kind of the next token. -/
def functionAfter (rules : Rules) (n : Nat) (second : Kind) : Parser Stmt :=
  if second == .lparen then Parser.exprStmt rules
  else do return .function (← Parser.namedFunction rules n)

theorem statement (hmn : m ≤ n) (hm : L ≤ m + 1) (hL : 3 * L ≤ d + 1) :
    Tracks N L (L - 1) (statement rules n) (statement rules' m) := fun t => by
  have hL' : 3 * L ≤ d + 3 := by omega
  rw [Parser.statement, Parser.statement]
  refine .peek ?_
  by_cases ht : t.kind = .eof
  · rw [ht]
    exact h.exprStmt hL t
  have hnamed := h.namedFunction ht hmn hm hL'
  split
  · exact (h.block (by omega) t).bind fun b _ => .pure (Nat.le_refl _)
  · exact h.declaration ht hmn hm hL'
  · exact h.declaration ht hmn hm hL'
  · refine .lookahead (f := fun _ => functionAfter rules n) (g := fun _ => functionAfter rules' m)
      (fun k => .ite (fun _ => h.exprStmt hL t) fun _ => hnamed.bind fun f _ => .pure (Nat.le_refl _))
      fun {s c a s'} hc ht hle hend ha => ?_
    -- the word `fn` and nothing behind it is taken for the start of a declaration
    have hends : EndsAt N (Parser.namedFunction rules' m c) :=
      (h.namedSignature c.current hmn hm hL' _).ended hend rfl
        (by rw [hend.size]; exact Nat.le_trans (Nat.le_of_succ_le hc.two_le_size) hle)
    exact .inl (hends.bind (hnamed.steps hc.closed ht hle).2 fun _ _ hc _ => hc)
  · exact (h.cond ht (by omega)).bind fun c _ => .pure (Nat.le_refl _)
  · exact importStmt ht
  · exact h.foreachStmt ht hL'
  · exact h.whileStmt ht hL'
  · exact h.structDecl ht hmn hm hL'
  · exact enumDecl ht hmn hm
  · exact h.chooseStmt ht hmn hm hL'
  · exact wordStmt ht _
  · exact wordStmt ht _
  · exact h.returnStmt ht hL'
  · exact h.exprStmt hL t

end Rules.Track

/-! ### Programs -/

open ScriptLang.Parser

variable {N d L m n : Nat}

theorem Rules.track_ofDepth (hdn : d ≤ n) : Rules.Track N d (Rules.ofDepth n) (Rules.ofDepth d) := by
  induction d generalizing n with
  | zero =>
    refine ⟨fun p {L} hL t _ => ?_, fun _ h => absurd h (by omega)⟩
    obtain rfl : L = 0 := by
      cases p <;> simp only [Phrase.around] at hL <;> omega
    exact .none
  | succ d ih =>
    obtain ⟨n, rfl⟩ := Nat.exists_eq_succ_of_ne_zero (Nat.ne_zero_of_lt hdn)
    have hdn := Nat.le_of_succ_le_succ hdn
    have h := ih hdn
    refine ⟨fun p {L} hL t ht => ?_, fun {c} least hd hkind hend => ?_⟩
    · cases p with
      | expr least =>
        simp only [Phrase.around] at hL
        refine (h.operand (by omega) t).bind fun e => ?_
        exact h.climb least hdn (by omega) (by omega) e
      | operand =>
        simp only [Phrase.around] at hL
        exact h.operandRule hdn (by omega) (by omega) t
      | stmt =>
        simp only [Phrase.around] at hL
        exact h.statement hdn (by omega) (by omega) t
      | block =>
        simp only [Phrase.around] at hL
        exact h.blockRule hdn (by omega) (by omega) t
      | cond =>
        simp only [Phrase.around] at hL
        exact h.condRule (ht rfl) (by omega)
    · obtain ⟨d, rfl⟩ := Nat.exists_eq_succ_of_ne_zero (Nat.ne_zero_of_lt (Nat.le_of_succ_le_succ hd))
      have hoperand : (Rules.ofDepth (d + 1)).operand c =
          .ok (.ident c.current.span c.current.value, c.next) := by
        show Parser.operand (Rules.ofDepth d) d c = _
        unfold Parser.operand
        rw [bind_apply]
        dsimp only [Parser.peek, Except.bind]
        rw [hkind]
        rfl
      show EndsAt N (((Rules.ofDepth (d + 1)).operand >>= climb _ least (d + 1)) c)
      rw [bind_apply, hoperand]
      dsimp only [Except.bind]
      unfold Parser.climb
      rw [bind_apply]
      dsimp only [Parser.peek, Except.bind]
      rw [hend.current]
      exact hend

/-- The depth makes no difference to what is read where it is enough, and there is no failure for it. -/
theorem Rules.steps_ofDepth (hdn : d ≤ n) {p : Phrase} (hL : 3 * L ≤ d + p.around) {t : Token}
    (ht : p = .cond → t.kind ≠ .eof) : StepsAt t L (L - 1) (Rules.ofDepth n p) (Rules.ofDepth d p) :=
  ((Rules.track_ofDepth (N := 0) hdn).phrase p hL t ht).steps

theorem tracks_program {rules rules' : Rules} (h : Rules.Track N d rules rules') (hmn : m ≤ n)
    (hm : L ≤ m) (hL : 3 * L ≤ d) :
    Tracks N L L (Parser.program rules n) (Parser.program rules' m) := fun t => by
  induction m generalizing L n t with
  | zero =>
    obtain rfl := Nat.le_zero.1 hm
    exact .none
  | succ m ih =>
    obtain ⟨n, rfl⟩ := Nat.exists_eq_succ_of_ne_zero (Nat.ne_zero_of_lt hmn)
    rw [Parser.program, Parser.program]
    refine .sees (.ite (fun _ => .pure (Nat.le_refl _)) fun _ => (h.stmt hL t).bind fun s t => ?_)
    exact (ih (Nat.le_of_succ_le_succ hmn) (by omega) (by omega) t).bind fun ss _ =>
      .pure (Nat.sub_le _ _)

theorem tracks_programReader (hdn : d ≤ n) (hL : 3 * L ≤ d) :
    Tracks N L L (programReader n) (programReader d) := fun t =>
  .peek ((tracks_program (Rules.track_ofDepth hdn) hdn (by omega) hL t).bind fun _ _ =>
    .peek (.pure (Nat.le_refl _)))

/-- A list of tokens has its end where the stream has it, or it gets one. -/
theorem Stream.ofTokens_append {ts : List Token} (us : List Token) (hts : ∀ t ∈ ts, t.kind ≠ .eof) :
    ∃ u us', Stream.ofTokens (ts ++ us) = match ts with
      | [] => { current := u, rest := us' }
      | t :: ts => { current := t, rest := ts ++ u :: us' } := by
  have hclosed : ∃ u us', (if ((ts ++ us).getLast?.map Token.kind) = some .eof then ts ++ us
      else ts ++ us ++ [⟨.eof, [], {}⟩]) = ts ++ u :: us' := by
    split
    · next hlast =>
      cases us with
      | nil =>
        rw [List.append_nil] at hlast
        obtain ⟨t, ht, hkind⟩ := Option.map_eq_some_iff.1 hlast
        exact absurd hkind (hts t (List.mem_of_getLast? ht))
      | cons u us => exact ⟨u, us, rfl⟩
    · cases us with
      | nil => exact ⟨⟨.eof, [], {}⟩, [], by rw [List.append_nil]⟩
      | cons u us => exact ⟨u, us ++ [⟨.eof, [], {}⟩], List.append_assoc _ _ _⟩
  obtain ⟨u, us', hclosed⟩ := hclosed
  refine ⟨u, us', ?_⟩
  unfold Stream.ofTokens
  rw [hclosed]
  cases ts with
  | nil => rfl
  | cons t ts => rfl

theorem Stream.ofTokens_stop {ts : List Token} {stop : Token} (hstop : stop.kind = .eof) :
    Stream.ofTokens (ts ++ [stop]) = match ts with
      | [] => { current := stop, rest := [] }
      | t :: ts => { current := t, rest := ts ++ [stop] } := by
  unfold Stream.ofTokens
  rw [if_pos (by rw [List.getLast?_concat, Option.map_some, hstop])]
  cases ts with
  | nil => rfl
  | cons t ts => rfl

/-- A program that is cut after some of its tokens is a program, or it is not finished: reading
fails, if it fails, at the end. -/
theorem Program.endsAt_ofTokens {ts us : List Token} {stop : Token} {b : Block}
    (hts : ∀ t ∈ ts, t.kind ≠ .eof) (hstop : stop.kind = .eof)
    (h : Program.ofTokens (ts ++ us) = .ok b) {e : SyntaxError}
    (he : Program.ofTokens (ts ++ [stop]) = .error e) : e.StopsAt ts.length := by
  obtain ⟨s', hb⟩ := Program.ofTokens_eq_ok.1 h
  have hends : ∀ r, programReader (Stream.ofTokens (ts ++ [stop])).depth
      (Stream.ofTokens (ts ++ [stop])) = r → ResumesAt ts.length b s' r := by
    rintro _ rfl
    obtain ⟨u, us', hfull⟩ := Stream.ofTokens_append us hts
    rw [hfull] at hb
    rw [Stream.ofTokens_stop hstop]
    cases ts with
    | nil =>
      have hended : Stream.Ended 0 { current := stop, rest := [] } := ⟨hstop, rfl, rfl⟩
      have hdepth : 3 * 1 ≤ Stream.depth { current := stop, rest := [] } := Nat.le_of_ble_eq_true rfl
      exact .inl ((tracks_programReader (Nat.le_refl _) hdepth _).ended hended rfl (Nat.le_of_eq hended.size))
    | cons t ts =>
      have hcuts : Stream.Cuts (ts.length + 1) { current := t, rest := ts ++ u :: us' }
          { current := t, rest := ts ++ [stop] } :=
        ⟨rfl, rfl, rfl, hts t List.mem_cons_self, ⟨ts, u :: us', stop, rfl, rfl, hstop,
          fun v hv => hts v (List.mem_cons_of_mem _ hv)⟩, by simp⟩
      refine (tracks_programReader (L := ts.length + 2) ?_ ?_ _).cut hcuts rfl (by simp [Stream.size]) hb
      · simp only [Stream.depth, List.length_append, List.length_cons, List.length_nil]
        omega
      · simp only [Stream.depth, List.length_append, List.length_cons, List.length_nil]
        omega
  have he : (programReader (Stream.ofTokens (ts ++ [stop])).depth
      (Stream.ofTokens (ts ++ [stop]))).map Prod.fst = .error e := he
  cases hr : programReader (Stream.ofTokens (ts ++ [stop])).depth (Stream.ofTokens (ts ++ [stop])) with
  | ok r =>
    rw [hr] at he
    cases he
  | error e' =>
    rw [hr] at he
    cases he
    rcases hends _ hr with hend | ⟨c, hc, -⟩
    · exact hend
    · cases hc

/-- Every beginning of a program, with the end behind it, is a program or is reported as unfinished:
the error is about the end, and more text could help. -/
theorem Program.unfinished_of_isPrefix {tokens cut : List Token} {stop : Token} {b : Block}
    (htokens : ∀ t ∈ tokens, t.kind ≠ .eof) (hb : Program.ofTokens tokens = .ok b)
    (hcut : cut <+: tokens) (hstop : stop.kind = .eof) :
    (∃ b', Program.ofTokens (cut ++ [stop]) = .ok b') ∨
      ∃ e, Program.ofTokens (cut ++ [stop]) = .error e ∧ e.incomplete = true ∧
        e.index? = some cut.length := by
  obtain ⟨rest, rfl⟩ := hcut
  have hkinds : ∀ t ∈ cut, t.kind ≠ .eof := fun t ht => htokens t (List.mem_append_left _ ht)
  cases he : Program.ofTokens (cut ++ [stop]) with
  | ok b' => exact .inl ⟨b', rfl⟩
  | error e =>
    have hstops := Program.endsAt_ofTokens hkinds hstop hb he
    exact .inr ⟨e, rfl, hstops.incomplete, hstops.index⟩

/-- A declaration without its semicolon is an unfinished program. -/
theorem Program.unfinished_declaration :
    ∃ e, Program.ofTokens ([⟨.kwLet, "let", {}⟩, ⟨.ident, "x", {}⟩] ++ [⟨.eof, [], {}⟩]) = .error e ∧
      e.incomplete = true ∧ e.index? = some 2 := by
  have htokens : ∀ t ∈ [⟨.kwLet, "let", {}⟩, ⟨.ident, "x", {}⟩, ⟨.semicolon, ";", {}⟩],
      (t : Token).kind ≠ .eof := by decide
  obtain ⟨b, hb⟩ : ∃ b, Program.ofTokens [⟨.kwLet, "let", {}⟩, ⟨.ident, "x", {}⟩,
      ⟨.semicolon, ";", {}⟩] = .ok b := ⟨_, rfl⟩
  have hcut : [⟨.kwLet, "let", {}⟩, ⟨.ident, "x", {}⟩] <+: [⟨.kwLet, "let", {}⟩, ⟨.ident, "x", {}⟩,
      (⟨.semicolon, ";", {}⟩ : Token)] := ⟨_, rfl⟩
  have hstop : Token.kind ⟨.eof, [], {}⟩ = .eof := rfl
  rcases Program.unfinished_of_isPrefix htokens hb hcut hstop with ⟨b', hb'⟩ | he
  · cases hb'
  · exact he

end ScriptLang
