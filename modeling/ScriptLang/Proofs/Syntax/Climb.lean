import Mathlib.Data.List.Infix
import ScriptLang.Proofs.Syntax.Bare
import ScriptLang.Proofs.Syntax.Reading

/-!
# Reading an expression operator by operator

An expression is read from its first operand outward: every operator puts a new node around what was
read so far. So what was read at some point stays on the *left spine* of the result, the path that
leads from the result to its first operand. Two trees are `Apart` when neither is on the spine of the
other, ignoring spans; then no tree has both on its spine, and reading on cannot repair a wrong part.

An expression is read as a first operand that `Parser.climb` then extends. `Operand` says that some
lexemes are read as a first operand, `Climbs` that they bring the climb to an expression, with enough
of its bound left to go on. `Climbs.extend` is the step from an expression to the one with an operator
behind it. The *level* of an expression is the greatest least power with which it is still read as a
whole, its *edge* the power that a token behind it must stay below so as not to belong to its last
operand.
-/

namespace ScriptLang.Expr

/-- The operand that an expression starts with. -/
def left? : Expr → Option Expr
  | .binary _ _ l _ | .assign _ _ l _ | .range _ l _ | .step _ _ l | .call _ l _ | .member _ l _
  | .index _ l _ => some l
  | _ => none

/-- An expression, its first operand, the first operand of that, and so on. -/
def spine : Expr → List Expr
  | .binary s op l r => .binary s op l r :: l.spine
  | .assign s op l r => .assign s op l r :: l.spine
  | .range s l r => .range s l r :: l.spine
  | .step s op l => .step s op l :: l.spine
  | .call s l args => .call s l args :: l.spine
  | .member s l p => .member s l p :: l.spine
  | .index s l i => .index s l i :: l.spine
  | e => [e]

theorem spine_of_left {e l : Expr} (h : e.left? = some l) : e.spine = e :: l.spine := by
  cases e <;> cases h <;> rfl

theorem spine_of_leaf {e : Expr} (h : e.left? = none) : e.spine = [e] := by
  cases e <;> first | rfl | cases h

theorem mem_spine_self (e : Expr) : e ∈ e.spine := by
  cases h : e.left? with
  | none => simp [spine_of_leaf h]
  | some l => simp [spine_of_left h]

/-- The spine of a node on a spine is the rest of that spine. -/
theorem spine_suffix {x : Expr} : ∀ {e : Expr}, x ∈ e.spine → x.spine <:+ e.spine
  | .binary s op l r, h => suffix_step (s := .binary s op l r) rfl h spine_suffix
  | .assign s op l r, h => suffix_step (s := .assign s op l r) rfl h spine_suffix
  | .range s l r, h => suffix_step (s := .range s l r) rfl h spine_suffix
  | .step s op l, h => suffix_step (s := .step s op l) rfl h spine_suffix
  | .call s l args, h => suffix_step (s := .call s l args) rfl h spine_suffix
  | .member s l p, h => suffix_step (s := .member s l p) rfl h spine_suffix
  | .index s l i, h => suffix_step (s := .index s l i) rfl h spine_suffix
  | .number .., h | .string .., h | .bool .., h | .nil .., h | .ident .., h | .array .., h
  | .object .., h | .unary .., h | .construct .., h | .function .., h | .choose .., h => by
    rw [spine_of_leaf rfl, List.mem_singleton] at h
    rw [h]
where
  suffix_step {x s l : Expr} (hl : s.left? = some l) (h : x ∈ s.spine)
      (ih : x ∈ l.spine → x.spine <:+ l.spine) : x.spine <:+ s.spine := by
    rw [spine_of_left hl, List.mem_cons] at h
    rcases h with rfl | h
    · exact List.suffix_refl _
    · rw [spine_of_left hl]
      exact (ih h).trans (List.suffix_cons _ _)

theorem mem_spine_trans {x y e : Expr} (hxy : x ∈ y.spine) (hy : y ∈ e.spine) : x ∈ e.spine :=
  (spine_suffix hy).subset hxy

theorem left_mem_spine {x l e : Expr} (hx : x ∈ e.spine) (hl : x.left? = some l) : l ∈ e.spine :=
  mem_spine_trans (by rw [spine_of_left hl]; exact .tail _ (mem_spine_self l)) hx

/-- Of two nodes of one spine, one is on the spine of the other. -/
theorem mem_spine_or {x y e : Expr} (hx : x ∈ e.spine) (hy : y ∈ e.spine) :
    x ∈ y.spine ∨ y ∈ x.spine :=
  (List.suffix_or_suffix_of_suffix (spine_suffix hx) (spine_suffix hy)).imp
    (fun h => h.subset (mem_spine_self x)) fun h => h.subset (mem_spine_self y)

/-- Nodes of one spine that are equally far from its end are the same. -/
theorem eq_of_mem_spine {x y e : Expr} (hx : x ∈ e.spine) (hy : y ∈ e.spine)
    (h : x.spine.length = y.spine.length) : x = y := by
  have heq : x.spine = y.spine :=
    (List.suffix_of_suffix_length_le (spine_suffix hx) (spine_suffix hy) (Nat.le_of_eq h)).eq_of_length h
  have head (z : Expr) : z.spine.head? = some z := by
    cases hz : z.left? with
    | none => rw [spine_of_leaf hz]; rfl
    | some l => rw [spine_of_left hz]; rfl
  have := head x
  rw [heq, head y] at this
  exact (Option.some.inj this).symm

/-! ### Trees apart -/

/-- An expression without spans. -/
def bare (e : Expr) : Expr := Bare.expr e

theorem bare_left {e l : Expr} (h : e.left? = some l) : e.bare.left? = some l.bare := by
  cases e <;> cases h <;> rfl

theorem bare_leaf {e : Expr} (h : e.left? = none) : e.bare.left? = none := by
  cases e <;> first | rfl | cases h

/-- Neither tree is on the spine of the other. -/
def Apart (e c : Expr) : Prop := e.bare ∉ c.bare.spine ∧ c.bare ∉ e.bare.spine

namespace Apart

theorem ne {e c : Expr} (h : Apart e c) : c.bare ≠ e.bare :=
  fun hc => h.2 (hc ▸ mem_spine_self c.bare)

/-- A tree with a wrong part on its spine stays wrong. -/
theorem of_mem_spine {e x c : Expr} (h : Apart e x) (hx : x.bare ∈ c.bare.spine) : Apart e c :=
  ⟨fun he => (mem_spine_or he hx).elim h.1 h.2, fun hc => h.2 (mem_spine_trans hx hc)⟩

/-- If the first operand is wrong, so is the whole. -/
theorem of_left {e l c : Expr} (h : Apart l c) (hl : e.left? = some l) : Apart e c := by
  refine ⟨fun he => h.1 (left_mem_spine he (bare_left hl)), fun hc => ?_⟩
  rw [spine_of_left (bare_left hl), List.mem_cons] at hc
  rcases hc with hc | hc
  · exact h.1 (hc ▸ left_mem_spine (mem_spine_self _) (bare_left hl))
  · exact h.2 hc

/-- A wrong node with a spine of the right length. -/
theorem of_ne {e x : Expr} (h : x.bare ≠ e.bare)
    (hlen : x.bare.spine.length = e.bare.spine.length) : Apart e x :=
  ⟨fun he => h (eq_of_mem_spine he (mem_spine_self _) hlen.symm).symm,
    fun hx => h (eq_of_mem_spine hx (mem_spine_self _) hlen)⟩

end Apart

end ScriptLang.Expr

namespace ScriptLang

/-- The power that a token behind an expression must stay below. -/
def Expr.edge : Expr → Nat
  | .assign .. => 10
  | .binary _ op _ _ => if op == .pow then op.precedence else op.precedence + 1
  | .range .. => 25
  | .unary .. => 60
  | _ => 100

/-- Whether an operator stands next, it has less than the given power. -/
def Follows (edge : Nat) (rest : List Lexeme) : Prop :=
  ∀ p, (Lexeme.first rest).power? = some p → p.left < edge

theorem Follows.mono {m n : Nat} (h : m ≤ n) {rest : List Lexeme} (hf : Follows m rest) :
    Follows n rest := fun p hp => Nat.lt_of_lt_of_le (hf p hp) h

/-- Behind a token that continues no expression, no power matters. -/
theorem Follows.of_none {r : List Lexeme} (h : (Lexeme.first r).power? = none) (n : Nat) :
    Follows n r := fun p hp => by rw [h] at hp; cases hp

namespace Parser

open ScriptLang.Expr

/-! ### The spine of what is read -/

theorem left_extend (rules : Rules) (n right : Nat) (left : Expr) :
    Always (extend rules n right left) fun e => e.left? = some left := by
  rw [extend]
  refine .bind fun op => ?_
  split
  · exact .bind fun _ => .bind fun _ => .pure rfl
  · exact .bind fun _ => .bind fun _ => .bind fun _ => .bind fun _ => .pure rfl
  · rw [property]
    exact .bind fun _ => .bind fun _ => .ite (.bind fun _ => .bind fun _ => .pure rfl) .fail
  · exact .bind fun _ => .bind fun _ => .pure rfl
  · exact .bind fun _ => .bind fun _ => .pure rfl
  · exact .bind fun _ => .bind fun _ => .bind fun _ => .pure rfl
  · refine .bind fun _ => .bind fun _ => ?_
    exact .ite (.bind fun _ => .pure rfl) (.bind fun _ => .pure rfl)

theorem mem_spine_climb (rules : Rules) (least : Nat) : ∀ (n : Nat) (left : Expr),
    Always (climb rules least n left) fun c => left.bare ∈ c.bare.spine
  | 0, _ => .fail
  | n + 1, left => by
    rw [climb]
    refine .bind fun t => ?_
    split
    · exact .pure (mem_spine_self _)
    · refine .ite (.pure (mem_spine_self _)) (.bind_of (left_extend rules n _ left) fun e he => ?_)
      exact (mem_spine_climb rules least n e).mono fun c hc => left_mem_spine hc (bare_left he)

theorem unary_leaf (rules : Rules) : Always (Parser.unary rules) fun e => e.left? = none :=
  .bind fun _ => .bind fun _ => .bind fun _ => .pure rfl

/-- An operand that does not start with a parenthesis has no first operand of its own. -/
theorem operand_leaf {rules : Rules} {n : Nat} {s s' : Stream} {o : Expr}
    (hs : s.current.kind ≠ .lparen) (h : Parser.operand rules n s = .ok (o, s')) : o.left? = none := by
  rw [Parser.operand] at h
  obtain ⟨t, s₁, ht, h⟩ := bind_eq_ok.1 h
  cases ht
  refine Always.elim (P := fun o => o.left? = none) ?_ h
  split
  · rw [numberLiteral]
    refine .bind fun t => ?_
    split
    · exact .bind fun _ => .pure rfl
    · exact .fail
  · exact .bind fun _ => .pure rfl
  · exact .bind fun _ => .pure rfl
  · exact .bind fun _ => .pure rfl
  · exact .bind fun _ => .pure rfl
  · exact .bind fun _ => .pure rfl
  · contradiction
  · exact .bind fun _ => .bind fun _ => .bind fun _ => .bind fun _ => .pure rfl
  · exact .bind fun _ => .bind fun _ => .bind fun _ => .bind fun _ => .pure rfl
  · exact unary_leaf rules
  · exact unary_leaf rules
  · exact unary_leaf rules
  · exact unary_leaf rules
  · exact .bind fun _ => .bind fun _ => .bind fun _ => .pure rfl
  · exact .bind fun _ => .pure rfl
  · refine .bind fun _ => .bind fun _ => .ite ?_ .fail
    refine .bind fun _ => .bind fun _ => .bind fun _ => .ite ?_ .fail
    exact .bind fun _ => .bind fun _ => .bind fun _ => .pure rfl
  · exact .fail

/-! ### Operands -/

/-- Lexemes that are read as a first operand. -/
def Operand (ls : List Lexeme) (edge : Nat) (good : Bool) (e : Expr) : Prop :=
  ∀ (d : Nat) (rest : List Lexeme) (s : Stream), rest ≠ [] → s.ahead = ls ++ rest →
    4 * ls.length ≤ d → Follows edge rest →
    (good = true → ∃ e' s', (Rules.ofDepth d).operand s = .ok (e', s') ∧ s'.ahead = rest ∧
      e'.bare = e.bare) ∧
    (good = false → ∀ o s', (Rules.ofDepth d).operand s = .ok (o, s') → Apart e o)

/-- Lexemes that bring the climb to an expression. -/
def Climbs (ls : List Lexeme) (level edge : Nat) (good : Bool) (e : Expr) : Prop :=
  ∀ (d n least : Nat) (rest : List Lexeme) (s : Stream), rest ≠ [] → s.ahead = ls ++ rest →
    4 * ls.length ≤ d → ls.length ≤ n → least ≤ level → Follows edge rest →
    (good = true → ∃ e' s' k, k < ls.length ∧ s'.ahead = rest ∧ e'.bare = e.bare ∧
      expression (Rules.ofDepth d) n least s = climb (Rules.ofDepth d) least (n - k) e' s') ∧
    (good = false → ∀ c s', expression (Rules.ofDepth d) n least s = .ok (c, s') → Apart e c)

/-- An operand with no first operand of its own, read by its rule. -/
theorem Operand.of_settles {ls : List Lexeme} {edge : Nat} {good : Bool} {e : Expr}
    (hleaf : e.left? = none) (hfirst : Lexeme.first ls ≠ .lparen) (hne : ls ≠ [])
    (h : ∀ d, 4 * ls.length ≤ d + 1 → ∀ rest, Follows edge rest →
      Settles (Parser.operand (Rules.ofDepth d) d) ls rest good fun o => o.bare = e.bare) :
    Operand ls edge good e := by
  intro d rest s hr hs hd hf
  obtain ⟨l, ls, rfl⟩ := List.exists_cons_of_ne_nil hne
  obtain ⟨d, rfl⟩ : ∃ m, d = m + 1 := ⟨d - 1, by simp at hd; omega⟩
  obtain ⟨hgood, hbad⟩ := h d hd rest hf s hr hs
  have hkind : s.current.kind ≠ .lparen := by rw [Settles.first_ahead hs]; exact hfirst
  refine ⟨hgood, fun hg o s' ho => .of_ne (hbad hg o s' ho) ?_⟩
  rw [spine_of_leaf (bare_leaf hleaf), spine_of_leaf (bare_leaf (operand_leaf hkind ho))]
  rfl

/-- An operand brings the climb to itself. -/
theorem Operand.climbs {ls : List Lexeme} {edge : Nat} {good : Bool} {e : Expr} (level : Nat)
    (hne : ls ≠ []) (h : Operand ls edge good e) : Climbs ls level edge good e := by
  intro d n least rest s hr hs hd hn hl hf
  obtain ⟨hgood, hbad⟩ := h d rest s hr hs hd hf
  refine ⟨fun hg => ?_, fun hg c s' hc => ?_⟩
  · obtain ⟨e', s', he, hs', heq⟩ := hgood hg
    refine ⟨e', s', 0, List.length_pos_iff.2 hne, hs', heq, ?_⟩
    rw [expression, bind_apply, he]
    rfl
  · obtain ⟨o, s₁, ho, hc⟩ := bind_eq_ok.1 hc
    exact (hbad hg o s₁ ho).of_mem_spine (mem_spine_climb _ _ _ _ hc)

namespace Climbs

variable {ls : List Lexeme} {level edge : Nat} {good : Bool} {e : Expr}

/-- An expression before a token that does not belong to it. -/
theorem stops (h : Climbs ls level edge good e) (hle : level ≤ edge) (d least : Nat)
    {rest : List Lexeme} {s : Stream} (hr : rest ≠ []) (hs : s.ahead = ls ++ rest)
    (hd : 4 * ls.length < d) (hl : least ≤ level) (hf : Follows least rest) :
    (good = true → ∃ e' s', (Rules.ofDepth d).expr least s = .ok (e', s') ∧ s'.ahead = rest ∧
      e'.bare = e.bare) ∧
    (good = false → ∀ c s', (Rules.ofDepth d).expr least s = .ok (c, s') → Apart e c) := by
  obtain ⟨d, rfl⟩ : ∃ m, d = m + 1 := ⟨d - 1, by omega⟩
  obtain ⟨hgood, hbad⟩ := h d d least rest s hr hs (by omega) (by omega) hl
    (hf.mono (Nat.le_trans hl hle))
  refine ⟨fun hg => ?_, hbad⟩
  obtain ⟨e', s', k, hk, hs', heq, hrun⟩ := hgood hg
  refine ⟨e', s', ?_, hs', heq⟩
  obtain ⟨n, hn⟩ : ∃ n, d - k = n + 1 := ⟨d - k - 1, by omega⟩
  have hkind := Settles.first_ahead hs'
  change expression (Rules.ofDepth d) d least s = _
  rw [hrun, hn, climb, bind_apply]
  change (_ : Parser Expr) s' = _
  dsimp only
  cases hp : s'.current.kind.power? with
  | none => rfl
  | some p =>
    have hlt := hf p (by rw [← hkind]; exact hp)
    simp only [if_pos hlt]
    rfl

theorem settles (h : Climbs ls level edge good e) (hle : level ≤ edge) {d least : Nat}
    (hd : 4 * ls.length < d) (hl : least ≤ level) {rest : List Lexeme} (hf : Follows least rest) :
    Settles ((Rules.ofDepth d).expr least) ls rest good fun c => c.bare = e.bare := by
  intro s hr hs
  obtain ⟨hgood, hbad⟩ := h.stops hle d least hr hs hd hl hf
  exact ⟨hgood, fun hg c s' hc => (hbad hg c s' hc).ne⟩

end Climbs

/-! ### Parentheses and operators -/

/-- An expression in parentheses is an operand, whatever it is. -/
theorem Operand.group {ls : List Lexeme} {level edge : Nat} {good : Bool} {e : Expr}
    (hle : level ≤ edge) (h : Climbs ls level edge good e) :
    Operand (Kind.lparen.lexeme :: (ls ++ [Kind.rparen.lexeme])) 100 good e := by
  intro d rest s hr hs hd hf
  simp only [List.length_cons, List.length_append, List.length_nil] at hd
  obtain ⟨d, rfl⟩ : ∃ m, d = m + 1 := ⟨d - 1, by omega⟩
  have hrun : (Rules.ofDepth (d + 1)).operand s = Parser.group (Rules.ofDepth d) s := by
    have hk : s.current.kind = .lparen := Settles.first_ahead hs
    change Parser.operand (Rules.ofDepth d) d s = _
    rw [Parser.operand, bind_apply]
    simp only [Parser.peek, Except.bind, hk]
  have hne : (ls ++ [Kind.rparen.lexeme]) ++ rest ≠ [] := by simp
  obtain ⟨-, hnext⟩ := Settles.next_ahead hne hs
  rw [List.append_assoc] at hnext
  obtain ⟨hgood, hbad⟩ := h.stops hle d 0 (by simp) hnext (by omega) (Nat.zero_le _)
    (.of_none rfl 0)
  have hgroup : Parser.group (Rules.ofDepth d) s =
      ((Rules.ofDepth d).expr 0 >>= fun e => Parser.expect .rparen >>= fun _ => pure e) s.next := rfl
  rw [hrun, hgroup]
  refine ⟨fun hg => ?_, fun hg o s' ho => ?_⟩
  · obtain ⟨e', s₁, he, hs₁, heq⟩ := hgood hg
    have hclose : Settles (Parser.expect .rparen >>= fun _ => pure e') [Kind.rparen.lexeme] rest
        true fun o => o.bare = e.bare := .expect rfl fun _ _ => .pure heq
    obtain ⟨o, s', ho, hs', heq'⟩ := (hclose s₁ hr hs₁).1 rfl
    exact ⟨o, s', by rw [bind_apply, he]; exact ho, hs', heq'⟩
  · obtain ⟨c, s₁, hc, ho⟩ := bind_eq_ok.1 ho
    obtain ⟨t, s₂, -, ho⟩ := bind_eq_ok.1 ho
    cases ho
    exact hbad hg _ s₁ hc

namespace Climbs

/-- An expression in parentheses or, if it needs none, without. -/
theorem parens {ls : List Lexeme} {level edge : Nat} {good : Bool} {e : Expr} (b : Bool)
    (hle : level ≤ edge) (h : Climbs ls level edge good e) :
    Climbs (Spell.parens b ls) (if b then 100 else level) (if b then 100 else edge) good e := by
  cases b with
  | false => exact h
  | true => exact (Operand.group hle h).climbs 100 (by simp [Spell.parens])

/-- An expression in parentheses or without, read with the least power that its level allows. -/
theorem settles_parens {ls : List Lexeme} {level edge : Nat} {good : Bool} {e : Expr} (b : Bool)
    (hle : level ≤ edge) (h : Climbs ls level edge good e) {d m : Nat}
    (hd : 4 * (Spell.parens b ls).length < d) (hl : m ≤ if b then 100 else level)
    {rest : List Lexeme} (hf : Follows m rest) :
    Settles ((Rules.ofDepth d).expr m) (Spell.parens b ls) rest good
      fun c => c.bare = e.bare := by
  refine (h.parens b hle).settles ?_ hd hl hf
  cases b
  · exact hle
  · exact Nat.le_refl 100

/-- An operator behind an expression that it does not take apart brings the climb to the expression
with the operator. -/
theorem extend {ls ls₂ : List Lexeme} {level edge edge' : Nat} {good good' : Bool} {l e : Expr}
    {op : Lexeme} {power r : Nat} (hl : Climbs ls level edge good l)
    (hp : op.kind.power? = some ⟨power, r⟩) (hedge : power < edge) (hlevel : power ≤ level)
    (hleft : e.left? = some l)
    (hext : ∀ (d n : Nat) (l' : Expr), l'.bare = l.bare → 4 * (ls₂.length + 2) ≤ d → ls₂.length < n →
      ∀ rest, Follows edge' rest →
      Settles (Parser.extend (Rules.ofDepth d) n r l') (op :: ls₂) rest good' fun c =>
        c.bare = e.bare) :
    Climbs (ls ++ op :: ls₂) power edge' (good && good') e := by
  intro d n least rest s hr hs hd hn hleast hf
  rw [List.append_assoc] at hs
  simp only [List.length_append, List.length_cons] at hd hn
  have hop : Follows edge (op :: ls₂ ++ rest) := by
    intro q hq
    cases hp.symm.trans hq
    exact hedge
  obtain ⟨hgood, hbad⟩ := hl d n least _ s (by simp) hs (by omega) (by omega)
    (Nat.le_trans hleast hlevel) hop
  cases good with
  | false => exact ⟨nofun, fun _ c s' hc => (hbad rfl c s' hc).of_left hleft⟩
  | true =>
    obtain ⟨l', s₁, k, hk, hs₁, heq, hrun⟩ := hgood rfl
    obtain ⟨m, hm⟩ : ∃ m, n - k = m + 1 := ⟨n - k - 1, by omega⟩
    have hkind : s₁.current.kind.power? = some ⟨power, r⟩ := by
      rw [Settles.first_ahead hs₁]; exact hp
    have hstep : climb (Rules.ofDepth d) least (m + 1) l' s₁ =
        (Parser.extend (Rules.ofDepth d) m r l' >>= climb (Rules.ofDepth d) least m) s₁ := by
      rw [climb, bind_apply]
      simp only [Parser.peek, Except.bind, hkind, if_neg (Nat.not_lt.2 hleast)]
    obtain ⟨hgood', hbad'⟩ := hext d m l' heq (by omega) (by omega) rest hf s₁ hr hs₁
    rw [hrun, hm, hstep]
    refine ⟨fun hg => ?_, fun hg c s' hc => ?_⟩
    · obtain ⟨e', s₂, he, hs₂, heq₂⟩ := hgood' hg
      refine ⟨e', s₂, k + 1, ?_, hs₂, heq₂, ?_⟩
      · simp only [List.length_append, List.length_cons]
        omega
      · rw [bind_apply, he]
        change climb _ _ m e' s₂ = _
        rw [show n - (k + 1) = m by omega]
    · obtain ⟨c₁, s₂, hc₁, hc⟩ := bind_eq_ok.1 hc
      have hc₁left := left_extend _ _ _ _ hc₁
      refine (Apart.of_ne (hbad' hg c₁ s₂ hc₁) ?_).of_mem_spine (mem_spine_climb _ _ _ _ hc)
      rw [spine_of_left (bare_left hc₁left), spine_of_left (bare_left hleft), heq]
      rfl

end Climbs

end Parser

end ScriptLang
