import ScriptLang.Proofs.Syntax.Climb

/-!
# How the text of an expression starts, and how tightly it holds

The parser decides by one or two tokens what stands before it: a statement, a block, an arm without a
pattern. `Opening` collects what the first lexemes of an expression tell. The rest of the module
compares the parentheses of the printer with the powers of the parser: an operand that is written
without parentheses is one that the operator beside it does not take apart.
-/

namespace ScriptLang

theorem Lexeme.first_append {ls : List Lexeme} (h : ls ≠ []) (rest : List Lexeme) :
    Lexeme.first (ls ++ rest) = Lexeme.first ls := by
  cases ls with
  | nil => exact absurd rfl h
  | cons l ls => rfl

/-! ### First lexemes -/

/-- What the first lexemes `ls` of an expression tell. -/
structure Opening (e : Expr) (ls : List Lexeme) : Prop where
  /-- There is a first lexeme. -/
  ne : ls ≠ []
  /-- It starts an operand. -/
  starts : Parser.startsOperand (Lexeme.first ls) = true
  /-- It is a brace if the text of the expression starts with one. -/
  brace : Lexeme.first ls = .lbrace ↔ Print.opensBrace e = true
  /-- It starts another statement only where the printer writes parentheses. -/
  other : Lexeme.first ls = .lbrace ∨ Lexeme.first ls = .kwMatch → Print.startsOtherwise e = true
  /-- A function has no name here. -/
  function : Lexeme.first ls = .kwFn → ∃ r, ls = Kind.kwFn.lexeme :: Kind.lparen.lexeme :: r
  /-- Only a name on its own stands right before what follows the expression. -/
  ident : Lexeme.first ls = .ident →
    (∃ name, ls = [.ident name] ∧ e.bare = .ident {} name) ∨
      ∃ l₁ l₂ r, ls = l₁ :: l₂ :: r ∧ l₂.kind ≠ .fatArrow

/-- An expression that starts with a lexeme of its own. -/
theorem Opening.leaf {e : Expr} {l : Lexeme} {ls : List Lexeme} (hs : Parser.startsOperand l.kind = true)
    (hb : l.kind = .lbrace ↔ Print.opensBrace e = true)
    (ho : l.kind = .lbrace ∨ l.kind = .kwMatch → Print.startsOtherwise e = true)
    (hf : l.kind ≠ .kwFn) (hi : l.kind ≠ .ident) : Opening e (l :: ls) :=
  ⟨by simp, hs, hb, ho, fun h => absurd h hf, fun h => absurd h hi⟩

/-- An expression that starts with an operand, in parentheses or not. -/
theorem Opening.left {e l : Expr} {ls ls₂ : List Lexeme} {op : Lexeme} {b : Bool}
    (h : Opening l ls) (hop : op.kind ≠ .fatArrow)
    (hb : Print.opensBrace e = (!b && Print.opensBrace l))
    (ho : b = false → Print.startsOtherwise l = true → Print.startsOtherwise e = true) :
    Opening e (Spell.parens b ls ++ op :: ls₂) := by
  cases b with
  | true =>
    refine ⟨by simp [Spell.parens], rfl, ?_, ?_, ?_, ?_⟩
    · simp [Spell.parens, Lexeme.first, Kind.lexeme, hb]
    all_goals simp [Spell.parens, Lexeme.first, Kind.lexeme]
  | false =>
    have hfirst := Lexeme.first_append h.ne (op :: ls₂)
    simp only [Spell.parens, Bool.false_eq_true, if_false]
    refine ⟨by simp, by rw [hfirst]; exact h.starts, ?_, ?_, ?_, ?_⟩
    · rw [hfirst, h.brace, hb]
      simp
    · rw [hfirst]
      exact fun hk => ho rfl (h.other hk)
    · rw [hfirst]
      intro hk
      obtain ⟨r, rfl⟩ := h.function hk
      exact ⟨r ++ op :: ls₂, rfl⟩
    · rw [hfirst]
      intro hk
      refine .inr ?_
      rcases h.ident hk with ⟨name, rfl, -⟩ | ⟨l₁, l₂, r, rfl, hl⟩
      · exact ⟨_, op, ls₂, rfl, hop⟩
      · exact ⟨l₁, l₂, r ++ op :: ls₂, rfl, hl⟩

theorem Opening.starts_parens {e : Expr} {ls : List Lexeme} (h : Opening e ls) (b : Bool)
    (rest : List Lexeme) :
    Parser.startsOperand (Lexeme.first (Spell.parens b ls ++ rest)) = true := by
  cases b with
  | true => rfl
  | false => rw [Spell.parens, if_neg Bool.false_ne_true, Lexeme.first_append h.ne]; exact h.starts

namespace Spell

theorem binary_fatArrow : ∀ op ∈ BinaryOp.known, op.kind ≠ .fatArrow := by decide

theorem assign_fatArrow : ∀ op ∈ AssignOp.known, op.kind ≠ .fatArrow := by decide

theorem unary_first : ∀ op ∈ UnaryOp.known, Parser.startsOperand op.kind = true ∧ op.kind ≠ .lbrace ∧
    op.kind ≠ .kwMatch ∧ op.kind ≠ .kwFn ∧ op.kind ≠ .ident := by decide

theorem opening : ∀ e, Every.expr .spellable e = true → Opening e (expr e)
  | .number .., _ | .string .., _ | .bool _ true, _ | .bool _ false, _ | .nil .., _ | .array .., _
  | .construct .., _ =>
    .leaf rfl (by simp [Print.opensBrace, Kind.lexeme, Lexeme.string])
      (by simp [Kind.lexeme, Lexeme.string]) (by rintro ⟨⟩) (by rintro ⟨⟩)
  | .object .., _ => .leaf rfl (by simp [Print.opensBrace, Kind.lexeme]) (fun _ => rfl)
    (by rintro ⟨⟩) (by rintro ⟨⟩)
  | .choose ⟨_, _, _⟩, _ =>
    .leaf rfl (by simp [Print.opensBrace, Kind.lexeme]) (fun _ => rfl) (by rintro ⟨⟩) (by rintro ⟨⟩)
  | .ident _ name, _ => by
    refine ⟨by simp [expr], rfl, ?_, ?_, ?_, fun _ => .inl ⟨name, rfl, rfl⟩⟩ <;>
      simp [expr, Lexeme.first, Lexeme.ident, Print.opensBrace]
  | .function ⟨_, _, params, result, body⟩, _ => by
    refine ⟨by simp [expr], rfl, ?_, ?_, fun _ => ⟨_, rfl⟩, ?_⟩ <;>
      simp [expr, Lexeme.first, Kind.lexeme, Print.opensBrace]
  | .unary _ op operand, h => by
    simp only [Every.expr, NodeRule.spellable, Bool.and_eq_true, List.contains_iff_mem] at h
    obtain ⟨h₁, h₂, h₃, h₄, h₅⟩ := unary_first op h.1
    exact .leaf h₁ (by simp [Print.opensBrace, Kind.lexeme, h₂])
      (by simp [Kind.lexeme, h₂, h₃]) h₄ h₅
  | .binary _ op left right, h => by
    simp only [Every.expr, NodeRule.spellable, Bool.and_eq_true, List.contains_iff_mem] at h
    exact (opening left h.1.2).left (binary_fatArrow op h.1.1) rfl
      fun hb hl => by simp [Print.startsOtherwise, hb, hl]
  | .assign _ op target value, h => by
    simp only [Every.expr, NodeRule.spellable, Bool.and_eq_true, List.contains_iff_mem] at h
    exact (opening target h.1.2).left (assign_fatArrow op h.1.1) rfl fun _ hl => hl
  | .range _ first last, h => by
    simp only [Every.expr, Bool.and_eq_true] at h
    exact (opening first h.1.2).left (by rintro ⟨⟩) rfl fun _ hl => hl
  | .step _ op target, h => by
    simp only [Every.expr, NodeRule.spellable, Bool.and_eq_true, Bool.or_eq_true,
      decide_eq_true_eq] at h
    refine (opening target h.2).left ?_ rfl fun _ hl => hl
    rcases h.1 with rfl | rfl <;> rintro ⟨⟩
  | .call _ callee args, h => by
    simp only [Every.expr, Bool.and_eq_true] at h
    exact (opening callee h.1.2).left (by rintro ⟨⟩) rfl fun _ hl => hl
  | .member _ object property, h => by
    simp only [Every.expr, Bool.and_eq_true] at h
    exact (opening object h.2).left (by rintro ⟨⟩) rfl fun _ hl => hl
  | .index _ object index, h => by
    simp only [Every.expr, Bool.and_eq_true] at h
    exact (opening object h.1.2).left (by rintro ⟨⟩) rfl fun _ hl => hl

/-! ### Levels and edges -/

theorem precedence_le_edge (e : Expr) : Print.precedence e ≤ e.edge := by
  cases e with
  | binary s op l r =>
    simp only [Print.precedence, Expr.edge]
    split <;> omega
  | _ => simp [Print.precedence, Expr.edge, BinaryOp.rangePrecedence]

/-- Only operators before and between operands are taken apart by what follows. -/
theorem edge_of_tight {e : Expr} (h : 70 ≤ Print.precedence e) : e.edge = 100 := by
  cases e with
  | binary s op l r =>
    have hop : op.precedence ≤ 55 := by
      cases op with
      | other t => simp only [BinaryOp.precedence, BinaryOp.rangePrecedence]; split <;> omega
      | _ => decide
    exact absurd (Nat.le_trans h hop) (by decide)
  | assign | range | unary => simp [Print.precedence, BinaryOp.rangePrecedence] at h
  | _ => rfl

/-- The powers of an operator are its precedence on the left, and on the right the edge of the
expressions it makes. -/
theorem binary_power : ∀ op ∈ BinaryOp.known, op.kind.power? =
    some ⟨op.precedence, if op == .pow then op.precedence else op.precedence + 1⟩ := by decide

theorem unary_read : ∀ op ∈ UnaryOp.known, op.kind ≠ .lparen ∧
    op.kind ∈ [.minus, .bang, .kwTypeof, .kwDelete] ∧
      UnaryOp.ofSpelling op.kind.name = op := by decide

/-- The value of an assignment needs no parentheses. -/
theorem assign_level {e : Expr} (he : Every.expr .spellable e = true) :
    10 ≤ Print.precedence e := by
  cases e with
  | binary s op l r =>
    simp only [Every.expr, NodeRule.spellable, Bool.and_eq_true, List.contains_iff_mem] at he
    have h : ∀ op ∈ BinaryOp.known, 10 ≤ op.precedence := by decide
    exact h op he.1.1
  | _ => simp [Print.precedence, BinaryOp.rangePrecedence]

theorem assign_power : ∀ op ∈ AssignOp.known, op.kind.power? = some ⟨10, 10⟩ := by decide

theorem binary_between : ∀ op ∈ BinaryOp.known,
    op.kind ∉ [.lparen, .lbracket, .dot, .plusPlus, .minusMinus, .dotDot] ∧
      op.kind.isAssignment = false ∧ BinaryOp.ofSpelling op.kind.name = op := by decide

theorem assign_between : ∀ op ∈ AssignOp.known,
    op.kind ∉ [.lparen, .lbracket, .dot, .plusPlus, .minusMinus, .dotDot] ∧
      op.kind.isAssignment = true ∧ AssignOp.ofSpelling op.kind.name = op := by decide

/-- Only powers have the precedence of powers. -/
theorem pow_of_precedence : ∀ op ∈ BinaryOp.known, op.precedence = 55 → op = .pow := by decide

theorem precedence_bounds : ∀ op ∈ BinaryOp.known, 20 ≤ op.precedence ∧ op.precedence ≤ 55 ∧
    op.precedence ≠ 24 := by decide

/-- A first operand without parentheses is not taken apart by the operator behind it. -/
theorem left_holds {l : Expr} (hl : Every.expr .spellable l = true) {parent : Nat}
    {rightward : Bool} (hparent : 20 ≤ parent ∧ parent ≤ 55)
    (hpow : rightward = false → parent ≠ 55)
    (h : Print.needsParens l parent rightward false = false) :
    parent ≤ Print.precedence l ∧ parent < l.edge := by
  simp only [Print.needsParens, Bool.or_eq_false_iff, decide_eq_false_iff_not, Nat.not_lt,
    Bool.and_eq_false_iff, beq_eq_false_iff_ne, bne_eq_false_iff_eq] at h
  obtain ⟨hle, hside⟩ := h
  refine ⟨hle, ?_⟩
  have hedge := precedence_le_edge l
  by_cases heq : Print.precedence l = parent
  · have hne := hpow (hside.resolve_left (not_not_intro heq)).symm
    cases l with
    | binary s op l r =>
      simp only [Every.expr, NodeRule.spellable, Bool.and_eq_true, List.contains_iff_mem] at hl
      simp only [Print.precedence] at heq
      have hop : (op == .pow) = false := by
        rw [beq_eq_false_iff_ne]
        rintro rfl
        exact hne heq.symm
      simp only [Expr.edge, hop, Bool.false_eq_true, if_false]
      omega
    | range => simp only [Print.precedence, BinaryOp.rangePrecedence] at heq; simp [Expr.edge, ← heq]
    | _ => simp only [Print.precedence] at heq; simp only [Expr.edge]; omega
  · omega

/-- A second operand without parentheses is read as a whole with the right power. -/
theorem right_holds {r : Expr} {parent : Nat} {rightward : Bool}
    (h : Print.needsParens r parent rightward true = false) :
    (if rightward then parent else parent + 1) ≤ Print.precedence r := by
  simp only [Print.needsParens, Bool.or_eq_false_iff, decide_eq_false_iff_not, Nat.not_lt,
    Bool.and_eq_false_iff, beq_eq_false_iff_ne, bne_eq_false_iff_eq] at h
  obtain ⟨hle, hside⟩ := h
  cases rightward with
  | true => exact hle
  | false =>
    have hne : Print.precedence r ≠ parent := hside.resolve_right (Ne.symm Bool.false_ne_true)
    simp only [Bool.false_eq_true, if_false]
    omega

/-- The same with the parentheses that are written otherwise. -/
theorem left_bounds {l : Expr} (hl : Every.expr .spellable l = true) (parent : Nat)
    (rightward : Bool) (hparent : 20 ≤ parent ∧ parent ≤ 55)
    (hpow : rightward = false → parent ≠ 55) :
    parent < (if Print.needsParens l parent rightward false then 100 else l.edge) ∧
      parent ≤ (if Print.needsParens l parent rightward false then 100 else Print.precedence l) := by
  cases hb : Print.needsParens l parent rightward false with
  | true => simp only [if_true]; omega
  | false => exact (left_holds hl hparent hpow hb).symm

theorem right_bounds (r : Expr) {parent : Nat} (rightward : Bool) (hparent : parent ≤ 55) :
    (if rightward then parent else parent + 1) ≤
      (if Print.needsParens r parent rightward true then 100 else Print.precedence r) := by
  cases hb : Print.needsParens r parent rightward true with
  | true => cases rightward <;> simp <;> omega
  | false => exact right_holds hb

end Spell

end ScriptLang
