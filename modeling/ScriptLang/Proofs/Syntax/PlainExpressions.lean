import ScriptLang.Proofs.Syntax.Lone
import ScriptLang.Proofs.Text.Utf8

/-!
# Reading the text of an expression

An expression is *plain* if it is built from literals, names and operators, with well-formed texts and
numbers that are not negative. Nothing is asked of how its parts are nested, so its text can only be read
back because the parentheses of the printer agree with the powers of the parser. The main result is that
the text of every plain expression is read as that expression (`Expr.reads_print_of_plain`).

The negative zero is written as `0`, so it is read as the positive one, which is equal to it.
`Unsigned` makes this replacement in a tree.
-/

namespace ScriptLang

open ScriptLang.Parser

/-- An expression that is spellable and legible is read back from its text. -/
theorem Expr.reads_print {e : Expr} (hspellable : Every.expr .spellable e = true)
    (hlegible : Every.expr .legible e = true) (file : Text) :
    ∃ q, Expr.parse (Expr.print e) file = .ok q ∧ q.bare = e.bare := by
  have hspelled : Spelled (Expr.print e) (Spell.expr e ++ [.eof]) := by
    have := Spell.spells_expr 0 e hspellable rfl .nil
    rwa [List.append_nil] at this
  obtain ⟨ts, hts, hls⟩ := hspelled file {}
  obtain ⟨hahead, hdepth⟩ := Stream.ahead_ofTokens hls
  have hclimbs := (Reread.of_expr e hspellable).climbs
  have hread : Settles (expressionReader (Stream.ofTokens ts).depth) (Spell.expr e) [.eof]
      (Every.expr .legible e) fun q => q.bare = e.bare := by
    rw [hdepth]
    refine .last (hclimbs.settles (Spell.precedence_le_edge e) (by omega) (Nat.zero_le _)
      (.of_none rfl 0)) (fun q hq => ?_) fun q hq => ?_
    · exact .noSkip nofun (.seesThen rfl (.pure hq))
    · exact .bind fun _ => .bind fun _ => .ite (.pure hq) .fail
  obtain ⟨q, s, hq, -, heq⟩ := (hread _ (by simp) hahead).1 hlegible
  exact ⟨q, Expr.parse_eq_ok.2 ⟨ts, s, hts, hq⟩, heq⟩

/-! ### Plain trees -/

/-- Whether a number is finite and not below zero, as both zeros are not. -/
def Number.isNonNegative (v : Float) : Bool :=
  match Binary.ofFloat v with
  | .finite negative m _ => !negative || m == 0
  | _ => false

/-- What a plain tree asks of its nodes. No node asks anything of its operands. -/
def NodeRule.plain : NodeRule where
  expr
    | .number _ v => Number.isNonNegative v
    | .string _ v => v.isUtf8
    | .ident _ name => name.isName
    | .object _ list => list.all fun (k, _) => k.isUtf8
    | .unary _ op _ => UnaryOp.known.contains op
    | .binary _ op _ _ => BinaryOp.known.contains op
    | .assign _ op _ _ => AssignOp.known.contains op
    | .step _ op _ => op = .up || op = .down
    | .member _ _ property => Print.isWord property
    | .construct .. | .function _ | .choose _ => false
    | _ => true

/-! ### The sign of zero -/

/-- A number, with the sign of zero dropped. -/
def Number.unsigned (v : Float) : Float :=
  match Binary.ofFloat v with
  | .finite true 0 _ => Binary.toFloat false 0 Binary.minExponent
  | _ => v

namespace Number

theorem source_zero {v : Float} {negative : Bool} {q : Int}
    (h : Binary.ofFloat v = .finite negative 0 q) : source v = Text.ofInt 0 := by
  rw [source, integerText?, truncate?, isWhole, h]
  simp

/-- A program shows no sign of zero. -/
@[simp] theorem source_unsigned (v : Float) : source (unsigned v) = source v := by
  rw [unsigned]
  split
  · next q hv =>
    have hzero : Binary.ofFloat (Binary.toFloat false 0 Binary.minExponent) =
        .finite false 0 Binary.minExponent := rfl
    rw [source_zero hzero, source_zero hv]
  · rfl

theorem unsigned_of_isLiteral {v : Float} (h : isLiteral v = true) : unsigned v = v := by
  rw [isLiteral] at h
  split at h
  · next negative m q hv =>
    cases negative with
    | false => simp only [unsigned, hv]
    | true => cases h
  · cases h

theorem isLiteral_unsigned {v : Float} (h : isNonNegative v = true) :
    isLiteral (unsigned v) = true := by
  rw [isNonNegative] at h
  split at h
  · next negative m q hv =>
    cases negative with
    | false => simp [unsigned, isLiteral, hv]
    | true =>
      obtain rfl : m = 0 := by simpa using h
      simp only [unsigned, hv]
      rfl
  · cases h

end Number

namespace Unsigned

mutual

/-- A plain expression with every zero as it is written. -/
def expr : Expr → Expr
  | .number s v => .number s (Number.unsigned v)
  | .array s elems => .array s (exprs elems)
  | .object s list => .object s (entries list)
  | .unary s op operand => .unary s op (expr operand)
  | .binary s op left right => .binary s op (expr left) (expr right)
  | .assign s op target value => .assign s op (expr target) (expr value)
  | .step s op target => .step s op (expr target)
  | .range s first last => .range s (expr first) (expr last)
  | .member s object property => .member s (expr object) property
  | .index s object index => .index s (expr object) (expr index)
  | .call s callee args => .call s (expr callee) (exprs args)
  | e => e

/-- Expressions with every zero as it is written. -/
def exprs : List Expr → List Expr
  | [] => []
  | e :: es => expr e :: exprs es

/-- Keys and values with every zero as it is written. -/
def entries : List (Text × Expr) → List (Text × Expr)
  | [] => []
  | (k, e) :: es => (k, expr e) :: entries es

end

@[simp] theorem precedence (e : Expr) : Print.precedence (expr e) = Print.precedence e := by
  cases e <;> rfl

@[simp] theorem needsParens (e : Expr) (parent : Nat) (rightward isRight : Bool) :
    Print.needsParens (expr e) parent rightward isRight =
      Print.needsParens e parent rightward isRight := by
  simp [Print.needsParens]

@[simp] theorem operandNeedsParens (e : Expr) (op : BinaryOp) (isRight : Bool) :
    Print.operandNeedsParens (expr e) op isRight = Print.operandNeedsParens e op isRight := by
  simp [Print.operandNeedsParens]

mutual

/-- The text of an expression shows no sign of zero. -/
theorem print_expr (depth : Nat) : ∀ e, Print.expr depth (expr e) = Print.expr depth e
  | .number _ v => Number.source_unsigned v
  | .string .. | .bool .. | .nil .. | .ident .. | .construct .. | .function _ | .choose _ => rfl
  | .array _ elems => by simp [expr, Print.expr, print_exprs depth elems]
  | .object _ [] => rfl
  | .object _ ((k, e) :: es) => by
    have h := print_entries depth ((k, e) :: es)
    simp only [entries] at h
    simp only [expr, entries, Print.expr, h]
  | .unary _ op operand => by simp [expr, Print.expr, print_expr depth operand]
  | .binary _ op left right => by
    simp [expr, Print.expr, print_expr depth left, print_expr depth right]
  | .assign _ op target value => by
    simp [expr, Print.expr, print_expr depth target, print_expr depth value]
  | .step _ op target => by simp [expr, Print.expr, print_expr depth target]
  | .range _ first last => by
    simp [expr, Print.expr, print_expr depth first, print_expr depth last]
  | .member _ object property => by simp [expr, Print.expr, print_expr depth object]
  | .index _ object index => by
    simp [expr, Print.expr, print_expr depth object, print_expr depth index]
  | .call _ callee args => by
    simp [expr, Print.expr, print_expr depth callee, print_exprs depth args]

theorem print_exprs (depth : Nat) : ∀ es, Print.exprs depth (exprs es) = Print.exprs depth es
  | [] => rfl
  | [e] => by simp [exprs, Print.exprs, print_expr depth e]
  | e :: e' :: es => by
    have h := print_exprs depth (e' :: es)
    simp only [exprs] at h
    simp [exprs, Print.exprs, print_expr depth e, h]

theorem print_entries (depth : Nat) :
    ∀ es, Print.entries depth (entries es) = Print.entries depth es
  | [] => rfl
  | [(k, e)] => by simp [entries, Print.entries, print_expr depth e]
  | (k, e) :: (k', e') :: es => by
    have h := print_entries depth ((k', e') :: es)
    simp only [entries] at h
    simp [entries, Print.entries, print_expr depth e, h]

end

mutual

/-- An expression with no negative zero is as it is written. -/
theorem expr_eq_self : ∀ e, Every.expr .spellable e = true → expr e = e
  | .number s v, h => congrArg (Expr.number s) (Number.unsigned_of_isLiteral h)
  | .string .., _ | .bool .., _ | .nil .., _ | .ident .., _ | .construct .., _ | .function _, _
  | .choose _, _ => rfl
  | .array s elems, h => by
    rw [expr, exprs_eq_self elems (Bool.and_eq_true_iff.1 h).2]
  | .object s list, h => by
    rw [expr, entries_eq_self list (Bool.and_eq_true_iff.1 h).2]
  | .unary s op operand, h => by
    rw [expr, expr_eq_self operand (Bool.and_eq_true_iff.1 h).2]
  | .binary s op left right, h => by
    simp only [Every.expr, Bool.and_eq_true] at h
    rw [expr, expr_eq_self left h.1.2, expr_eq_self right h.2]
  | .assign s op target value, h => by
    simp only [Every.expr, Bool.and_eq_true] at h
    rw [expr, expr_eq_self target h.1.2, expr_eq_self value h.2]
  | .step s op target, h => by
    rw [expr, expr_eq_self target (Bool.and_eq_true_iff.1 h).2]
  | .range s first last, h => by
    simp only [Every.expr, Bool.and_eq_true] at h
    rw [expr, expr_eq_self first h.1.2, expr_eq_self last h.2]
  | .member s object property, h => by
    rw [expr, expr_eq_self object (Bool.and_eq_true_iff.1 h).2]
  | .index s object index, h => by
    simp only [Every.expr, Bool.and_eq_true] at h
    rw [expr, expr_eq_self object h.1.2, expr_eq_self index h.2]
  | .call s callee args, h => by
    simp only [Every.expr, Bool.and_eq_true] at h
    rw [expr, expr_eq_self callee h.1.2, exprs_eq_self args h.2]

theorem exprs_eq_self : ∀ es, Every.exprs .spellable es = true → exprs es = es
  | [], _ => rfl
  | e :: es, h => by
    obtain ⟨he, hes⟩ := Bool.and_eq_true_iff.1 h
    rw [exprs, expr_eq_self e he, exprs_eq_self es hes]

theorem entries_eq_self : ∀ es, Every.entries .spellable es = true → entries es = es
  | [], _ => rfl
  | (k, e) :: es, h => by
    obtain ⟨he, hes⟩ := Bool.and_eq_true_iff.1 h
    rw [entries, expr_eq_self e he, entries_eq_self es hes]

end

/-! ### What a plain tree ensures -/

/-- A rule that holds of the written form of every plain node. -/
def Grants (r : NodeRule) : Prop :=
  ∀ e, NodeRule.plain.expr e = true → r.expr (expr e) = true

mutual

/-- Such a rule holds in the written form of every plain tree. -/
theorem every_expr {r : NodeRule} (hr : Grants r) :
    ∀ e, Every.expr .plain e = true → Every.expr r (expr e) = true
  | .number s v, h => hr (.number s v) h
  | .string s v, h => hr (.string s v) h
  | .bool s v, h => hr (.bool s v) h
  | .nil s, h => hr (.nil s) h
  | .ident s name, h => hr (.ident s name) h
  | .array s elems, h => by
    obtain ⟨hnode, helems⟩ := Bool.and_eq_true_iff.1 h
    exact Bool.and_eq_true_iff.2 ⟨hr _ hnode, every_exprs hr elems helems⟩
  | .object s list, h => by
    obtain ⟨hnode, hlist⟩ := Bool.and_eq_true_iff.1 h
    exact Bool.and_eq_true_iff.2 ⟨hr _ hnode, every_entries hr list hlist⟩
  | .unary s op operand, h => by
    obtain ⟨hnode, hoperand⟩ := Bool.and_eq_true_iff.1 h
    exact Bool.and_eq_true_iff.2 ⟨hr _ hnode, every_expr hr operand hoperand⟩
  | .binary s op left right, h => by
    simp only [Every.expr, Bool.and_eq_true] at h
    simp only [expr, Every.expr, Bool.and_eq_true]
    exact ⟨⟨hr _ h.1.1, every_expr hr left h.1.2⟩, every_expr hr right h.2⟩
  | .assign s op target value, h => by
    simp only [Every.expr, Bool.and_eq_true] at h
    simp only [expr, Every.expr, Bool.and_eq_true]
    exact ⟨⟨hr _ h.1.1, every_expr hr target h.1.2⟩, every_expr hr value h.2⟩
  | .step s op target, h => by
    obtain ⟨hnode, htarget⟩ := Bool.and_eq_true_iff.1 h
    exact Bool.and_eq_true_iff.2 ⟨hr _ hnode, every_expr hr target htarget⟩
  | .range s first last, h => by
    simp only [Every.expr, Bool.and_eq_true] at h
    simp only [expr, Every.expr, Bool.and_eq_true]
    exact ⟨⟨hr _ h.1.1, every_expr hr first h.1.2⟩, every_expr hr last h.2⟩
  | .member s object property, h => by
    obtain ⟨hnode, hobject⟩ := Bool.and_eq_true_iff.1 h
    exact Bool.and_eq_true_iff.2 ⟨hr _ hnode, every_expr hr object hobject⟩
  | .index s object index, h => by
    simp only [Every.expr, Bool.and_eq_true] at h
    simp only [expr, Every.expr, Bool.and_eq_true]
    exact ⟨⟨hr _ h.1.1, every_expr hr object h.1.2⟩, every_expr hr index h.2⟩
  | .call s callee args, h => by
    simp only [Every.expr, Bool.and_eq_true] at h
    simp only [expr, Every.expr, Bool.and_eq_true]
    exact ⟨⟨hr _ h.1.1, every_expr hr callee h.1.2⟩, every_exprs hr args h.2⟩
  | .construct .., h => absurd h (by simp [Every.expr, NodeRule.plain])
  | .function _, h => absurd h (by simp [Every.expr, NodeRule.plain])
  | .choose _, h => absurd h (by simp [Every.expr, NodeRule.plain])

theorem every_exprs {r : NodeRule} (hr : Grants r) :
    ∀ es, Every.exprs .plain es = true → Every.exprs r (exprs es) = true
  | [], _ => rfl
  | e :: es, h => by
    obtain ⟨he, hes⟩ := Bool.and_eq_true_iff.1 h
    exact Bool.and_eq_true_iff.2 ⟨every_expr hr e he, every_exprs hr es hes⟩

theorem every_entries {r : NodeRule} (hr : Grants r) :
    ∀ es, Every.entries .plain es = true → Every.entries r (entries es) = true
  | [], _ => rfl
  | (k, e) :: es, h => by
    obtain ⟨he, hes⟩ := Bool.and_eq_true_iff.1 h
    exact Bool.and_eq_true_iff.2 ⟨every_expr hr e he, every_entries hr es hes⟩

end

theorem grants_spellable : Grants .spellable := by
  intro e h
  cases e with
  | number s v => exact Number.isLiteral_unsigned h
  | string | object => rfl
  | construct | function | choose => cases h
  | _ => exact h

theorem entries_keys (list : List (Text × Expr)) :
    (entries list).map Prod.fst = list.map Prod.fst := by
  induction list with
  | nil => rfl
  | cons p list ih => exact congrArg (p.1 :: ·) ih

theorem grants_legible : Grants .legible := by
  have hmend {t : Text} (ht : t.isUtf8 = true) : t.isWellFormed = true :=
    beq_iff_eq.2 (Text.mend_of_isUtf8 ht)
  intro e h
  cases e with
  | string s v => exact hmend h
  | object s list =>
    have hkeys : ∀ k ∈ list.map Prod.fst, k.isUtf8 = true :=
      List.forall_mem_map.2 (List.all_eq_true.1 h)
    rw [← entries_keys] at hkeys
    refine List.all_eq_true.2 fun p hp => ?_
    exact Bool.or_eq_true_iff.2 (.inr (hmend (hkeys p.1 (List.mem_map_of_mem hp))))
  | construct | function | choose => cases h
  | _ => rfl

end Unsigned

/-- The text of a plain expression is read as that expression, with its zeros as they are written. If it
has no negative zero, this is the expression itself. -/
theorem Expr.reads_print_of_plain {e : Expr} (h : Every.expr .plain e = true) (file : Text) :
    ∃ q, Expr.parse (Expr.print e) file = .ok q ∧ q.bare = (Unsigned.expr e).bare ∧
      (Every.expr .spellable e = true → q.bare = e.bare) := by
  have hspellable := Unsigned.every_expr Unsigned.grants_spellable e h
  have hlegible := Unsigned.every_expr Unsigned.grants_legible e h
  obtain ⟨q, hq, heq⟩ := Expr.reads_print hspellable hlegible file
  have hprint : Expr.print (Unsigned.expr e) = Expr.print e := Unsigned.print_expr 0 e
  rw [hprint] at hq
  refine ⟨q, hq, heq, fun hs => ?_⟩
  rw [heq, Unsigned.expr_eq_self e hs]

/-- A sum in a product, a negation of a negation, a step on an operand that is no place, a property that
is a reserved word and a range that is assigned to. -/
theorem Expr.reads_print_nested : ∃ e q, Every.expr .plain e = true ∧
    Expr.print e = "(0 + - -x) * (!y)++.if(\x7b \"a b\": \"é\" \x7d, nil..false = z)" ∧
      Expr.parse (Expr.print e) "main" = .ok q ∧ q.bare = e.bare := by
  let product : Expr :=
    .binary {} .mul
      (.binary {} .add (.number {} (Binary.toFloat false 0 Binary.minExponent))
        (.unary {} .neg (.unary {} .neg (.ident {} "x"))))
      (.call {} (.member {} (.step {} .up (.unary {} .not (.ident {} "y"))) "if")
        [.object {} [("a b", .string {} "é")],
          .assign {} .set (.range {} (.nil {}) (.bool {} false)) (.ident {} "z")])
  obtain ⟨q, hq, -, heq⟩ := Expr.reads_print_of_plain (e := product) rfl "main"
  exact ⟨product, q, rfl, by decide +kernel, hq, heq rfl⟩

end ScriptLang
