import ScriptLang.Proofs.Syntax.Spelling
import ScriptLang.Proofs.Token.Genuine

/-!
# The text of a tree spells its lexemes

By induction on the tree, construct by construct: the text of a tree, put before a text that spells
some lexemes, spells the lexemes of the tree before these. An expression can end with a word, a number
or a string, so the text behind it has to break there; a block and a statement end with a mark.
-/

namespace ScriptLang

open Token

/-- A text spells these lexemes before every text that breaks a word, a number or a string. -/
def Spells (u : Text) (ks : List Lexeme) : Prop :=
  ∀ ⦃t ls⦄, t.breaks = true → Spelled t ls → Spelled (u ++ t) (ks ++ ls)

/-- A text spells these lexemes before every text. -/
def SpellsFreely (u : Text) (ks : List Lexeme) : Prop :=
  ∀ ⦃t ls⦄, Spelled t ls → Spelled (u ++ t) (ks ++ ls)

theorem SpellsFreely.spells {u : Text} {ks : List Lexeme} (h : SpellsFreely u ks) : Spells u ks :=
  fun _ _ _ hs => h hs

theorem SpellsFreely.fixed {n : Nat} {u : Text} {ks : List Lexeme} (h : u.spell n = some ks) :
    SpellsFreely u ks := fun _ _ hs => .fixed h hs

/-! ### Fixed texts -/

namespace Spelled

variable {t : Text} {ls : List Lexeme}

theorem space (h : Spelled t ls) : Spelled ((" " : Text) ++ t) ls := blank (by decide) h

theorem lineEnd (h : Spelled t ls) : Spelled (("\n" : Text) ++ t) ls := blank (by decide) h

theorem indent (depth : Nat) (h : Spelled t ls) : Spelled (Print.indent depth ++ t) ls :=
  spaces (2 * depth) h

theorem comma : SpellsFreely ", " [Kind.comma.lexeme] := .fixed (n := 9) (by decide)

theorem colon : SpellsFreely ": " [Kind.colon.lexeme] := .fixed (n := 9) (by decide)

theorem semicolon : SpellsFreely ";" [Kind.semicolon.lexeme] := .fixed (n := 9) (by decide)

theorem semicolonLine : SpellsFreely ";\n" [Kind.semicolon.lexeme] := .fixed (n := 9) (by decide)

theorem lparen : SpellsFreely "(" [Kind.lparen.lexeme] := .fixed (n := 9) (by decide)

theorem rparen : SpellsFreely ")" [Kind.rparen.lexeme] := .fixed (n := 9) (by decide)

theorem lbracket : SpellsFreely "[" [Kind.lbracket.lexeme] := .fixed (n := 9) (by decide)

theorem rbracket : SpellsFreely "]" [Kind.rbracket.lexeme] := .fixed (n := 9) (by decide)

theorem rbrace : SpellsFreely "\x7d" [Kind.rbrace.lexeme] := .fixed (n := 9) (by decide)

theorem braces : SpellsFreely "\x7b\x7d" [Kind.lbrace.lexeme, Kind.rbrace.lexeme] := .fixed (n := 9) (by decide)

theorem brackets : SpellsFreely "[]" [Kind.lbracket.lexeme, Kind.rbracket.lexeme] := .fixed (n := 9) (by decide)

theorem openBlock : SpellsFreely "\x7b\n" [Kind.lbrace.lexeme] := .fixed (n := 9) (by decide)

theorem openArms : SpellsFreely " \x7b\n" [Kind.lbrace.lexeme] := .fixed (n := 9) (by decide)

theorem arrow : SpellsFreely " => " [Kind.fatArrow.lexeme] := .fixed (n := 9) (by decide)

theorem name {w : Text} (hw : w.isName = true) (ht : t.breaks = true) (h : Spelled t ls) :
    Spelled (w ++ t) (.ident w :: ls) := by
  simp only [Text.isName, Bool.and_eq_true, beq_iff_eq] at hw
  have hl : Lexeme.ident w = .word w := by rw [Lexeme.word, hw.2]; rfl
  rw [hl]
  exact word hw.1 (breaks_word ht) h

end Spelled

/-! ### Small parts -/

theorem Spells.parens {u : Text} {ks : List Lexeme} (h : Spells u ks) (b : Bool) :
    Spells (Print.parens b u) (Spell.parens b ks) := by
  intro t ls ht hs
  cases b with
  | false => exact h ht hs
  | true =>
    simp only [Print.parens, Spell.parens, if_true, List.append_assoc, List.cons_append,
      List.nil_append]
    exact .lparen (h rfl (.rparen hs))

namespace Spell

theorem spells_type : ∀ a : TypeExpr, a.isSpellable = true → Spells a.text (type a)
  | .named _ name, ha => fun _ _ ht hs => .name ha ht hs
  | .list _ elem, ha => fun _ _ ht hs => by
    simp only [TypeExpr.text, type, List.append_assoc, List.cons_append]
    exact .brackets (spells_type elem ha ht hs)

theorem spells_ascription (a : Option TypeExpr) (ha : a.all TypeExpr.isSpellable = true) :
    Spells ( Print.annotation a) (ascription a) := by
  intro t ls ht hs
  cases a with
  | none => exact hs
  | some a =>
    simp only [ Print.annotation, ascription, List.append_assoc, List.cons_append]
    exact .colon (spells_type a ha ht hs)

/-- An annotation or nothing, before a text that breaks, is a text that breaks. -/
theorem breaks_ascription (a : Option TypeExpr) {t : Text} (ht : t.breaks = true) :
    ( Print.annotation a ++ t).breaks = true := by
  cases a with
  | none => exact ht
  | some a => rfl

theorem spells_param (p : Param) (hp : p.isSpellable = true) : Spells (Print.param p) (param p) := by
  intro t ls ht hs
  simp only [Param.isSpellable, Bool.and_eq_true] at hp
  simp only [Print.param, param, List.append_assoc, List.cons_append]
  exact .name hp.1 (breaks_ascription p.type ht) (spells_ascription p.type hp.2 ht hs)

theorem spells_commas {α : Type} {text : α → Text} {lexemes : α → List Lexeme} :
    ∀ as : List α, (∀ a ∈ as, Spells (text a) (lexemes a)) →
      Spells (Text.join ", " (as.map text)) (commas (as.map lexemes))
  | [], _ => fun _ _ _ hs => hs
  | [a], h => h a (by simp)
  | a :: a' :: as, h => fun _ _ ht hs => by
    have ih := spells_commas (a' :: as) (fun b hb => h b (by simp_all)) ht hs
    simp only [List.map_cons] at ih
    simp only [List.map_cons, Text.join, commas, List.append_assoc, List.cons_append]
    exact h a (by simp) rfl (.comma ih)

theorem spells_names {names : List Text} (h : ∀ w ∈ names, w.isName = true) :
    Spells (Text.join ", " names) (commas (names.map fun w => [.ident w])) := by
  have hname (w : Text) (hw : w ∈ names) : Spells (id w) [.ident w] :=
    fun _ _ ht hs => .name (h w hw) ht hs
  have := spells_commas names hname
  rwa [List.map_id] at this

theorem spells_signature {params : List Param} {result : Option TypeExpr}
    (hp : params.all Param.isSpellable = true) (hr : result.all TypeExpr.isSpellable = true) :
    Spells (Print.signature params result) (signature params result) := by
  intro t ls ht hs
  simp only [Print.signature, signature, List.append_assoc, List.cons_append]
  refine .lparen (spells_commas params (fun p hm => spells_param p (List.all_eq_true.1 hp p hm)) rfl ?_)
  exact .rparen (spells_ascription result hr ht hs)

theorem spells_fields (depth : Nat) : ∀ {list : List Param}, list.all Param.isSpellable = true →
    SpellsFreely (Print.fieldLines depth list) (fields list)
  | [], _ => fun _ _ hs => hs
  | p :: list, h => fun _ _ hs => by
    simp only [List.all_cons, Bool.and_eq_true] at h
    have ih := spells_fields depth h.2 hs
    simp only [Print.fieldLines, fields, List.append_assoc] at ih
    simp only [Print.fieldLines, fields, List.flatMap_cons, List.append_assoc, List.cons_append,
      List.nil_append]
    exact .indent depth (spells_param p h.1 rfl (.semicolonLine ih))

theorem spells_key (k : Text) : Spells (Print.key k) [key k] := by
  intro t ls ht hs
  simp only [Print.key, key]
  split
  · rename_i hk
    exact .word hk (Spelled.breaks_word ht) hs
  · exact .quote k ht hs

/-- No property starts like the places of a number. -/
theorem breaks_property {w : Text} (hw : Print.isWord w = true) (t : Text) :
    (("." : Text) ++ (w ++ t)).breaks = true := by
  cases w with
  | nil => cases hw
  | cons b r =>
    simp only [Print.isWord, Bool.and_eq_true] at hw
    change (!(true && Text.isDigit b)) = true
    rw [(Spelled.isWordStart_class hw.1).2.2.2]
    rfl

theorem spells_property {w : Text} (hw : Print.isWord w = true) :
    Spells (("." : Text) ++ w) [Kind.dot.lexeme, .word w] := by
  intro t ls ht hs
  rw [List.append_assoc]
  refine .mark (k := .dot) (by decide) ?_ (.word hw (Spelled.breaks_word ht) hs)
  cases w with
  | nil => cases hw
  | cons b r =>
    simp only [Print.isWord, Bool.and_eq_true] at hw
    have hc : Kind.dot.continuations = [0x2e] := by decide
    have hb : b ≠ 0x2e := by rintro rfl; exact absurd hw.1 (by decide)
    simp [Kind.stops, hc, hb]

/-! ### Operators -/

theorem binary_kind : ∀ op ∈ BinaryOp.known, op.spelling = op.kind.name ∧
    op.kind ∈ Kind.operators ∧ op.kind.continuations.contains 0x20 = false := by decide

theorem assign_kind : ∀ op ∈ AssignOp.known, op.spelling = op.kind.name ∧
    op.kind ∈ Kind.operators ∧ op.kind.continuations.contains 0x20 = false := by decide

theorem spells_operator {k : Kind} (hk : k ∈ Kind.operators)
    (hc : k.continuations.contains 0x20 = false) {t : Text} {ls : List Lexeme} (h : Spelled t ls) :
    Spelled ((" " : Text) ++ (k.name ++ ((" " : Text) ++ t))) (k.lexeme :: ls) := by
  refine .space (.mark hk ?_ (.space h))
  change (!k.continuations.contains 0x20) = true
  rw [hc]
  rfl

/-- A text that does not lengthen an operator before it to an assignment. -/
def StartsWell (u : Text) : Prop := ∃ b r, u = b :: r ∧ b ≠ 0x3d

theorem StartsWell.append {u : Text} (h : StartsWell u) (v : Text) : StartsWell (u ++ v) := by
  obtain ⟨b, r, rfl, hb⟩ := h
  exact ⟨b, r ++ v, rfl, hb⟩

theorem StartsWell.parens {u : Text} (h : StartsWell u) (b : Bool) :
    StartsWell (Print.parens b u) := by
  cases b with
  | false => exact h
  | true => exact ⟨0x28, u ++ (")" : Text), rfl, by decide⟩

theorem StartsWell.word {w : Text} (h : Print.isWord w = true) : StartsWell w := by
  cases w with
  | nil => cases h
  | cons b r =>
    refine ⟨b, r, rfl, ?_⟩
    rintro rfl
    simp only [Print.isWord, Bool.and_eq_true] at h
    exact absurd h.1 (by decide)

theorem unary_neg (u : Text) :
    Print.unary .neg u = ("-" : Text) ++ ((if u.head? = some 0x2d then (" " : Text) else []) ++ u) := by
  by_cases h : u.head? = some 0x2d <;> simp only [Print.unary, h] <;> rfl

theorem startsWell_unary {op : UnaryOp} (hop : op ∈ UnaryOp.known) (u : Text) :
    StartsWell (Print.unary op u) := by
  simp only [UnaryOp.known, List.mem_cons, List.not_mem_nil, or_false] at hop
  rcases hop with rfl | rfl | rfl | rfl
  · rw [unary_neg]
    exact ⟨0x2d, _, rfl, by decide⟩
  · exact ⟨0x21, u, rfl, by decide⟩
  · exact ⟨0x74, ("ypeof " : Text) ++ u, rfl, by decide⟩
  · exact ⟨0x64, ("elete " : Text) ++ u, rfl, by decide⟩

/-- The text of an expression does not start with an equals sign. -/
theorem startsWell_expr (depth : Nat) : ∀ e, Every.expr .spellable e = true →
    StartsWell (Print.expr depth e)
  | .number _ v, h => by
    obtain ⟨b, r, hb, hd⟩ := Spelled.number_start (Number.isNumber_source h)
    refine ⟨b, r, hb, ?_⟩
    rintro rfl
    exact absurd hd (by decide)
  | .string _ v, _ => ⟨_, _, rfl, by decide⟩
  | .bool _ true, _ | .bool _ false, _ | .nil _, _ => ⟨_, _, rfl, by decide⟩
  | .ident _ name, h => .word (Bool.and_eq_true_iff.1 h).1
  | .array _ elems, _ | .object _ [], _ | .object _ (_ :: _), _ => ⟨_, _, rfl, by decide⟩
  | .unary _ op operand, h => by
    simp only [Every.expr, NodeRule.spellable, Bool.and_eq_true, List.contains_iff_mem] at h
    obtain ⟨hop, -⟩ := h
    exact startsWell_unary hop _
  | .binary _ op left _, h => by
    simp only [Every.expr, Bool.and_eq_true] at h
    simp only [Print.expr, List.append_assoc]
    exact ((startsWell_expr depth left h.1.2).parens _).append _
  | .assign _ op target _, h => by
    simp only [Every.expr, Bool.and_eq_true] at h
    simp only [Print.expr, List.append_assoc]
    exact ((startsWell_expr depth target h.1.2).parens _).append _
  | .range _ first _, h => by
    simp only [Every.expr, Bool.and_eq_true] at h
    simp only [Print.expr, List.append_assoc]
    exact ((startsWell_expr depth first h.1.2).parens _).append _
  | .step _ _ target, h => by
    simp only [Every.expr, Bool.and_eq_true] at h
    exact ((startsWell_expr depth target h.2).parens _).append _
  | .call _ callee _, h => by
    simp only [Every.expr, Bool.and_eq_true] at h
    simp only [Print.expr, List.append_assoc]
    exact ((startsWell_expr depth callee h.1.2).parens _).append _
  | .member _ object _, h => by
    simp only [Every.expr, Bool.and_eq_true] at h
    simp only [Print.expr, List.append_assoc]
    exact ((startsWell_expr depth object h.2).parens _).append _
  | .index _ object _, h => by
    simp only [Every.expr, Bool.and_eq_true] at h
    simp only [Print.expr, List.append_assoc]
    exact ((startsWell_expr depth object h.1.2).parens _).append _
  | .construct .., _ => ⟨0x6e, _, rfl, by decide⟩
  | .function ⟨_, _, _, _, _⟩, _ => ⟨0x66, _, rfl, by decide⟩
  | .choose ⟨_, _, _⟩, _ => ⟨0x6d, _, rfl, by decide⟩

theorem spells_unary {op : UnaryOp} (hop : op ∈ UnaryOp.known) {u : Text} {ks : List Lexeme}
    (h : Spells u ks) (hu : StartsWell u) : Spells (Print.unary op u) (op.kind.lexeme :: ks) := by
  intro t ls ht hs
  have ih := h ht hs
  obtain ⟨b, r, rfl, hb⟩ := hu
  simp only [UnaryOp.known, List.mem_cons, List.not_mem_nil, or_false] at hop
  rcases hop with rfl | rfl | rfl | rfl
  · rw [unary_neg]
    by_cases hd : b = 0x2d
    · subst hd
      exact .fixed (n := 9) (u := "- ") (k := [Kind.minus.lexeme]) (by decide) ih
    · rw [if_neg (by simpa using hd)]
      refine .mark (k := .minus) (by decide) ?_ ih
      have hc : Kind.minus.continuations = [0x3d, 0x2d] := by decide
      simp [Kind.stops, hc, hb, hd]
  · refine .mark (k := .bang) (by decide) ?_ ih
    have hc : Kind.bang.continuations = [0x3d] := by decide
    simp [Kind.stops, hc, hb]
  · exact .fixed (n := 9) (u := "typeof ") (k := [Kind.kwTypeof.lexeme]) (by decide) ih
  · exact .fixed (n := 9) (u := "delete ") (k := [Kind.kwDelete.lexeme]) (by decide) ih

/-! ### Parts of statements -/

theorem spells_declarator (constant : Bool) {name t : Text} {ls : List Lexeme}
    (hn : name.isName = true) (ht : t.breaks = true) (h : Spelled t ls) :
    Spelled (Print.word constant ++ (name ++ t))
      ((if constant then Kind.kwConst.lexeme else Kind.kwLet.lexeme) :: .ident name :: ls) := by
  cases constant with
  | true => exact .fixed (n := 9) (k := [Kind.kwConst.lexeme]) (by decide) (.name hn ht h)
  | false => exact .fixed (n := 9) (k := [Kind.kwLet.lexeme]) (by decide) (.name hn ht h)

/-- What an import names, and where it is from. -/
theorem spells_import {name : Text} {wildcard : Bool} (path : Text)
    (hn : (if wildcard then name.isEmpty else name.isName) = true) {t : Text} {ls : List Lexeme}
    (h : Spelled t ls) :
    Spelled (Print.target wildcard name ++
        (Text.when (!path.isEmpty) ((" from " : Text) ++ Print.quote path) ++ ((";" : Text) ++ t)))
      ((if wildcard then Kind.star.lexeme else .ident name) ::
        ((if path.isEmpty then [] else [Kind.kwFrom.lexeme, .string (Text.mend path)]) ++
          Kind.semicolon.lexeme :: ls)) := by
  have hpath : Spelled (Text.when (!path.isEmpty) ((" from " : Text) ++ Print.quote path) ++
      ((";" : Text) ++ t))
      ((if path.isEmpty then [] else [Kind.kwFrom.lexeme, .string (Text.mend path)]) ++
        Kind.semicolon.lexeme :: ls) := by
    cases path with
    | nil => exact .semicolon h
    | cons b r =>
      change Spelled ((" from " : Text) ++ Print.quote (b :: r) ++ ((";" : Text) ++ t)) _
      rw [List.append_assoc]
      exact .fixed (n := 9) (k := [Kind.kwFrom.lexeme]) (by decide) (.quote (b :: r) rfl (.semicolon h))
  cases wildcard with
  | true => cases path <;> exact .mark (k := .star) (by decide) rfl hpath
  | false => cases path <;> exact .name hn rfl hpath

theorem spells_struct {depth : Nat} {name u v : Text} {ks ms : List Lexeme}
    (hn : name.isName = true) (hu : SpellsFreely u ks) (hv : SpellsFreely v ms) :
    SpellsFreely
      (Print.indent depth ++ ("struct " : Text) ++ name ++ (" \x7b\n" : Text) ++ u ++ v ++
        Print.indent depth ++ ("\x7d" : Text))
      (Kind.kwStruct.lexeme :: .ident name :: Kind.lbrace.lexeme ::
        (ks ++ (ms ++ [Kind.rbrace.lexeme]))) := by
  intro t ls hs
  simp only [List.append_assoc, List.cons_append, List.nil_append]
  refine .indent depth (.fixed (n := 9) (k := [Kind.kwStruct.lexeme]) (by decide) ?_)
  exact .name hn rfl (.openArms (hu (hv (.indent depth (.rbrace hs)))))

/-! ### Trees -/

/-- A text for a list and the way it ends. -/
theorem spells_braces {u : Text} {ks : List Lexeme} (h : SpellsFreely u ks) (depth : Nat) :
    SpellsFreely (("\x7b\n" : Text) ++ u ++ Print.indent depth ++ ("\x7d" : Text))
      (Kind.lbrace.lexeme :: (ks ++ [Kind.rbrace.lexeme])) := by
  intro t ls hs
  simp only [List.append_assoc, List.cons_append, List.nil_append]
  exact .openBlock (h (.indent depth (.rbrace hs)))

mutual

theorem spells_expr (depth : Nat) : ∀ e, Every.expr .spellable e = true →
    Spells (Print.expr depth e) (expr e)
  | .number _ v, h => fun _ _ ht hs => .number (Number.isNumber_source h) ht hs
  | .string _ v, _ => fun _ _ ht hs => .quote v ht hs
  | .bool _ true, _ => fun _ _ ht hs => .word (w := "true") (by decide) (Spelled.breaks_word ht) hs
  | .bool _ false, _ => fun _ _ ht hs => .word (w := "false") (by decide) (Spelled.breaks_word ht) hs
  | .nil _, _ => fun _ _ ht hs => .word (w := "nil") (by decide) (Spelled.breaks_word ht) hs
  | .ident _ name, h => fun _ _ ht hs => .name h ht hs
  | .array _ elems, h => fun _ _ ht hs => by
    simp only [Every.expr, Bool.and_eq_true] at h
    simp only [Print.expr, expr, List.append_assoc, List.cons_append, List.nil_append]
    exact .lbracket (spells_exprs depth elems h.2 rfl (.rbracket hs))
  | .object _ [], _ => fun _ _ _ hs => .braces hs
  | .object _ (e :: es), h => fun _ _ ht hs => by
    simp only [Every.expr, Bool.and_eq_true] at h
    simp only [Print.expr, expr, List.append_assoc, List.cons_append, List.nil_append]
    refine .fixed (n := 9) (k := [Kind.lbrace.lexeme]) (by decide) ?_
    exact spells_entries depth (e :: es) h.2 rfl (.fixed (n := 9) (k := [Kind.rbrace.lexeme]) (by decide) hs)
  | .unary _ op operand, h => fun _ _ ht hs => by
    simp only [Every.expr, NodeRule.spellable, Bool.and_eq_true, List.contains_iff_mem] at h
    exact spells_unary h.1 ((spells_expr depth operand h.2).parens _)
      ((startsWell_expr depth operand h.2).parens _) ht hs
  | .binary _ op left right, h => fun _ _ ht hs => by
    simp only [Every.expr, NodeRule.spellable, Bool.and_eq_true, List.contains_iff_mem] at h
    obtain ⟨hs₁, hk, hc⟩ := binary_kind op h.1.1
    simp only [Print.expr, expr, List.append_assoc, List.cons_append, hs₁]
    exact (spells_expr depth left h.1.2).parens _ rfl
      (spells_operator hk hc ((spells_expr depth right h.2).parens _ ht hs))
  | .assign _ op target value, h => fun _ _ ht hs => by
    simp only [Every.expr, NodeRule.spellable, Bool.and_eq_true, List.contains_iff_mem] at h
    obtain ⟨hs₁, hk, hc⟩ := assign_kind op h.1.1
    simp only [Print.expr, expr, List.append_assoc, List.cons_append, hs₁]
    exact (spells_expr depth target h.1.2).parens _ rfl
      (spells_operator hk hc (spells_expr depth value h.2 ht hs))
  | .step _ op target, h => fun _ _ ht hs => by
    simp only [Every.expr, NodeRule.spellable, Bool.and_eq_true, Bool.or_eq_true,
      decide_eq_true_eq] at h
    simp only [Print.expr, expr, List.append_assoc]
    rcases h.1 with rfl | rfl
    · exact (spells_expr depth target h.2).parens _ rfl
        (.fixed (n := 9) (u := "++") (k := [Kind.plusPlus.lexeme]) (by decide) hs)
    · exact (spells_expr depth target h.2).parens _ rfl
        (.fixed (n := 9) (u := "--") (k := [Kind.minusMinus.lexeme]) (by decide) hs)
  | .range _ first last, h => fun _ _ ht hs => by
    simp only [Every.expr, Bool.and_eq_true] at h
    simp only [Print.expr, expr, List.append_assoc, List.cons_append]
    exact (spells_expr depth first h.1.2).parens _ rfl
      (.fixed (n := 9) (k := [Kind.dotDot.lexeme]) (by decide)
        ((spells_expr depth last h.2).parens _ ht hs))
  | .member _ object property, h => fun _ _ ht hs => by
    simp only [Every.expr, NodeRule.spellable, Bool.and_eq_true] at h
    simp only [Print.expr, expr, List.append_assoc, List.cons_append, List.nil_append]
    exact (spells_expr depth object h.2).parens _ (breaks_property h.1 _)
      (spells_property h.1 ht hs)
  | .index _ object index, h => fun _ _ ht hs => by
    simp only [Every.expr, Bool.and_eq_true] at h
    simp only [Print.expr, expr, List.append_assoc, List.cons_append, List.nil_append]
    exact (spells_expr depth object h.1.2).parens _ rfl
      (.lbracket (spells_expr depth index h.2 rfl (.rbracket hs)))
  | .call _ callee args, h => fun _ _ ht hs => by
    simp only [Every.expr, Bool.and_eq_true] at h
    simp only [Print.expr, expr, List.append_assoc, List.cons_append, List.nil_append]
    exact (spells_expr depth callee h.1.2).parens _ rfl
      (.lparen (spells_exprs depth args h.2 rfl (.rparen hs)))
  | .construct _ _ callee args, h => fun _ _ ht hs => by
    simp only [Every.expr, Bool.and_eq_true] at h
    simp only [Print.expr, expr, List.append_assoc, List.cons_append, List.nil_append]
    refine .fixed (n := 9) (k := [Kind.kwNew.lexeme]) (by decide) ?_
    exact (spells_expr depth callee h.1.2).parens _ rfl
      (.lparen (spells_exprs depth args h.2 rfl (.rparen hs)))
  | .function ⟨_, _, params, result, body⟩, h => fun _ _ ht hs => by
    simp only [Every.expr, Every.function, NodeRule.spellable, Bool.and_eq_true] at h
    obtain ⟨-, ⟨hp, hr⟩, hb⟩ := h
    simp only [Print.expr, expr, List.append_assoc, List.cons_append]
    refine .word (w := "fn") (by decide) rfl (spells_signature hp hr rfl ?_)
    exact .space (spells_block depth body hb hs)
  | .choose m, h => fun _ _ ht hs => by
    simp only [Every.expr, Bool.and_eq_true] at h
    exact spells_choice depth m h.2 hs

theorem spells_exprs (depth : Nat) : ∀ es, Every.exprs .spellable es = true →
    Spells (Print.exprs depth es) (exprs es)
  | [], _ => fun _ _ _ hs => hs
  | [e], h => fun _ _ ht hs => by
    simp only [Every.exprs, Bool.and_eq_true] at h
    exact spells_expr depth e h.1 ht hs
  | e :: e' :: es, h => fun _ _ ht hs => by
    rw [Every.exprs, Bool.and_eq_true] at h
    simp only [Print.exprs, exprs, List.append_assoc, List.cons_append]
    exact spells_expr depth e h.1 rfl (.comma (spells_exprs depth (e' :: es) h.2 ht hs))

theorem spells_entries (depth : Nat) : ∀ es, Every.entries .spellable es = true →
    Spells (Print.entries depth es) (entries es)
  | [], _ => fun _ _ _ hs => hs
  | [(k, e)], h => fun _ _ ht hs => by
    simp only [Every.entries, Bool.and_eq_true] at h
    simp only [Print.entries, entries, List.append_assoc, List.cons_append]
    exact spells_key k rfl (.colon (spells_expr depth e h.1 ht hs))
  | (k, e) :: e' :: es, h => fun _ _ ht hs => by
    rw [Every.entries, Bool.and_eq_true] at h
    simp only [Print.entries, entries, List.append_assoc, List.cons_append]
    refine spells_key k rfl (.colon (spells_expr depth e h.1 rfl (.comma ?_)))
    exact spells_entries depth (e' :: es) h.2 ht hs

theorem spells_choice (depth : Nat) : ∀ m, Every.choice .spellable m = true →
    SpellsFreely (Print.choice depth m) (choice m)
  | ⟨_, subject, list⟩, h => fun _ _ hs => by
    simp only [Every.choice, Bool.and_eq_true] at h
    simp only [Print.choice, choice, List.append_assoc, List.cons_append, List.nil_append]
    refine .fixed (n := 9) (k := [Kind.kwMatch.lexeme]) (by decide) ?_
    refine spells_expr depth subject h.1 rfl (.openArms ?_)
    exact spells_arms depth list h.2 (.indent depth (.rbrace hs))

theorem spells_arms (depth : Nat) : ∀ as, Every.arms .spellable as = true →
    SpellsFreely (Print.arms depth as) (arms as)
  | [], _ => fun _ _ hs => hs
  | a :: as, h => fun _ _ hs => by
    simp only [Every.arms, Bool.and_eq_true] at h
    simp only [Print.arms, arms, List.append_assoc, List.cons_append]
    refine .indent _ (spells_arm (depth + 1) a h.1 rfl ?_)
    exact .fixed (n := 9) (k := [Kind.comma.lexeme]) (by decide) (spells_arms depth as h.2 hs)

theorem spells_arm (depth : Nat) : ∀ a, Every.arm .spellable a = true →
    Spells (Print.arm depth a) (arm a)
  | ⟨_, none, body⟩, h => fun _ _ ht hs => by
    simp only [Every.arm, Bool.and_eq_true] at h
    simp only [Print.arm, arm, List.append_assoc, List.cons_append]
    exact .fixed (n := 9) (k := [.ident "_", Kind.fatArrow.lexeme]) (by decide)
      (spells_armBody depth body h.2 ht hs)
  | ⟨_, some e, body⟩, h => fun _ _ ht hs => by
    simp only [Every.arm, Bool.and_eq_true] at h
    simp only [Print.arm, arm, List.append_assoc, List.cons_append]
    exact spells_expr depth e h.1.2 rfl (.arrow (spells_armBody depth body h.2 ht hs))

theorem spells_armBody (depth : Nat) : ∀ b, Every.armBody .spellable b = true →
    Spells (Print.armBody depth b) (armBody b)
  | .block b, h => (spells_block depth b h).spells
  | .value _ e, h => (spells_expr depth e h).parens _

theorem spells_block (depth : Nat) : ∀ b, Every.block .spellable b = true →
    SpellsFreely (Print.block depth b) (block b)
  | ⟨_, []⟩, _ => fun _ _ hs => .braces hs
  | ⟨_, s :: ss⟩, h => spells_braces (spells_stmts (depth + 1) (s :: ss) h) depth

theorem spells_stmts (depth : Nat) : ∀ ss, Every.stmts .spellable ss = true →
    SpellsFreely (Print.stmts depth ss) (stmts ss)
  | [], _ => fun _ _ hs => hs
  | s :: ss, h => fun _ _ hs => by
    simp only [Every.stmts, Bool.and_eq_true] at h
    simp only [Print.stmts, stmts, List.append_assoc]
    exact spells_stmt depth s h.1 (.lineEnd (spells_stmts depth ss h.2 hs))

theorem spells_cond (depth : Nat) : ∀ c, Every.cond .spellable c = true →
    SpellsFreely (Print.cond depth c) (cond c)
  | ⟨_, c, yes, none⟩, h => fun _ _ hs => by
    simp only [Every.cond, Bool.and_eq_true] at h
    simp only [Print.cond, cond, List.append_assoc, List.cons_append]
    refine .fixed (n := 9) (k := [Kind.kwIf.lexeme]) (by decide) ?_
    exact spells_expr depth c h.1 rfl (.space (spells_block depth yes h.2 hs))
  | ⟨_, c, yes, some no⟩, h => fun _ _ hs => by
    simp only [Every.cond, Bool.and_eq_true] at h
    simp only [Print.cond, cond, List.append_assoc, List.cons_append]
    refine .fixed (n := 9) (k := [Kind.kwIf.lexeme]) (by decide) ?_
    refine spells_expr depth c h.1.1 rfl (.space (spells_block depth yes h.1.2 ?_))
    exact .fixed (n := 9) (k := [Kind.kwElse.lexeme]) (by decide)
      (spells_elseBranch depth no h.2 hs)

theorem spells_elseBranch (depth : Nat) : ∀ b, Every.elseBranch .spellable b = true →
    SpellsFreely (Print.elseBranch depth b) (elseBranch b)
  | .block b, h => spells_block depth b h
  | .chain next, h => spells_cond depth next h

theorem spells_function (depth : Nat) : ∀ f, f.name.isName = true →
    Every.function .spellable f = true → SpellsFreely (Print.function depth f) (function f)
  | ⟨_, name, params, result, body⟩, hn, h => fun _ _ hs => by
    simp only [Every.function, NodeRule.spellable, Bool.and_eq_true] at h
    obtain ⟨⟨hp, hr⟩, hb⟩ := h
    simp only [Print.function, function, List.append_assoc, List.cons_append]
    refine .fixed (n := 9) (k := [Kind.kwFn.lexeme]) (by decide) (.name hn rfl ?_)
    exact spells_signature hp hr rfl (.space (spells_block depth body hb hs))

theorem spells_functions (depth : Nat) (spaced : Bool) : ∀ fs, fs.all (·.name.isName) = true →
    Every.functions .spellable fs = true →
    SpellsFreely (Print.methods depth spaced fs) (functions fs)
  | [], _, _ => fun _ _ hs => hs
  | f :: fs, hn, h => fun _ _ hs => by
    simp only [List.all_cons, Bool.and_eq_true] at hn
    simp only [Every.functions, Bool.and_eq_true] at h
    simp only [Print.methods, functions, List.append_assoc]
    have hrest := Spelled.indent depth
      (spells_function depth f hn.1 h.1 (.lineEnd (spells_functions depth true fs hn.2 h.2 hs)))
    cases spaced with
    | false => exact hrest
    | true => exact .lineEnd hrest

theorem spells_stmt (depth : Nat) : ∀ s, Every.stmt .spellable s = true →
    SpellsFreely (Print.stmt depth s) (stmt s)
  | .block b, h => fun _ _ hs => by
    simp only [Every.stmt, Bool.and_eq_true] at h
    simp only [Print.stmt, stmt, List.append_assoc]
    exact .indent depth (spells_block depth b h.2 hs)
  | .expr _ e, h => fun _ _ hs => by
    simp only [Every.stmt, Bool.and_eq_true] at h
    simp only [Print.stmt, stmt, List.append_assoc]
    exact .indent depth ((spells_expr depth e h.2).parens _ rfl (.semicolon hs))
  | .declare _ name constant type none, h => fun _ _ hs => by
    simp only [Every.stmt, NodeRule.spellable, Bool.and_eq_true] at h
    simp only [Print.stmt, stmt, List.append_assoc, List.cons_append, List.nil_append]
    refine .indent depth (spells_declarator constant h.1 (breaks_ascription type rfl) ?_)
    exact spells_ascription type h.2 rfl (.semicolon hs)
  | .declare _ name constant type (some e), h => fun _ _ hs => by
    simp only [Every.stmt, NodeRule.spellable, Bool.and_eq_true] at h
    simp only [Print.stmt, stmt, List.append_assoc, List.cons_append, List.nil_append]
    refine .indent depth (spells_declarator constant h.1.1 (breaks_ascription type rfl) ?_)
    refine spells_ascription type h.1.2 rfl ?_
    exact .fixed (n := 9) (k := [Kind.assign.lexeme]) (by decide)
      (spells_expr depth e h.2 rfl (.semicolon hs))
  | .function f, h => fun _ _ hs => by
    simp only [Every.stmt, NodeRule.spellable, Bool.and_eq_true] at h
    simp only [Print.stmt, stmt, List.append_assoc]
    exact .indent depth (spells_function depth f h.1 h.2 hs)
  | .cond c, h => fun _ _ hs => by
    simp only [Every.stmt, Bool.and_eq_true] at h
    simp only [Print.stmt, stmt, List.append_assoc]
    exact .indent depth (spells_cond depth c h.2 hs)
  | .whileLoop _ c body, h => fun _ _ hs => by
    simp only [Every.stmt, Bool.and_eq_true] at h
    simp only [Print.stmt, stmt, List.append_assoc, List.cons_append]
    refine .indent depth (.fixed (n := 9) (k := [Kind.kwWhile.lexeme]) (by decide) ?_)
    exact spells_expr depth c h.1.2 rfl (.space (spells_block depth body h.2 hs))
  | .foreachLoop _ value index iterable body, h => fun _ _ hs => by
    simp only [Every.stmt, NodeRule.spellable, Bool.and_eq_true, Bool.or_eq_true] at h
    obtain ⟨⟨⟨hv, hi⟩, he⟩, hb⟩ := h
    simp only [Print.stmt, stmt, List.append_assoc, List.cons_append]
    refine .indent depth (.fixed (n := 9) (k := [Kind.kwForeach.lexeme]) (by decide) ?_)
    have hrest := Spelled.fixed (n := 9) (u := " in ") (k := [Kind.kwIn.lexeme]) (by decide)
      (spells_expr depth iterable he rfl (.space (spells_block depth body hb hs)))
    cases index with
    | nil => exact .name hv rfl hrest
    | cons b r =>
      exact .name hv rfl (.comma (.name (hi.resolve_left Bool.false_ne_true) rfl hrest))
  | .importing _ name wildcard path, h => fun _ _ hs => by
    simp only [Every.stmt, NodeRule.spellable] at h
    simp only [Print.stmt, stmt, List.append_assoc, List.cons_append, List.nil_append]
    refine .indent depth (.fixed (n := 9) (k := [Kind.kwImport.lexeme]) (by decide) ?_)
    exact spells_import path h hs
  | .struct _ name [] [], h => fun _ _ hs => by
    simp only [Every.stmt, NodeRule.spellable, Bool.and_eq_true] at h
    simp only [Print.stmt, stmt, List.append_assoc, List.cons_append, List.nil_append]
    refine .indent depth (.fixed (n := 9) (k := [Kind.kwStruct.lexeme]) (by decide) ?_)
    exact .name h.1.1.1 rfl (.space (.braces hs))
  | .struct _ name (f :: fs) ms, h => by
    simp only [Every.stmt, NodeRule.spellable, Bool.and_eq_true] at h
    exact spells_struct h.1.1.1 (spells_fields _ h.1.1.2)
      (spells_functions (depth + 1) true ms h.1.2 h.2)
  | .struct _ name [] (m :: ms), h => by
    simp only [Every.stmt, NodeRule.spellable, Bool.and_eq_true] at h
    exact spells_struct h.1.1.1 (spells_fields _ h.1.1.2)
      (spells_functions (depth + 1) false (m :: ms) h.1.2 h.2)
  | .enum _ name members, h => fun _ _ hs => by
    simp only [Every.stmt, NodeRule.spellable, Bool.and_eq_true, List.all_eq_true] at h
    simp only [Print.stmt, stmt, List.append_assoc, List.cons_append, List.nil_append]
    refine .indent depth (.fixed (n := 9) (k := [Kind.kwEnum.lexeme]) (by decide) ?_)
    refine .name h.1 rfl (.fixed (n := 9) (k := [Kind.lbrace.lexeme]) (by decide) ?_)
    exact spells_names h.2 rfl (.fixed (n := 9) (k := [Kind.rbrace.lexeme]) (by decide) hs)
  | .choose _ m, h => fun _ _ hs => by
    simp only [Every.stmt, Bool.and_eq_true] at h
    simp only [Print.stmt, stmt, List.append_assoc]
    exact .indent depth (spells_choice depth m h.2 hs)
  | .breakLoop _, _ => fun _ _ hs => by
    simp only [Print.stmt, stmt, List.append_assoc]
    exact .indent depth (.fixed (n := 9) (by decide) hs)
  | .continueLoop _, _ => fun _ _ hs => by
    simp only [Print.stmt, stmt, List.append_assoc]
    exact .indent depth (.fixed (n := 9) (by decide) hs)
  | .returning _ none, _ => fun _ _ hs => by
    simp only [Print.stmt, stmt, List.append_assoc]
    exact .indent depth (.fixed (n := 9) (by decide) hs)
  | .returning _ (some e), h => fun _ _ hs => by
    simp only [Every.stmt, Bool.and_eq_true] at h
    simp only [Print.stmt, stmt, List.append_assoc, List.cons_append, List.nil_append]
    refine .indent depth (.fixed (n := 9) (k := [Kind.kwReturn.lexeme]) (by decide) ?_)
    exact spells_expr depth e h.2 rfl (.semicolon hs)

end

theorem spells_program {ss : List Stmt} (h : Every.stmts .spellable ss = true)
    (previous : Option Bool) : SpellsFreely (Print.program previous ss) (stmts ss) := by
  induction ss generalizing previous with
  | nil => exact fun _ _ hs => hs
  | cons s ss ih =>
    intro t ls hs
    simp only [Every.stmts, Bool.and_eq_true] at h
    have hrest := spells_stmt 0 s h.1 (.lineEnd (ih h.2 (some s.isDefinition) hs))
    simp only [Print.program, stmts, List.append_assoc]
    split
    · split
      · exact .lineEnd hrest
      · exact hrest
    · exact hrest

end Spell

/-- The lexemes of a program. -/
def Program.spell (p : Block) : List Lexeme := Spell.stmts p.body

/-- Scanning the text of a program gives its lexemes. -/
theorem Program.spelled_print {p : Block} (h : Program.spellable p = true) :
    Spelled (Program.print p) (Program.spell p ++ [.eof]) := by
  obtain ⟨s, body⟩ := p
  have := Spell.spells_program h none .nil
  rwa [List.append_nil] at this

end ScriptLang
