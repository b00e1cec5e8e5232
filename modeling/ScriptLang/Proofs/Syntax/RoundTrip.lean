import ScriptLang.Proofs.Syntax.Bare
import ScriptLang.Proofs.Syntax.Ensured
import ScriptLang.Proofs.Syntax.Scanned
import ScriptLang.Proofs.Syntax.Statements

/-!
# Reading the text of a program

By induction over trees, every expression, arm, block and statement that a text can spell is read back
from its lexemes or, if it is not legible, is not. So a program that was read from a text is read back
from its own text exactly when it is legible: formatting is stable on the programs for which
`Program.legible` holds and on no others.
-/

namespace ScriptLang

open ScriptLang.Parser ScriptLang.Expr

namespace Spell

theorem opening_pattern {a : MatchArm} (h : Every.arm .spellable a = true) :
    ∀ e ∈ a.pattern, Opening e (Spell.expr e) := by
  obtain ⟨sp, _ | e, body⟩ := a
  · exact nofun
  · simp only [Every.arm, Bool.and_eq_true] at h
    rintro _ ⟨⟩
    exact opening e h.1.2

end Spell

namespace Reread

mutual

theorem of_expr : ∀ e, Every.expr .spellable e = true → Reread e
  | .number _ v, h => number h
  | .string _ v, _ => string v
  | .bool _ b, _ => bool b
  | .nil _, _ => nil
  | .ident _ name, _ => ident name
  | .array _ es, h => by
    have hs : Every.exprs .spellable es = true := (Bool.and_eq_true_iff.1 h).2
    exact array hs (of_exprs es hs)
  | .object _ es, h => object (of_entries es (Bool.and_eq_true_iff.1 h).2)
  | .unary _ op e, h => unary h (of_expr e (Bool.and_eq_true_iff.1 h).2)
  | .binary _ op l r, h => by
    have hs := h
    simp only [Every.expr, Bool.and_eq_true] at hs
    exact binary h (of_expr l hs.1.2) (of_expr r hs.2)
  | .assign _ op l r, h => by
    have hs := h
    simp only [Every.expr, Bool.and_eq_true] at hs
    exact assign h (of_expr l hs.1.2) (of_expr r hs.2)
  | .range _ l r, h => by
    have hs := h
    simp only [Every.expr, Bool.and_eq_true] at hs
    exact range h (of_expr l hs.1.2) (of_expr r hs.2)
  | .step _ op e, h => step h (of_expr e (Bool.and_eq_true_iff.1 h).2)
  | .member _ e p, h => member p (of_expr e (Bool.and_eq_true_iff.1 h).2)
  | .index _ l r, h => by
    simp only [Every.expr, Bool.and_eq_true] at h
    exact index (of_expr l h.1.2) (of_expr r h.2)
  | .call _ e args, h => by
    simp only [Every.expr, Bool.and_eq_true] at h
    exact call h.2 (of_expr e h.1.2) (of_exprs args h.2)
  | .construct _ _ e args, h => by
    have hs := h
    simp only [Every.expr, Bool.and_eq_true] at hs
    exact construct h (of_expr e hs.1.2) (of_exprs args hs.2)
  | .function ⟨s, name, params, result, body⟩, h => by
    have hs := h
    simp only [Every.expr, Every.function, NodeRule.spellable, Bool.and_eq_true,
      List.isEmpty_iff] at hs
    obtain ⟨rfl, -, hbody⟩ := hs
    exact function h (of_block body hbody)
  | .choose m, h => choose (of_choice m (Bool.and_eq_true_iff.1 h).2)

theorem of_exprs : ∀ es, Every.exprs .spellable es = true → ∀ e ∈ es, Reread e
  | [], _ => nofun
  | e :: es, h => List.forall_mem_cons.2 ⟨of_expr e (Bool.and_eq_true_iff.1 h).1,
    of_exprs es (Bool.and_eq_true_iff.1 h).2⟩

theorem of_entries : ∀ es, Every.entries .spellable es = true → ∀ p ∈ es, Reread p.2
  | [], _ => nofun
  | (_, e) :: es, h => List.forall_mem_cons.2 ⟨of_expr e (Bool.and_eq_true_iff.1 h).1,
    of_entries es (Bool.and_eq_true_iff.1 h).2⟩

theorem of_choice : ∀ m, Every.choice .spellable m = true → RereadChoice m
  | ⟨_, e, as⟩, h => .of_arms (of_expr e (Bool.and_eq_true_iff.1 h).1)
    (of_arms as (Bool.and_eq_true_iff.1 h).2)

theorem of_arms : ∀ as, Every.arms .spellable as = true →
    ∀ a ∈ as, RereadArm a ∧ ∀ e ∈ a.pattern, Opening e (Spell.expr e)
  | [], _ => nofun
  | a :: as, h => List.forall_mem_cons.2
    ⟨⟨of_arm a (Bool.and_eq_true_iff.1 h).1, Spell.opening_pattern (Bool.and_eq_true_iff.1 h).1⟩,
      of_arms as (Bool.and_eq_true_iff.1 h).2⟩

theorem of_arm : ∀ a, Every.arm .spellable a = true → RereadArm a
  | ⟨_, none, body⟩, h => .wild (of_armBody body h)
  | ⟨_, some e, body⟩, h => by
    simp only [Every.arm, Bool.and_eq_true] at h
    exact .pattern (of_expr e h.1.2) (Spell.opening e h.1.2) (of_armBody body h.2)

theorem of_armBody : ∀ b, Every.armBody .spellable b = true → RereadBody b
  | .block b, h => of_block b h
  | .value _ e, h => ⟨of_expr e h, Spell.opening e h⟩

theorem of_function : ∀ f, Every.function .spellable f = true → RereadFunction f
  | ⟨_, name, params, result, body⟩, h => by
    simp only [Every.function, NodeRule.spellable, Bool.and_eq_true] at h
    exact .of_body h.1.1 h.1.2 (of_block body h.2)

theorem of_functions : ∀ fs, Every.functions .spellable fs = true → ∀ f ∈ fs, RereadFunction f
  | [], _ => nofun
  | f :: fs, h => List.forall_mem_cons.2 ⟨of_function f (Bool.and_eq_true_iff.1 h).1,
    of_functions fs (Bool.and_eq_true_iff.1 h).2⟩

theorem of_block : ∀ b, Every.block .spellable b = true → RereadBlock b
  | ⟨_, ss⟩, h => .of_stmts (of_stmts ss h)

theorem of_stmts : ∀ ss, Every.stmts .spellable ss = true → ∀ s ∈ ss, RereadStmt s
  | [], _ => nofun
  | s :: ss, h => List.forall_mem_cons.2 ⟨of_stmt s (Bool.and_eq_true_iff.1 h).1,
    of_stmts ss (Bool.and_eq_true_iff.1 h).2⟩

theorem of_cond : ∀ c, Every.cond .spellable c = true → RereadCond c
  | ⟨_, e, yes, none⟩, h => .of_parts (of_expr e (Bool.and_eq_true_iff.1 h).1)
    (of_block yes (Bool.and_eq_true_iff.1 h).2) nofun
  | ⟨_, e, yes, some no⟩, h => by
    simp only [Every.cond, Bool.and_eq_true] at h
    refine .of_parts (of_expr e h.1.1) (of_block yes h.1.2) ?_
    rintro _ ⟨⟩
    exact of_elseBranch no h.2

theorem of_elseBranch : ∀ b, Every.elseBranch .spellable b = true → RereadElse b
  | .block b, h => of_block b h
  | .chain c, h => of_cond c h

theorem of_stmt : ∀ s, Every.stmt .spellable s = true → RereadStmt s
  | .expr _ e, h => by
    simp only [Every.stmt, Bool.and_eq_true] at h
    exact .expr (of_expr e h.2) (Spell.opening e h.2)
  | .block b, h => .block (of_block b h)
  | .declare _ name constant type none, h => .declare (Bool.and_eq_true_iff.1 h).2
  | .declare _ name constant type (some e), h => by
    simp only [Every.stmt, NodeRule.spellable, Bool.and_eq_true] at h
    exact .declareAs h.1.2 (of_expr e h.2)
  | .function f, h => .function (of_function f (Bool.and_eq_true_iff.1 h).2)
  | .cond c, h => .cond (of_cond c h)
  | .whileLoop _ e body, h => by
    simp only [Every.stmt, Bool.and_eq_true] at h
    exact .whileLoop (of_expr e h.1.2) (of_block body h.2)
  | .foreachLoop _ value index e body, h => by
    simp only [Every.stmt, Bool.and_eq_true] at h
    exact .foreachLoop (of_expr e h.1.2) (of_block body h.2)
  | .importing _ name wildcard path, h => by
    refine .importing fun hw => ?_
    subst hw
    exact List.isEmpty_iff.1 h
  | .struct _ name fields methods, h => by
    simp only [Every.stmt, NodeRule.spellable, Bool.and_eq_true] at h
    exact .struct h.1.1.2 (of_functions methods h.2)
  | .enum .., _ => .enum
  | .choose _ m, h => .choose (of_choice m h)
  | .breakLoop _, _ => .breakLoop
  | .continueLoop _, _ => .continueLoop
  | .returning _ none, _ => .returnNil
  | .returning _ (some e), h => by
    simp only [Every.stmt, Bool.and_eq_true] at h
    exact .returning (of_expr e h.2) (Spell.opening e h.2)

end

end Reread

/-! ### Programs -/

/-- Statements with the end of the text behind them. -/
theorem settles_program {d : Nat} : ∀ (ss : List Stmt) (n : Nat), ss.length < n →
    (∀ s ∈ ss, RereadStmt s) → 4 * (Spell.stmts ss).length + 1 ≤ d →
    Settles (Parser.program (Rules.ofDepth d) n) (Spell.stmts ss) [.eof] (Every.stmts .legible ss)
      fun cs => Bare.stmts cs = Bare.stmts ss := by
  intro ss
  induction ss with
  | nil =>
    intro n hn _ _
    obtain ⟨n, rfl⟩ := Nat.exists_eq_add_one_of_ne_zero (Nat.ne_of_gt hn)
    rw [Parser.program]
    exact .seesThen rfl (.pure rfl)
  | cons s ss ih =>
    intro n hn h hd
    obtain ⟨n, rfl⟩ := Nat.exists_eq_add_one_of_ne_zero (Nat.ne_of_gt (Nat.zero_lt_of_lt hn))
    simp only [Spell.stmts, List.length_append, List.length_cons] at hd hn
    obtain ⟨hstarts, hs⟩ := h s (by simp)
    have hne : Spell.stmt s ≠ [] := fun hnil => hstarts (by rw [hnil]; decide)
    rw [Parser.program, Spell.stmts, Every.stmts]
    refine .seesElse (fun hk => hstarts ?_) ?_
    · rw [List.append_assoc, Lexeme.first_append hne] at hk
      simp [hk]
    have hss : ∀ x ∈ ss, RereadStmt x := fun x hx => h x (by simp [hx])
    refine .bind (hs d _ (by omega) (Spell.first_stmts hss (by decide) [])) (fun c hc => ?_)
      fun c hc => ?_
    · exact (ih n (by omega) hss (by omega)).map fun cs => by simp [Bare.stmts, hc]
    · exact .bind fun cs => .pure (by simp [Bare.stmts, hc])

end ScriptLang

namespace ScriptLang

open ScriptLang.Parser

theorem Stream.ahead_ofTokens {ts : List Token} {ls : List Lexeme}
    (h : ts.map Token.lexeme = ls ++ [.eof]) :
    (Stream.ofTokens ts).ahead = ls ++ [.eof] ∧ (Stream.ofTokens ts).depth = 4 * (ls.length + 2) := by
  have hlast : ts.getLast?.map Token.kind = some .eof := by
    have := congrArg List.getLast? h
    simp only [List.getLast?_map, List.getLast?_append, List.getLast?_singleton,
      Option.some_or] at this
    obtain ⟨t, ht, heq⟩ := Option.map_eq_some_iff.1 this
    rw [ht]
    exact congrArg some (congrArg Lexeme.kind heq)
  have hlength := congrArg List.length h
  rw [Stream.ofTokens, if_pos hlast]
  cases ts with
  | nil => simp at hlast
  | cons t ts =>
    simp only [List.length_map, List.length_cons, List.length_append, List.length_nil] at hlength
    refine ⟨h, ?_⟩
    change 4 * (ts.length + 2) = 4 * (ls.length + 2)
    omega

/-- What reading makes of the text of a spellable program. -/
theorem Program.settles_print {p : Block} (h : Program.spellable p = true) (file : Text) :
    (Program.legible p = true →
      ∃ q, Program.parse (Program.print p) file = .ok q ∧ Program.bare q = Program.bare p) ∧
    (Program.legible p = false →
      ∀ q, Program.parse (Program.print p) file = .ok q → Program.bare q ≠ Program.bare p) := by
  obtain ⟨sp, body⟩ := p
  obtain ⟨ts, hts, hls⟩ := Program.spelled_print h file {}
  obtain ⟨hahead, hdepth⟩ := Stream.ahead_ofTokens hls
  have hstmts : ∀ s ∈ body, RereadStmt s := Reread.of_stmts body h
  have hcount := Spell.count_le_stmts hstmts
  have hparse (q : Block) : Program.parse (Program.print ⟨sp, body⟩) file = .ok q ↔
      ∃ s, programReader (Stream.ofTokens ts).depth (Stream.ofTokens ts) = .ok (q, s) := by
    rw [← Program.ofTokens_eq_ok, Program.parse, Token.scan, hts]
  rw [Program.spell] at hahead hdepth
  have hread : Settles (programReader (Stream.ofTokens ts).depth) (Spell.stmts body) [.eof]
      (Every.stmts .legible body) fun q => Program.bare q = Program.bare ⟨sp, body⟩ := by
    rw [hdepth]
    generalize hd : 4 * ((Spell.stmts body).length + 2) = d
    refine .peekKind fun first _ => .last (settles_program body d (by omega) hstmts (by omega))
      (fun ss hss => .peekKind fun last _ => .pure ?_) fun ss hss => .bind fun _ => .pure fun heq => ?_
    · change Block.mk {} (Bare.stmts ss) = ⟨{}, Bare.stmts body⟩
      rw [hss]
    · exact hss (Block.mk.inj heq).2
  obtain ⟨hgood, hbad⟩ := hread _ (by simp) hahead
  refine ⟨fun hg => ?_, fun hg q hq => ?_⟩
  · obtain ⟨q, s, hq, -, heq⟩ := hgood hg
    exact ⟨q, (hparse q).2 ⟨s, hq⟩, heq⟩
  · obtain ⟨s, hs⟩ := (hparse q).1 hq
    exact hbad hg q s hs

/-- A program that was read from a text is read back from its own text, with the same tree and so with
the same text again, exactly when it is legible. -/
theorem Program.reads_print_iff_legible {source file : Text} {p : Block}
    (h : Program.parse source file = .ok p) (file' : Text) :
    (∃ q, Program.parse (Program.print p) file' = .ok q ∧ Program.bare q = Program.bare p ∧
      Program.print q = Program.print p) ↔ Program.legible p = true := by
  obtain ⟨hgood, hbad⟩ := Program.settles_print (Program.spellable_of_parse h) file'
  constructor
  · rintro ⟨q, hq, heq, -⟩
    cases hlegible : Program.legible p with
    | true => rfl
    | false => exact absurd heq (hbad hlegible q hq)
  · intro hlegible
    obtain ⟨q, hq, heq⟩ := hgood hlegible
    refine ⟨q, hq, heq, ?_⟩
    rw [← Bare.print_bare q, heq, Bare.print_bare]

/-- A text whose program is legible. -/
theorem Program.reads_print_assignment : ∃ p q,
    Program.parse "x = (1 + 2) * 0.5;" "main" = .ok p ∧
      Program.parse (Program.print p) "main" = .ok q ∧ Program.bare q = Program.bare p ∧
      Program.print q = Program.print p := by
  obtain ⟨p, hp, hlegible⟩ : ∃ p, Program.parse "x = (1 + 2) * 0.5;" "main" = .ok p ∧
      Program.legible p = true := ⟨_, rfl, rfl⟩
  obtain ⟨q, hq⟩ := (Program.reads_print_iff_legible hp "main").2 hlegible
  exact ⟨p, q, hp, hq⟩

/-- Not every text has a legible program: an import of everything from the empty path is written
without its path. -/
theorem Program.print_import_not_read : ¬∀ (source file : Text) (p : Block),
    Program.parse source file = .ok p →
      ∃ q, Program.parse (Program.print p) file = .ok q ∧ Program.bare q = Program.bare p := by
  intro h
  obtain ⟨p, hp, e, he⟩ : ∃ p, Program.parse "import * from \"\";" "main" = .ok p ∧
      ∃ e, Program.parse (Program.print p) "main" = .error e := ⟨_, rfl, _, rfl⟩
  obtain ⟨q, hq, -⟩ := h _ _ p hp
  rw [he] at hq
  cases hq

end ScriptLang
