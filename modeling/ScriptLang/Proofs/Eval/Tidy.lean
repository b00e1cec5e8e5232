import ScriptLang.Proofs.Eval.Law

/-!
# Tidy programs

The parts of what a law accepts are accepted, one lemma for each kind of node. These lemmas are all
that the laws of evaluation need from the checks of programs.
-/

namespace ScriptLang

theorem Text.isName_ne_nil {t : Text} (h : t.isName = true) : t ≠ [] := by
  rintro rfl
  cases h

namespace Law

variable {L : Law} {inLoop : Bool} {names : List Text}

theorem clean_append {fs gs : List Finding} : L.Clean (fs ++ gs) ↔ L.Clean fs ∧ L.Clean gs := by
  unfold Clean
  simp only [List.mem_append, or_imp, forall_and]

/-- Rules that hold of two parts hold of each. -/
theorem rules_and {x y : NodeRule → Bool} : (∀ r ∈ L.rules, (x r && y r) = true) ↔
    (∀ r ∈ L.rules, x r = true) ∧ ∀ r ∈ L.rules, y r = true := by
  simp only [Bool.and_eq_true, forall_and]

/-! ### Names -/

/-- A name that may be declared after others is new among them. -/
theorem fresh_of_clean {name : Text} {span : Span} (h : L.Clean (Check.declared names name span))
    (ht : L.tracks) (hb : Check.binds name = true) : name ∉ names := by
  intro hmem
  refine h ⟨.nameTwice name, span⟩ ?_ (L.twice ht name)
  unfold Check.declared
  rw [if_pos (by simp [hb, hmem])]
  exact List.mem_singleton.2 rfl

/-! ### Expressions -/

theorem tidy_exprs {es : List Expr} (hc : L.Clean (Check.exprs inLoop es))
    (hr : ∀ r ∈ L.rules, Every.exprs r es = true) : ∀ e ∈ es, L.TidyExpr inLoop e := by
  induction es with
  | nil => exact fun e he => absurd he List.not_mem_nil
  | cons e es ih =>
    obtain ⟨hce, hces⟩ := clean_append.1 hc
    obtain ⟨hre, hres⟩ := rules_and.1 hr
    intro e' he'
    rcases List.mem_cons.1 he' with rfl | he'
    · exact ⟨hce, hre⟩
    · exact ih hces hres e' he'

theorem tidy_entries {span : Span} {seen : List Text} {es : List (Text × Expr)}
    (hc : L.Clean (Check.entries inLoop span seen es))
    (hr : ∀ r ∈ L.rules, Every.entries r es = true) : ∀ p ∈ es, L.TidyExpr inLoop p.2 := by
  induction es generalizing seen with
  | nil => exact fun p hp => absurd hp List.not_mem_nil
  | cons p es ih =>
    obtain ⟨hcp, hces⟩ := clean_append.1 hc
    obtain ⟨hrp, hres⟩ := rules_and.1 hr
    intro p' hp'
    rcases List.mem_cons.1 hp' with rfl | hp'
    · exact ⟨(clean_append.1 hcp).2, hrp⟩
    · exact ih hces hres p' hp'

namespace TidyExpr

variable {span span' : Span} {e l r : Expr} {es : List Expr}

theorem array (h : L.TidyExpr inLoop (.array span es)) : ∀ e ∈ es, L.TidyExpr inLoop e :=
  tidy_exprs h.1 (rules_and.1 h.2).2

theorem object {ps : List (Text × Expr)} (h : L.TidyExpr inLoop (.object span ps)) :
    ∀ p ∈ ps, L.TidyExpr inLoop p.2 :=
  tidy_entries h.1 (rules_and.1 h.2).2

theorem unary {op : UnaryOp} (h : L.TidyExpr inLoop (.unary span op e)) : L.TidyExpr inLoop e :=
  ⟨h.1, (rules_and.1 h.2).2⟩

theorem binary {op : BinaryOp} (h : L.TidyExpr inLoop (.binary span op l r)) :
    L.TidyExpr inLoop l ∧ L.TidyExpr inLoop r := by
  obtain ⟨hcl, hcr⟩ := clean_append.1 h.1
  obtain ⟨hrl, hrr⟩ := rules_and.1 h.2
  exact ⟨⟨hcl, (rules_and.1 hrl).2⟩, hcr, hrr⟩

theorem assign {op : AssignOp} (h : L.TidyExpr inLoop (.assign span op l r)) :
    L.TidyExpr inLoop l ∧ L.TidyExpr inLoop r := by
  obtain ⟨hcl, hcr⟩ := clean_append.1 h.1
  obtain ⟨hrl, hrr⟩ := rules_and.1 h.2
  exact ⟨⟨hcl, (rules_and.1 hrl).2⟩, hcr, hrr⟩

theorem step {op : StepOp} (h : L.TidyExpr inLoop (.step span op e)) : L.TidyExpr inLoop e :=
  ⟨h.1, (rules_and.1 h.2).2⟩

theorem range (h : L.TidyExpr inLoop (.range span l r)) :
    L.TidyExpr inLoop l ∧ L.TidyExpr inLoop r := by
  obtain ⟨hcl, hcr⟩ := clean_append.1 h.1
  obtain ⟨hrl, hrr⟩ := rules_and.1 h.2
  exact ⟨⟨hcl, (rules_and.1 hrl).2⟩, hcr, hrr⟩

theorem member {property : Text} (h : L.TidyExpr inLoop (.member span e property)) :
    L.TidyExpr inLoop e :=
  ⟨h.1, (rules_and.1 h.2).2⟩

theorem index (h : L.TidyExpr inLoop (.index span l r)) :
    L.TidyExpr inLoop l ∧ L.TidyExpr inLoop r := by
  obtain ⟨hcl, hcr⟩ := clean_append.1 h.1
  obtain ⟨hrl, hrr⟩ := rules_and.1 h.2
  exact ⟨⟨hcl, (rules_and.1 hrl).2⟩, hcr, hrr⟩

theorem call (h : L.TidyExpr inLoop (.call span e es)) :
    L.TidyExpr inLoop e ∧ ∀ e ∈ es, L.TidyExpr inLoop e := by
  obtain ⟨hce, hces⟩ := clean_append.1 h.1
  obtain ⟨hre, hres⟩ := rules_and.1 h.2
  exact ⟨⟨hce, (rules_and.1 hre).2⟩, tidy_exprs hces hres⟩

theorem construct (h : L.TidyExpr inLoop (.construct span span' e es)) :
    L.TidyExpr inLoop e ∧ ∀ e ∈ es, L.TidyExpr inLoop e := by
  obtain ⟨hce, hces⟩ := clean_append.1 h.1
  obtain ⟨hre, hres⟩ := rules_and.1 h.2
  exact ⟨⟨hce, (rules_and.1 hre).2⟩, tidy_exprs hces hres⟩

theorem function {f : FunctionDecl} (h : L.TidyExpr inLoop (.function f)) : L.TidyFunction f :=
  fun _ => ⟨h.1, (rules_and.1 h.2).2⟩

theorem choose {m : MatchExpr} (h : L.TidyExpr inLoop (.choose m)) : L.TidyChoice inLoop m :=
  ⟨h.1, (rules_and.1 h.2).2⟩

end TidyExpr

/-! ### Choices -/

/-- An arm that a law accepts. -/
structure TidyArm (L : Law) (inLoop : Bool) (a : MatchArm) : Prop where
  pattern : ∀ p, a.pattern = some p → L.TidyExpr inLoop p
  block : ∀ b, a.body = .block b → L.TidyStmts inLoop [] b.body
  value : ∀ span e, a.body = .value span e → L.TidyExpr inLoop e

theorem tidyArm {a : MatchArm} (hc : L.Clean (Check.arm inLoop a))
    (hr : ∀ r ∈ L.rules, Every.arm r a = true) : L.TidyArm inLoop a := by
  have body : ∀ body : ArmBody, L.Clean (Check.armBody inLoop body) →
      (∀ r ∈ L.rules, Every.armBody r body = true) →
      (∀ b, body = .block b → L.TidyStmts inLoop [] b.body) ∧
        ∀ span e, body = .value span e → L.TidyExpr inLoop e := by
    intro body hc hr
    cases body with
    | block b =>
      obtain ⟨span, body⟩ := b
      refine ⟨fun b' h => ?_, by rintro _ _ ⟨⟩⟩
      cases h
      exact ⟨hc, hr⟩
    | value span e =>
      refine ⟨by rintro _ ⟨⟩, fun span' e' h => ?_⟩
      cases h
      exact ⟨hc, hr⟩
  obtain ⟨span, pattern, armBody⟩ := a
  cases pattern with
  | none =>
    obtain ⟨hb, hv⟩ := body armBody hc (rules_and.1 hr).2
    exact ⟨by rintro _ ⟨⟩, hb, hv⟩
  | some p =>
    obtain ⟨hcp, hcb⟩ := clean_append.1 hc
    obtain ⟨hrp, hrb⟩ := rules_and.1 hr
    obtain ⟨hb, hv⟩ := body armBody hcb hrb
    refine ⟨fun p' h => ?_, hb, hv⟩
    cases h
    exact ⟨hcp, (rules_and.1 hrp).2⟩

theorem tidy_arms {as : List MatchArm} (hc : L.Clean (Check.arms inLoop as))
    (hr : ∀ r ∈ L.rules, Every.arms r as = true) : ∀ a ∈ as, L.TidyArm inLoop a := by
  induction as with
  | nil => exact fun a ha => absurd ha List.not_mem_nil
  | cons a as ih =>
    obtain ⟨hca, hcas⟩ := clean_append.1 hc
    obtain ⟨hra, hras⟩ := rules_and.1 hr
    intro a' ha'
    rcases List.mem_cons.1 ha' with rfl | ha'
    · exact tidyArm hca hra
    · exact ih hcas hras a' ha'

theorem TidyChoice.parts {m : MatchExpr} (h : L.TidyChoice inLoop m) :
    L.TidyExpr inLoop m.subject ∧ ∀ a ∈ m.arms, L.TidyArm inLoop a := by
  obtain ⟨hc, hr⟩ := h
  obtain ⟨span, subject, arms⟩ := m
  obtain ⟨hcs, hcas⟩ := clean_append.1 hc
  obtain ⟨hrs, hras⟩ := rules_and.1 hr
  exact ⟨⟨hcs, hrs⟩, tidy_arms hcas hras⟩

/-! ### Functions -/

theorem TidyFunction.params {f : FunctionDecl} (h : L.TidyFunction f) (hbodies : L.bodies) :
    L.Clean (Check.declaredAll [] f.span (f.params.map Param.name)) := by
  obtain ⟨span, name, params, result, body⟩ := f
  exact (clean_append.1 (h hbodies).1).1

theorem TidyFunction.body {f : FunctionDecl} (h : L.TidyFunction f) (hbodies : L.bodies) :
    L.TidyStmts false (Check.declareAll [] (f.params.map Param.name)) f.body.body := by
  obtain ⟨hc, hr⟩ := h hbodies
  obtain ⟨span, name, params, result, ⟨span', body⟩⟩ := f
  exact ⟨(clean_append.1 hc).2, (rules_and.1 hr).2⟩

theorem TidyFunction.named {f : FunctionDecl} (h : L.TidyFunction f) (hbodies : L.bodies)
    (ht : L.tracks) : ∀ p ∈ f.params, p.name ≠ [] := by
  have hr := (h hbodies).2 _ (L.spells ht)
  obtain ⟨span, name, params, result, body⟩ := f
  have hparams := List.all_eq_true.1 (Bool.and_eq_true_iff.1 (Bool.and_eq_true_iff.1 hr).1).1
  intro p hp
  exact Text.isName_ne_nil (Bool.and_eq_true_iff.1 (hparams p hp)).1

theorem tidy_methods {struct : Text} {seen : List Text} {fs : List FunctionDecl}
    (hc : L.Clean (Check.methods struct seen fs))
    (hr : ∀ r ∈ L.rules, Every.functions r fs = true) : ∀ f ∈ fs, L.TidyFunction f := by
  induction fs generalizing seen with
  | nil => exact fun f hf => absurd hf List.not_mem_nil
  | cons f fs ih =>
    obtain ⟨hcf, hcfs⟩ := clean_append.1 hc
    obtain ⟨hrf, hrfs⟩ := rules_and.1 hr
    intro f' hf'
    rcases List.mem_cons.1 hf' with rfl | hf'
    · exact fun _ => ⟨(clean_append.1 hcf).2, hrf⟩
    · exact ih hcfs hrfs f' hf'

/-! ### Statements -/

theorem TidyStmts.cons {st : Stmt} {rest : List Stmt} (h : L.TidyStmts inLoop names (st :: rest)) :
    L.TidyStmt inLoop names st ∧
      L.TidyStmts inLoop (Check.declare names (Check.declaredName st)) rest := by
  obtain ⟨hcs, hcrest⟩ := clean_append.1 h.1
  obtain ⟨hrs, hrrest⟩ := rules_and.1 h.2
  exact ⟨⟨hcs, hrs⟩, hcrest, hrrest⟩

namespace TidyStmt

variable {span : Span} {e : Expr} {b : Block} {name : Text}

/-- The rules hold of a statement itself. -/
theorem rule {st : Stmt} (h : L.TidyStmt inLoop names st) : ∀ r ∈ L.rules, r.stmt st = true := by
  intro r hr
  have hst := h.2 r hr
  cases st with
  | declare _ _ _ _ value =>
    cases value with
    | none => exact hst
    | some e => exact (Bool.and_eq_true_iff.1 hst).1
  | returning _ value =>
    cases value with
    | none => exact hst
    | some e => exact (Bool.and_eq_true_iff.1 hst).1
  | expr | block | function | cond | struct | choose => exact (Bool.and_eq_true_iff.1 hst).1
  | whileLoop | foreachLoop =>
    exact (Bool.and_eq_true_iff.1 (Bool.and_eq_true_iff.1 hst).1).1
  | importing | enum | breakLoop | continueLoop => exact hst

theorem expr (h : L.TidyStmt inLoop names (.expr span e)) : L.TidyExpr inLoop e :=
  ⟨h.1, (rules_and.1 h.2).2⟩

theorem of_expr (h : L.TidyExpr inLoop e) : L.TidyStmt inLoop names (.expr span e) :=
  ⟨h.1, rules_and.2 ⟨fun r hr => (L.mild r hr).2.2 span e, h.2⟩⟩

theorem block (h : L.TidyStmt inLoop names (.block b)) : L.TidyStmts inLoop [] b.body := by
  obtain ⟨s, body⟩ := b
  exact ⟨h.1, (rules_and.1 h.2).2⟩

theorem declare {constant : Bool} {type : Option TypeExpr} {value : Option Expr}
    (h : L.TidyStmt inLoop names (.declare span name constant type value)) :
    (∀ e, value = some e → L.TidyExpr inLoop e) ∧ L.Clean (Check.declared names name span) := by
  obtain ⟨hc, hr⟩ := h
  cases value with
  | none => exact ⟨nofun, hc⟩
  | some e =>
    obtain ⟨hce, hcname⟩ := clean_append.1 hc
    refine ⟨fun e' h => ?_, hcname⟩
    cases h
    exact ⟨hce, (rules_and.1 hr).2⟩

theorem function {f : FunctionDecl} (h : L.TidyStmt inLoop names (.function f)) :
    L.Clean (Check.declared names f.name f.span) ∧ L.TidyFunction f := by
  obtain ⟨hcname, hcf⟩ := clean_append.1 h.1
  exact ⟨hcname, fun _ => ⟨hcf, (rules_and.1 h.2).2⟩⟩

theorem cond {i : IfStmt} (h : L.TidyStmt inLoop names (.cond i)) :
    L.TidyExpr inLoop i.cond ∧ L.TidyStmts inLoop [] i.yes.body ∧
    (∀ b, i.no = some (.block b) → L.TidyStmt inLoop names (.block b)) ∧
      ∀ next, i.no = some (.chain next) → L.TidyStmt inLoop names (.cond next) := by
  obtain ⟨hc, hr⟩ := h
  obtain ⟨s, c, ⟨s', yes⟩, no⟩ := i
  have hr := (rules_and.1 hr).2
  cases no with
  | none =>
    obtain ⟨hcc, hcyes⟩ := clean_append.1 hc
    obtain ⟨hrc, hryes⟩ := rules_and.1 hr
    exact ⟨⟨hcc, hrc⟩, ⟨hcyes, hryes⟩, fun _ h => (Option.some_ne_none _ h.symm).elim,
      fun _ h => (Option.some_ne_none _ h.symm).elim⟩
  | some no =>
    obtain ⟨hcfirst, hcno⟩ := clean_append.1 hc
    obtain ⟨hcc, hcyes⟩ := clean_append.1 hcfirst
    obtain ⟨hrfirst, hrno⟩ := rules_and.1 hr
    obtain ⟨hrc, hryes⟩ := rules_and.1 hrfirst
    refine ⟨⟨hcc, hrc⟩, ⟨hcyes, hryes⟩, ?_, ?_⟩
    · intro b hb
      cases hb
      exact ⟨hcno, rules_and.2 ⟨fun r h => (L.mild r h).1 b, hrno⟩⟩
    · intro next hn
      cases hn
      exact ⟨hcno, rules_and.2 ⟨fun r h => (L.mild r h).2.1 next, hrno⟩⟩

theorem whileLoop (h : L.TidyStmt inLoop names (.whileLoop span e b)) :
    L.TidyExpr inLoop e ∧ L.TidyStmts true [] b.body := by
  obtain ⟨s, body⟩ := b
  obtain ⟨hce, hcbody⟩ := clean_append.1 h.1
  obtain ⟨hre, hrbody⟩ := rules_and.1 h.2
  exact ⟨⟨hce, (rules_and.1 hre).2⟩, hcbody, hrbody⟩

theorem foreachLoop {value index : Text}
    (h : L.TidyStmt inLoop names (.foreachLoop span value index e b)) :
    L.TidyExpr inLoop e ∧ L.Clean (Check.declaredAll [] span [value, index]) ∧
      L.TidyStmts true (Check.declareAll [] [value, index]) b.body := by
  obtain ⟨s, body⟩ := b
  obtain ⟨hcfirst, hcbody⟩ := clean_append.1 h.1
  obtain ⟨hce, hcnames⟩ := clean_append.1 hcfirst
  obtain ⟨hre, hrbody⟩ := rules_and.1 h.2
  exact ⟨⟨hce, (rules_and.1 hre).2⟩, hcnames, hcbody, hrbody⟩

theorem importing {wildcard : Bool} {path : Text}
    (h : L.TidyStmt inLoop names (.importing span name wildcard path)) (hw : wildcard = false) :
    L.Clean (Check.declared names name span) := by
  subst hw
  exact h.1

theorem struct {fields : List Param} {methods : List FunctionDecl}
    (h : L.TidyStmt inLoop names (.struct span name fields methods)) :
    L.Clean (Check.declared names name span) ∧ ∀ m ∈ methods, L.TidyFunction m := by
  obtain ⟨hcfirst, hcmethods⟩ := clean_append.1 h.1
  exact ⟨(clean_append.1 hcfirst).1, tidy_methods hcmethods (rules_and.1 h.2).2⟩

theorem enum {members : List Text} (h : L.TidyStmt inLoop names (.enum span name members)) :
    L.Clean (Check.declared names name span) :=
  (clean_append.1 h.1).1

theorem choose {m : MatchExpr} (h : L.TidyStmt inLoop names (.choose span m)) :
    L.TidyChoice inLoop m :=
  ⟨h.1, (rules_and.1 h.2).2⟩

theorem returning (h : L.TidyStmt inLoop names (.returning span (some e))) : L.TidyExpr inLoop e :=
  ⟨h.1, (rules_and.1 h.2).2⟩

/-- Loop control that is accepted can leave. -/
theorem escapes {mistake : Mistake}
    (h : L.Clean (Check.loopControl inLoop mistake span)) :
    inLoop = true ∨ ¬ L.excludes mistake := by
  cases inLoop with
  | true => exact .inl rfl
  | false => exact .inr (h ⟨mistake, span⟩ (List.mem_singleton.2 rfl))

/-- Where names matter, a statement declares proper names. -/
theorem named {st : Stmt} (h : L.TidyStmt inLoop names st) (ht : L.tracks) :
    NodeRule.spellable.stmt st = true :=
  h.rule _ (L.spells ht)

end TidyStmt

end Law

end ScriptLang
