import ScriptLang.Proofs.Eval.Choices
import ScriptLang.Proofs.Session
import ScriptLang.Proofs.Syntax.Lone

/-!
# Expressions that are entered on their own

A line that is an expression is run at once: a session that waits for nothing does with it what it would
do with the program that consists of the expression (`feed_expression`). Only where the line is a program
already, or is rejected as one, a session does not get to read it as an expression. So a line that starts
with a brace is not an object but a block (`object_rejected`), and what follows a choice at the start of a
line is a statement of its own.
-/

namespace ScriptLang

namespace Session

variable {session : Session} {line : Text} {e : Expr} {a b : Block}

/-- Programs with the same findings and the same run are the same input. -/
theorem execute_congr (hcheck : Program.check a = Program.check b)
    (hrun : Eval.program a session.interpreter.host session.interpreter.state =
      Eval.program b session.interpreter.host session.interpreter.state) :
    session.execute a = session.execute b := by
  unfold execute Interpreter.run Interpreter.perform
  rw [hcheck, hrun]

/-- Nothing is run of a program with findings. -/
theorem execute_of_check (h : Program.check b ≠ []) :
    session.execute b = (.error (.rejected (Program.check b)), session) := by
  have hsome : (!(Program.check b).isEmpty) = true := by simpa using h
  unfold execute
  dsimp only
  rw [if_pos hsome]

theorem failed_of_stuck (hcheck : Program.check b = [])
    (h : (Ending.of (Eval.program b session.interpreter.host session.interpreter.state)).failure =
      some .stuck) : (session.execute b).1 = .error (.failed .stuck) := by
  unfold execute Interpreter.run Interpreter.perform
  rw [hcheck]
  cases hr : Eval.program b session.interpreter.host session.interpreter.state with
  | ok v t =>
    rw [hr] at h
    cases h
  | error e t =>
    rw [hr] at h
    cases h
    rfl

/-- The place of an expression statement is the place of its expression to all that fails in it. -/
theorem evalBy_expr (sp sp' : Span) (e : Expr) (n : Nat) :
    (Request.run ⟨sp, [.expr sp' e]⟩).evalBy (evaluator n) =
      (Request.run (expressionProgram e)).evalBy (evaluator n) := by
  have hstmt (span : Span) : (evaluator n).stmt (.expr span e) globalScope =
      (evaluator n).stmt (.expr {} e) globalScope := by
    cases n with
    | zero => rfl
    | succ n =>
      have hplaced := Eval.Placed.expr n e globalScope
      exact (hplaced.located_eq span).trans (hplaced.located_eq {}).symm
  rw [expressionProgram, Request.evalBy_single, Request.evalBy_single, hstmt sp', hstmt e.span]

theorem execute_expr (session : Session) (sp sp' : Span) (e : Expr) :
    session.execute ⟨sp, [.expr sp' e]⟩ = session.execute (expressionProgram e) := by
  have hrun : Eval.program ⟨sp, [.expr sp' e]⟩ = Eval.program (expressionProgram e) :=
    evalBy_expr sp sp' e Store.depthLimit
  exact execute_congr rfl (by rw [hrun])

/-- A choice does the same as a statement and as an expression, if it comes to an end at all. -/
theorem execute_choose {vs : List Value} (h : Reached anyUse session.interpreter.state vs)
    (sp sp' : Span) (m : MatchExpr) :
    session.execute ⟨sp, [.choose sp' m]⟩ = session.execute (expressionProgram (.choose m)) ∨
      (session.execute (expressionProgram (.choose m))).1 = .error (.failed .stuck) := by
  have hcheck : Program.check ⟨sp, [.choose sp' m]⟩ = Program.check (expressionProgram (.choose m)) := rfl
  by_cases hfree : Program.check (expressionProgram (.choose m)) = []
  · rcases Eval.program_choose m.span sp m.span sp' m session.interpreter.host
      (Law.reached_signalFree h).1 with hstuck | hsame
    · exact .inr (failed_of_stuck hfree hstuck)
    · exact .inl (execute_congr hcheck hsame)
  · refine .inl ?_
    rw [execute_of_check hfree, execute_of_check (hcheck ▸ hfree), hcheck]

theorem execute_ne_more (session : Session) (b : Block) : (session.execute b).1 ≠ .more := by
  unfold execute
  dsimp only
  split
  · exact nofun
  · split <;> exact nofun

theorem execute_ne_rejected {ds : List Diagnostic} (h : Program.check b = []) :
    (session.execute b).1 ≠ .error (.rejected ds) := by
  unfold execute
  rw [h]
  dsimp only
  rw [if_neg (by decide)]
  split <;> exact nofun

/-! ### What is read -/

theorem read_of_expr {error : SyntaxError} (h : Expr.parse line fileName = .ok e)
    (herror : Program.parse line fileName = .error error) (hincomplete : error.incomplete = true) :
    read line = some (.ok (expressionProgram e)) := by
  rw [read, herror]
  dsimp only
  rw [if_pos hincomplete, h]
  rfl

/-- An expression is not something to wait for the rest of. -/
theorem exists_read_of_expr (h : Expr.parse line fileName = .ok e) : ∃ r, read line = some r := by
  cases hp : Program.parse line fileName with
  | ok b => exact ⟨_, read_of_parse hp⟩
  | error error =>
    cases hincomplete : error.incomplete with
    | true => exact ⟨_, read_of_expr h hp hincomplete⟩
    | false =>
      refine ⟨.error error, ?_⟩
      rw [read, hp]
      dsimp only
      rw [hincomplete, if_neg Bool.false_ne_true]

/-- What a session that waits for nothing does with a line that is read. -/
theorem feed_of_read (hidle : session.isPending = false) (hblank : Text.isAllBlank line = false) :
    (∀ b, read line = some (.ok b) → session.feed line = session.execute b) ∧
    ∀ error, read line = some (.error error) →
      session.feed line = (.error (.rejected [error.diagnostic]), session) := by
  have hreset := reset_eq hidle
  unfold feed
  rw [hidle, if_neg Bool.false_ne_true]
  dsimp only
  rw [hblank, if_neg Bool.false_ne_true, hreset]
  refine ⟨fun b hread => ?_, fun error hread => ?_⟩ <;> rw [hread]

/-- A line that is an expression is never unfinished. What happens is what happens with the program
that consists of the expression, unless the line starts with a brace, or with a choice that something
follows. The program that is read does under every bound on depth what the program of the expression does
under that bound, or under the next one. -/
theorem feed_expression {vs : List Value} (hreached : Reached anyUse session.interpreter.state vs)
    (hidle : session.isPending = false) (h : Expr.parse line fileName = .ok e) :
    (session.feed line).1 ≠ .more ∧
    (Text.firstKind? line fileName ≠ some .lbrace →
      (Text.firstKind? line fileName = some .kwMatch → ∃ m, e = .choose m) →
        (session.feed line = session.execute (expressionProgram e) ∨
          Text.firstKind? line fileName = some .kwMatch ∧
            (session.execute (expressionProgram e)).1 = .error (.failed .stuck)) ∧
        ∃ b k, read line = some (.ok b) ∧ ∀ n,
          (Request.run b).evalBy (evaluator (n + 1)) session.interpreter.host session.interpreter.state =
            (Request.run (expressionProgram e)).evalBy (evaluator (n + 1 + k)) session.interpreter.host
              session.interpreter.state) := by
  obtain ⟨hok, herror⟩ := feed_of_read hidle (Expr.notBlank_of_parse h)
  constructor
  · obtain ⟨r, hread⟩ := exists_read_of_expr h
    cases r with
    | ok b =>
      rw [hok b hread]
      exact execute_ne_more session b
    | error error =>
      rw [herror error hread]
      exact nofun
  · intro hbrace hmatch
    by_cases hfirst : Text.firstKind? line fileName = some .kwMatch
    · obtain ⟨m, rfl⟩ := hmatch hfirst
      obtain ⟨sp, sp', hparse⟩ := Program.parse_of_choice h hfirst
      have hread := read_of_parse hparse
      refine ⟨?_, _, 1, hread, Request.evalBy_choose m.span sp m.span sp' m session.interpreter.host
        (Law.reached_signalFree hreached).1⟩
      rw [hok _ hread]
      exact (execute_choose hreached sp sp' m).imp_right fun hstuck => ⟨hfirst, hstuck⟩
    · rcases Program.parse_of_expr h hbrace hfirst with ⟨sp, sp', hparse⟩ | ⟨error, hparse, hincomplete⟩
      · have hread := read_of_parse hparse
        refine ⟨.inl ((hok _ hread).trans (execute_expr session sp sp' e)), _, 0, hread, fun n => ?_⟩
        rw [evalBy_expr sp sp' e]
      · have hread := read_of_expr h hparse hincomplete
        exact ⟨.inl (hok _ hread), _, 0, hread, fun _ => rfl⟩

/-- A sum on its own is run as the program that consists of it. -/
theorem sum_fed : ∃ e, Expr.parse "1 + 2" fileName = .ok e ∧ ((new {} {}).feed "1 + 2").1 ≠ .more ∧
    (new {} {}).feed "1 + 2" = (new {} {}).execute (expressionProgram e) := by
  obtain ⟨e, he⟩ : ∃ e, Expr.parse "1 + 2" fileName = .ok e := exists_of_isOk (by decide +kernel)
  have hreached : Reached anyUse (new {} {}).interpreter.state [] := .new _ _ _ _
  have hmatch : Text.firstKind? "1 + 2" fileName ≠ some .kwMatch := by decide +kernel
  obtain ⟨hmore, hfeed⟩ := feed_expression hreached rfl he
  obtain ⟨hsame, -⟩ := hfeed (by decide +kernel) fun h => absurd h hmatch
  exact ⟨e, he, hmore, hsame.resolve_right fun h => hmatch h.1⟩

/-- An object on its own. -/
def objectLine : Text := "\x7b a: 1 \x7d"

/-- Not every expression on its own is run: an object is taken for a block, and what is in it is no
statement. -/
theorem object_rejected : ¬∀ {session : Session} {line : Text} {e : Expr} {vs : List Value},
    Reached anyUse session.interpreter.state vs → session.isPending = false →
      Expr.parse line fileName = .ok e → (session.feed line).1 ≠ .more ∧
        (Program.check (expressionProgram e) = [] →
          session.feed line = session.execute (expressionProgram e)) := by
  intro h
  have hreached : Reached anyUse (new {} {}).interpreter.state [] := .new _ _ _ _
  have hchecked : (Expr.parse objectLine fileName).toOption.map
      (fun e => Program.check (expressionProgram e)) = some [] := by decide +kernel
  have hread : (read objectLine).map Except.isOk = some false := by decide +kernel
  cases he : Expr.parse objectLine fileName with
  | error e =>
    rw [he] at hchecked
    cases hchecked
  | ok e =>
    rw [he] at hchecked
    have hfeed := (h hreached rfl he).2 (Option.some.inj hchecked)
    cases hr : read objectLine with
    | none =>
      rw [hr] at hread
      cases hread
    | some r =>
      cases r with
      | ok b =>
        rw [hr] at hread
        cases hread
      | error error =>
        rw [(feed_of_read rfl (Expr.notBlank_of_parse he)).2 error hr] at hfeed
        exact execute_ne_rejected (Option.some.inj hchecked) (congrArg Prod.fst hfeed).symm

end Session

end ScriptLang
