import ScriptLang.Proofs.Session
import ScriptLang.Proofs.Token.Sequel

/-!
# Input that waits for more

A session collects lines until they are a program or cannot become one. What it has collected is
something that more lines can end, with one exception: a quote that is not closed on its line. No
line after it can close it, so the session asks for more whatever it is given, until it is reset
(`feed_of_stuck`). Every other input is rejected when one more line follows that has no tokens; if
three quotes are open, this line has to close them first (`rejected_of_not_stuck`).
-/

namespace ScriptLang

open Text (newline)

namespace Session

variable {settings : Settings} {files : Files} {session : Session} {source : Text}

/-- The sessions that lines and resets lead to. -/
inductive Fed (settings : Settings) (files : Files) : Session → Prop
  | new : Fed settings files (Session.new settings files)
  | feed {session : Session} (h : Fed settings files session) (line : Text) :
    Fed settings files (session.feed line).2
  | reset {session : Session} (h : Fed settings files session) : Fed settings files session.reset

/-- Whether a text has a quote that is not closed on its line. Three quotes before it that are not
closed could be closed later and make it a part of their string, so there are none. -/
structure Stuck (source : Text) : Prop where
  /-- The quote. -/
  quote : ∃ e, Token.scan source fileName = .error e ∧ e.fault = .unterminated
  /-- The three quotes. -/
  closed : Token.leavesTriple 0 source = false

/-! ### What is collected -/

theorem pending_execute (session : Session) (b : Block) :
    (session.execute b).2.pending = session.pending := by
  unfold execute
  dsimp only
  split
  · rfl
  · split <;> rfl

/-- A line is the end of what was collected, or something is collected. -/
theorem pending_feed (session : Session) (line : Text) : (session.feed line).2.pending = [] ∨
    Text.isAllBlank (session.feed line).2.pending = false := by
  unfold feed
  dsimp only
  generalize (if session.isPending then session.pending ++ "\n" ++ line else line) = source
  split
  · exact .inl rfl
  · next hblank =>
    cases read source with
    | none => exact .inr (Bool.eq_false_iff.2 hblank)
    | some r =>
      refine .inl ?_
      cases r with
      | error e => rfl
      | ok b => exact pending_execute session.reset b

theorem Fed.pending (h : Fed settings files session) :
    session.pending = [] ∨ Text.isAllBlank session.pending = false := by
  cases h with
  | new | reset => exact .inl rfl
  | feed _ line => exact pending_feed _ line

theorem Fed.notBlank (h : Fed settings files session) (hpending : session.isPending = true) :
    Text.isAllBlank session.pending = false :=
  h.pending.resolve_left fun hnil => by
    rw [isPending, hnil] at hpending
    cases hpending

/-! ### How it ends -/

theorem read_of_unterminated {e : ScanError} (he : Token.scan source fileName = .error e)
    (hfault : e.fault = .unterminated) : read source = none := by
  rw [read, Program.parse, he]
  dsimp only
  rw [SyntaxError.incomplete, decide_eq_true hfault, if_pos rfl, Expr.parse, he]
  rfl

theorem read_of_scan_error {e : ScanError} (he : Token.scan source fileName = .error e)
    (hfault : e.fault ≠ .unterminated) : read source = some (.error (.scan e false)) := by
  rw [read, Program.parse, he]
  dsimp only
  rw [SyntaxError.incomplete, decide_eq_false hfault, if_neg Bool.false_ne_true]

theorem notBlank_append (hblank : Text.isAllBlank source = false) (q : Text) :
    Text.isAllBlank (source ++ newline :: q) = false :=
  Bool.eq_false_iff.2 fun h => Bool.false_ne_true (hblank.symm.trans (Text.isAllBlank_of_append h))

/-- A line that follows what is collected. -/
theorem feed_behind (hblank : Text.isAllBlank session.pending = false) (line : Text) :
    session.feed line =
      match read (session.pending ++ newline :: line) with
      | none => (.more, { session with pending := session.pending ++ newline :: line })
      | some (.error e) => (.error (.rejected [e.diagnostic]), session.reset)
      | some (.ok b) => session.reset.execute b := by
  have hsource : Text.ofLines ([session.pending] ++ [line]) = session.pending ++ newline :: line :=
    Text.ofLines_append (List.cons_ne_nil _ _) (List.cons_ne_nil _ _)
  rw [← hsource]
  exact @feed_eq session [session.pending] line (fun _ => hblank)
    (hsource ▸ notBlank_append hblank line)

theorem Stuck.append (h : Stuck source) (q : Text) : Stuck (source ++ newline :: q) := by
  obtain ⟨e, he, hfault⟩ := h.quote
  exact ⟨⟨e, Token.scan_error_append h.closed he q, hfault⟩,
    Token.leavesTriple_append_newline h.closed he q⟩

theorem Stuck.read (h : Stuck source) : Session.read source = none := by
  obtain ⟨e, he, hfault⟩ := h.quote
  exact read_of_unterminated he hfault

/-- Nothing but a reset helps when a quote is not closed on its line. -/
theorem feed_of_stuck (hblank : Text.isAllBlank session.pending = false) (h : Stuck session.pending)
    (lines : List Text) (line : Text) : ((session.feeds lines).feed line).1 = .more := by
  have hfeed {session : Session} (hblank : Text.isAllBlank session.pending = false)
      (h : Stuck session.pending) (line : Text) : session.feed line =
        (.more, { session with pending := session.pending ++ newline :: line }) := by
    rw [feed_behind hblank, (h.append line).read]
  induction lines generalizing session with
  | nil =>
    show (session.feed line).1 = .more
    rw [hfeed hblank h]
  | cons l lines ih =>
    show (((session.feed l).2.feeds lines).feed line).1 = .more
    rw [hfeed hblank h]
    exact ih (notBlank_append hblank l) (h.append l)

/-- Other input is rejected when a line follows that has no tokens. -/
theorem rejected_of_not_stuck (hblank : Text.isAllBlank session.pending = false)
    (h : ¬Stuck session.pending) : ∃ line d, newline ∉ line ∧
      session.feed line = (.error (.rejected [d]), session.reset) := by
  obtain ⟨line, e, hline, he, hfault⟩ : ∃ line e, newline ∉ line ∧
      Token.scan (session.pending ++ newline :: line) fileName = .error e ∧
      e.fault ≠ .unterminated := by
    cases hopen : Token.leavesTriple 0 session.pending with
    | true =>
      obtain ⟨e, he⟩ := @Token.error_of_leavesTriple fileName session.pending 0 {} hopen
      exact ⟨Token.closing, e, by decide, he⟩
    | false =>
      cases hscan : Token.scan session.pending fileName with
      | ok ts =>
        obtain ⟨e, he⟩ := Token.scan_at hopen hscan
        exact ⟨"@", e, by decide, he⟩
      | error e =>
        exact ⟨"@", e, by decide, Token.scan_error_append hopen hscan _,
          fun hfault => h ⟨⟨e, hscan, hfault⟩, hopen⟩⟩
  exact ⟨line, _, hline, by rw [feed_behind hblank, read_of_scan_error he hfault]⟩

/-- A session that waits for more can be brought to an end by one more line, unless a quote is not
closed on its line; then no lines bring it to an end. -/
theorem Fed.ends (h : Fed settings files session) (hpending : session.isPending = true) :
    (¬Stuck session.pending → ∃ line d, newline ∉ line ∧
      session.feed line = (.error (.rejected [d]), session.reset)) ∧
    (Stuck session.pending → ∀ lines line, ((session.feeds lines).feed line).1 = .more) :=
  ⟨rejected_of_not_stuck (h.notBlank hpending), feed_of_stuck (h.notBlank hpending)⟩

/-- The first line of a function can be brought to an end. -/
theorem opened_function_ends : ∃ line d, newline ∉ line ∧
    ((new {} {}).feed "fn f() \x7b").2.feed line =
      (.error (.rejected [d]), ((new {} {}).feed "fn f() \x7b").2.reset) := by
  have hpending : ((new {} {}).feed "fn f() \x7b").2.pending = "fn f() \x7b" := by decide +kernel
  refine (Fed.ends (Fed.new.feed "fn f() \x7b") (by decide +kernel)).1 fun hstuck => ?_
  rw [hpending] at hstuck
  obtain ⟨e, he, -⟩ := hstuck.quote
  cases he

/-- Not every session that waits for more can be brought to an end. -/
theorem quote_waits : ¬∀ {settings : Settings} {files : Files} {session : Session},
    Fed settings files session → session.isPending = true →
      ∃ lines line, ((session.feeds lines).feed line).1 ≠ .more := by
  intro h
  have hfed : Fed {} {} ((new {} {}).feed "let s = \"abc").2 := Fed.new.feed _
  have hpending : ((new {} {}).feed "let s = \"abc").2.pending = "let s = \"abc" := by decide +kernel
  obtain ⟨lines, line, hne⟩ := h hfed (by decide +kernel)
  refine hne (feed_of_stuck (by rw [hpending]; decide) ?_ lines line)
  rw [hpending]
  exact ⟨⟨_, rfl, rfl⟩, by decide⟩

end Session

end ScriptLang
