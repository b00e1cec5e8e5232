import ScriptLang.Proofs.Eval.Twins
import ScriptLang.Proofs.Session
import ScriptLang.Proofs.Syntax.Findings
import ScriptLang.Proofs.Syntax.Places

/-!
# Where failing code was entered

A failure of a program is placed at one of its nodes, and a rejection at a token or a node of the text that
is rejected. But the code that fails need not be that of the program: a function keeps its spans when it is
called from another file, or from a later input of the same session. What can be said of a failure is that
its span *comes from* a text that was parsed: the one that is run, an earlier one of the session, or one
that a file had when it was imported (`Settings.run_originates`, `Session.Holds.feed`).

The statements are about all runs that import files with certain texts only. So they hold whatever becomes
of a file before and after it is imported; and if nothing is known of the imports, any text will do.
-/

namespace ScriptLang

open Spans

/-- Which texts a file may have had when it was imported. -/
abbrev Imported := Text → Text → Bool

/-- The texts that were parsed as a file: those that were entered under its name, and those that it had
when it was imported. -/
def Imported.Parses (imported : Imported) (name : Text) (entered : List Text) (file text : Text) : Prop :=
  file = name ∧ text ∈ entered ∨ imported file text = true

/-- Whether a span starts in a text that was parsed as the file that it names. -/
def Span.ComesFrom (parsed : Text → Text → Prop) (span : Span) : Prop :=
  ∃ text, parsed span.file text ∧ span.StartsIn text span.file

theorem Span.StartsIn.comesFrom {parsed : Text → Text → Prop} {source file : Text} {span : Span}
    (h : span.StartsIn source file) (hparsed : parsed file source) : span.ComesFrom parsed := by
  have hfile := h.file_eq
  subst hfile
  exact ⟨source, hparsed, h⟩

/-! ### Programs -/

theorem Files.program_eq_ok {files : Files} {file : Text} {b : Block} (h : files.program file = .ok b) :
    ∃ text, files.read file = .ok text ∧ Program.parse text file = .ok b := by
  unfold Files.program at h
  cases hread : files.read file with
  | error e =>
    rw [hread] at h
    cases h
  | ok text =>
    rw [hread] at h
    dsimp only at h
    refine ⟨text, rfl, ?_⟩
    cases hb : Program.parse text file with
    | error e =>
      rw [hb] at h
      cases h
    | ok b =>
      rw [hb] at h
      cases h
      rfl

section

variable {source file : Text} {b : Block}

/-- A diagnostic about a place in a text. -/
def Diagnostic.IsIn (source file : Text) (d : Diagnostic) : Prop :=
  ∃ span : Span, d.location = some span.location ∧ span.StartsIn source file

theorem SyntaxError.isIn {e : SyntaxError} (h : e.span.StartsIn source file) :
    e.diagnostic.IsIn source file :=
  ⟨e.span, e.location_diagnostic, h⟩

theorem Program.isIn_check (h : Within (Span.StartsIn source file) (Spans.block b)) :
    ∀ d ∈ Program.check b, d.IsIn source file := by
  intro d hd
  obtain ⟨f, hf, rfl⟩ := List.mem_map.1 hd
  exact ⟨f.span, rfl, Program.findsWithin h f hf⟩

/-- A text is accepted with all its nodes in it, or is rejected for something in it. -/
theorem Program.accept_startsIn (source file : Text) :
    match Program.accept source file with
    | .ok b => Within (Span.StartsIn source file) (Spans.block b)
    | .error ds => ∀ d ∈ ds, d.IsIn source file := by
  have hparse := Program.startsIn_parse source file
  unfold Program.accept
  cases hb : Program.parse source file with
  | error e =>
    rw [hb] at hparse
    exact List.forall_mem_singleton.2 (SyntaxError.isIn hparse)
  | ok b =>
    rw [hb] at hparse
    dsimp only
    cases (Program.check b).isEmpty
    · exact Program.isIn_check hparse
    · exact hparse

end

/-! ### Runs that import certain texts -/

/-- Whether a task is to import a file that was not kept after parsing and has another text. -/
def Task.importsOther (imported : Imported) : Task → State → Bool
  | .stmt (.importing _ _ _ path) _, s => (s.importTarget? path).any fun file =>
    (s.parsed.lookup file).isNone &&
      (s.files.read file).toOption.any fun text => !imported file text
  | _, _ => false

namespace Comparison

variable {p : Span → Prop} {imported : Imported}

/-- Runs that import certain texts only, all of whose nodes have spans with a property. -/
def importing (p : Span → Prop) (imported : Imported) (h : ∀ file text b, imported file text = true →
    Program.parse text file = .ok b → Within p (Spans.block b)) : Comparison :=
  .single { spans := p } (Task.importsOther imported) [] fun himports hfile hkept hprogram => by
    obtain ⟨text, hread, hparse⟩ := Files.program_eq_ok hprogram
    refine h _ text _ ?_ hparse
    simpa [Task.importsOther, hfile, hkept, hread, Except.toOption] using himports

theorem whole_importing (h : ∀ file text b, imported file text = true →
    Program.parse text file = .ok b → Within p (Spans.block b)) :
    (importing p imported h).Whole where
  origin := rfl
  aside := rfl
  hosts_self _ := rfl
  hosts_going h := h ▸ rfl
  kept_self h := ⟨rfl, h.2⟩
  kept_both h h' := ⟨h.1.symm.trans h'.1, h.1 ▸ h.2⟩

end Comparison

/-- The runs of code that comes from imported texts and from those that were entered under a name. -/
def Imported.placing (imported : Imported) (name : Text) (entered : List Text) : Comparison :=
  .importing (Span.ComesFrom (imported.Parses name entered)) imported
    fun file text b himported hb span hspan => by
      have hparse := Program.startsIn_parse text file
      rw [hb] at hparse
      exact (hparse span hspan).comesFrom (.inr himported)

/-- What a text is rejected for is in it, and what fails when it is run comes from it, from the texts that
were entered earlier or from a file. -/
def RunError.Originates (imported : Imported) (name : Text) (earlier : List Text) (source : Text) :
    RunError → Prop
  | .rejected ds => ∀ d ∈ ds, d.IsIn source name
  | .failed e => e.Within (Span.ComesFrom (imported.Parses name (source :: earlier)))

/-- Whether the run of a text imports files with certain texts only. -/
def Settings.ImportsOnly (settings : Settings) (imported : Imported) (files : Files)
    (source file : Text) : Prop :=
  ∀ b, Program.accept source file = .ok b → (Request.run b).Bypasses (Task.importsOther imported)
    (settings.begun files file b).host (settings.begun files file b).state

/-- The error of a run is in the text, or comes from a file. -/
theorem Settings.run_originates {settings : Settings} {imported : Imported} {files : Files}
    {source file : Text} {e : RunError} (himports : settings.ImportsOnly imported files source file)
    (h : (settings.run files source file).1 = .error e) : e.Originates imported file [] source := by
  let C := imported.placing file [source]
  have haccept := Program.accept_startsIn source file
  have hsource (b : Block) (hb : Program.accept source file = .ok b) :
      Within C.spans (Spans.block b) := by
    rw [hb] at haccept
    exact fun span hspan => (haccept span hspan).comesFrom (.inl ⟨rfl, List.mem_cons_self⟩)
  have hnew : (settings.interpreter files (settings.dirFor file)).Twins C
      (settings.interpreter files (settings.dirFor file)) :=
    Interpreter.twins_new (Comparison.whole_importing _) rfl rfl ⟨rfl, fun _ h => absurd h List.not_mem_nil⟩
      files _ _
  obtain ⟨-, -, hends⟩ := Settings.twins_run hnew hsource himports
  rw [h] at hends
  cases e with
  | rejected ds =>
    rw [show Program.accept source file = .error ds from hends] at haccept
    exact haccept
  | failed e => exact hends

/-! ### Sessions -/

namespace Session

variable {C : Comparison} {files : Files} {session : Session} {source : Text} {b : Block}

/-- The program of an input is in it. -/
theorem startsIn_read (source : Text) :
    match read source with
    | none => True
    | some (.ok b) => Within (Span.StartsIn source fileName) (Spans.block b)
    | some (.error e) => e.span.StartsIn source fileName := by
  have hparse := Program.startsIn_parse source fileName
  have hexpr := Expr.startsIn_parse source fileName
  unfold read
  cases hb : Program.parse source fileName with
  | ok b =>
    rw [hb] at hparse
    exact hparse
  | error e =>
    rw [hb] at hparse
    dsimp only
    cases e.incomplete
    · exact hparse
    · cases he : Expr.parse source fileName with
      | error e => trivial
      | ok e =>
        rw [he] at hexpr
        have hspan := Spans.of_expr hexpr
        exact within_cons.2 ⟨hspan, within_append.2 ⟨within_cons.2 ⟨hspan, hexpr⟩, within_nil⟩⟩

/-- The program of an input that was entered comes from there. -/
theorem placed_read {imported : Imported} {entered : List Text} (hmem : source ∈ entered) :
    ∀ b, read source = some (.ok b) →
      Within (imported.placing fileName entered).spans (Spans.block b) := by
  intro b hb span hspan
  have hin := startsIn_read source
  rw [hb] at hin
  exact (hin span hspan).comesFrom (.inl ⟨rfl, hmem⟩)

/-- The text that a session reads when it has collected lines and is given another one. -/
def entered (lines : List Text) (line : Text) : Text := Text.ofLines (lines ++ [line])

/-- Whether all that a session does with a line that makes up a text imports files with certain texts
only. -/
structure ImportsOnly (imported : Imported) (session : Session) (source line : Text) : Prop where
  /-- The program that is run. -/
  run : ∀ b, read source = some (.ok b) → (Request.run b).Bypasses (Task.importsOther imported)
    session.interpreter.host session.interpreter.state
  /-- The text of its value. -/
  shown : ∀ v s, session.feed line = (.value v, s) → (Request.stringify v).Bypasses
    (Task.importsOther imported) { s.interpreter.host with cancelAfter := none } s.interpreter.state

/-- A session that has collected lines, and holds only code that a comparison is about. -/
structure Holds (C : Comparison) (lines : List Text) (session : Session) : Prop where
  /-- The code. -/
  twins : session.interpreter.Twins C session.interpreter
  /-- The lines. -/
  pending : session.pending = Text.ofLines lines
  notBlank : lines ≠ [] → Text.isAllBlank (Text.ofLines lines) = false

/-- What a line leads to in a session that holds only code that a comparison is about. -/
def Leads (C : Comparison) (lines : List Text) (line : Text) : FeedResult × Session → Prop
  | (.more, s) => Holds C (lines ++ [line]) s
  | (.nothing, s) => Holds C [] s
  | (.value v, s) => Holds C [] s ∧ C.Good s.interpreter.state.store v
  | (.error (.failed e), s) => Holds C [] s ∧ e.Within C.spans
  | (.error (.rejected ds), s) => Holds C [] s ∧ ∀ d ∈ ds, d.IsIn (entered lines line) fileName

namespace Holds

variable {lines : List Text} {line : Text}

theorem new (settings : Settings) (files : Files) (hwhole : C.Whole) (hkept : C.kept [] []) :
    Holds C [] (Session.new settings files) where
  twins := Interpreter.twins_new hwhole (hwhole.hosts_self _) rfl hkept files _ _
  pending := rfl
  notBlank h := absurd rfl h

theorem reset (h : Holds C lines session) : Holds C [] session.reset :=
  ⟨h.twins, rfl, fun h => absurd rfl h⟩

theorem shown (h : Holds C [] session) {v : Value} (hv : C.Good session.interpreter.state.store v)
    (hbypasses : (Request.stringify v).Bypasses C.diverts
      { session.interpreter.host with cancelAfter := none } session.interpreter.state) :
    Holds C [] { session with interpreter := (session.interpreter.stringify v).2 } :=
  ⟨(h.twins.stringify hv hbypasses).2, h.pending, h.notBlank⟩

theorem execute (h : Holds C [] session) (hb : Within C.spans (Spans.block b))
    (hin : Within (Span.StartsIn (entered lines line) fileName) (Spans.block b))
    (hbypasses : (Request.run b).Bypasses C.diverts session.interpreter.host
      session.interpreter.state) : Leads C lines line (session.execute b) := by
  unfold Session.execute
  dsimp only
  cases (Program.check b).isEmpty
  · exact ⟨h, Program.isIn_check hin⟩
  · obtain ⟨-, htwins, hends⟩ := h.twins.run hb hbypasses
    generalize session.interpreter.run b = r at htwins hends ⊢
    obtain ⟨result, i⟩ := r
    cases result with
    | ok v => exact ⟨⟨htwins, h.pending, h.notBlank⟩, hends⟩
    | error e => exact ⟨⟨htwins, h.pending, h.notBlank⟩, hends⟩

/-- A session holds only code of its inputs and of files, whatever it is given, and what fails in it is part
of that code. -/
theorem feed (h : Holds C lines session)
    (hread : ∀ b, read (entered lines line) = some (.ok b) → Within C.spans (Spans.block b))
    (hbypasses : ∀ b, read (entered lines line) = some (.ok b) → (Request.run b).Bypasses C.diverts
      session.interpreter.host session.interpreter.state) :
    Leads C lines line (session.feed line) := by
  have hin := startsIn_read (entered lines line)
  have hsession : session = { session with pending := Text.ofLines lines } := by rw [← h.pending]
  rw [hsession]
  cases hblank : Text.isAllBlank (entered lines line) with
  | true =>
    rw [feed_blank h.notBlank hblank]
    exact h.reset
  | false =>
    rw [feed_eq h.notBlank hblank]
    cases hr : read (entered lines line) with
    | none =>
      rw [show read (Text.ofLines (lines ++ [line])) = none from hr]
      exact ⟨h.twins, rfl, fun _ => hblank⟩
    | some r =>
      rw [show read (Text.ofLines (lines ++ [line])) = some r from hr]
      rw [hr] at hin
      cases r with
      | error e => exact ⟨h.reset, List.forall_mem_singleton.2 (SyntaxError.isIn hin)⟩
      | ok b => exact h.reset.execute (hread b hr) hin (hbypasses b hr)

end Holds

end Session

end ScriptLang
