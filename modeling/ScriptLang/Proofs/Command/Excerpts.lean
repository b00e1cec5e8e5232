import ScriptLang.Command.Program
import ScriptLang.Command.Repl
import ScriptLang.Proofs.Session.Origins

/-!
# The line that is shown under a diagnostic

A diagnostic for people ends with a line of a source text. The text is the one that the command was given:
the program that is run, or the lines of the input that a session reports about. For a rejection this is
the text that the diagnostic is about, and so the line is the one that it names. For a failure it is so
only if the code that failed was entered there. The span of a failure can also come from a file that was
imported, or from an earlier input of the session, and then the line that is shown has the number of the
line that failed but is one of another text (`shows_line_of_other_text`).

`Workplace.Reports` says what is reported about which text. `Workplace.reported_line` says from which text
each diagnostic of it comes, and that the line of this text is shown if and only if the text that is
reported about has the same line in the same place.
-/

namespace ScriptLang

open Spans

/-! ### The work of commands -/

namespace Shell

variable {α β : Type} {c : Console}

theorem bind_apply (x : Shell α) (f : α → Shell β) (c : Console) :
    (x >>= f) c = match x c with
      | (.ok a, d) => f a d
      | (.error e, d) => (.error e, d) := by
  show (match x c with | (a, d) => ExceptT.bindCont f a d) = _
  obtain ⟨r, d⟩ := x c
  cases r <;> rfl

theorem bind_eq_ok {x : Shell α} {f : α → Shell β} {b : β} {d : Console}
    (h : (x >>= f) c = (.ok b, d)) : ∃ a e, x c = (.ok a, e) ∧ f a e = (.ok b, d) := by
  rw [bind_apply] at h
  generalize x c = r at h
  obtain ⟨r, e⟩ := r
  cases r with
  | error code => cases h
  | ok a => exact ⟨a, e, rfl, h⟩

/-- Work that does not end the process. -/
def GoesOn (x : Shell Unit) : Prop := ∀ c, ∃ d, x c = (.ok (), d)

theorem GoesOn.bind {x y : Shell Unit} (hx : GoesOn x) (hy : GoesOn y) : GoesOn (x >>= fun _ => y) := by
  intro c
  obtain ⟨d, hd⟩ := hx c
  rw [bind_apply, hd]
  exact hy d

theorem GoesOn.forM {xs : List α} {f : α → Shell Unit} (h : ∀ a, GoesOn (f a)) : GoesOn (xs.forM f) := by
  induction xs with
  | nil => exact fun c => ⟨c, rfl⟩
  | cons a as ih => exact (h a).bind ih

end Shell

namespace Workplace

open Shell

variable (w : Workplace)

theorem goesOn_log (r : LogRecord) : GoesOn (w.log r) := by
  intro c
  unfold log
  split
  · exact ⟨_, rfl⟩
  · exact ⟨_, rfl⟩

theorem goesOn_absorb (writes records : Nat) (i : Interpreter) : GoesOn (w.absorb writes records i) :=
  .bind (fun _ => ⟨_, rfl⟩) (.bind (.forM w.goesOn_log) fun _ => ⟨_, rfl⟩)

/-! ### What is printed -/

variable {w} {source file : Text} {e : RunError} {c d : Console}

/-- What is printed for diagnostics about a source. -/
def printed (w : Workplace) (source : Text) (ds : List Diagnostic) : Text :=
  Text.join "\n\n" (ds.map (w.paintDiagnostic source)) ++ "\n"

theorem diagnose_suffix (hpretty : w.pretty = true) (source : Text) (ds : List Diagnostic)
    (c : Console) : ∃ d, w.diagnose source ds c = (.ok (), d) ∧ w.printed source ds <:+ d.err := by
  unfold diagnose
  rw [if_pos hpretty]
  exact ⟨_, rfl, List.suffix_append _ _⟩

theorem report_suffix {α : Type} (hpretty : w.pretty = true) (hne : e.diagnostics ≠ []) :
    w.printed source e.diagnostics <:+ ((w.report source e : Shell α) c).2.err := by
  have hcrash : e ≠ .failed .crash := fun h => hne (by rw [h]; rfl)
  have hempty : ¬e.diagnostics.isEmpty = true := fun h => hne (List.isEmpty_iff.1 h)
  obtain ⟨d, hd, hsuffix⟩ := diagnose_suffix hpretty source e.diagnostics c
  unfold report
  rw [if_neg hcrash, if_neg hempty, bind_apply, hd]
  exact hsuffix

/-- The end of what a command prints that runs a program which fails or is rejected. -/
theorem runCommand_suffix (hpretty : w.pretty = true)
    (hread : w.readSource "run" "<file|->" c = (.ok (source, file), d))
    (he : (w.settings.run w.call.files source file).1 = .error e) (hne : e.diagnostics ≠ []) :
    w.printed source e.diagnostics <:+ (w.runCommand c).2.err := by
  unfold runCommand
  rw [bind_apply, hread]
  dsimp only
  generalize w.settings.run w.call.files source file = r at he ⊢
  obtain ⟨result, i⟩ := r
  cases he
  obtain ⟨d, hd⟩ := w.goesOn_absorb 0 0 i d
  dsimp only
  rw [bind_apply, hd]
  exact report_suffix hpretty hne

variable {s s' t : Session} {chunk chunk' : List Text} {line : Text}

/-- The end of what a session prints about an input that fails or is rejected. -/
theorem takeLine_suffix (hpretty : w.pretty = true) (he : (s.feed line).1 = .error e)
    (hne : e.diagnostics ≠ []) :
    w.printed (Text.join "\n" (line :: chunk).reverse) e.diagnostics <:+
      (w.takeLine s chunk line c).2.err := by
  have hcrash : e ≠ .failed .crash := fun h => hne (by rw [h]; rfl)
  have hempty : ¬e.diagnostics.isEmpty = true := fun h => hne (List.isEmpty_iff.1 h)
  unfold takeLine
  dsimp only
  generalize s.feed line = r at he ⊢
  obtain ⟨result, s'⟩ := r
  cases he
  dsimp only
  generalize s.interpreter.state.writes.size = writes
  generalize s.interpreter.state.log.size = records
  obtain ⟨d, hd⟩ := w.goesOn_absorb writes records s'.interpreter c
  obtain ⟨d', hd', hsuffix⟩ :=
    diagnose_suffix hpretty (Text.join "\n" (line :: chunk).reverse) e.diagnostics d
  rw [bind_apply, hd]
  dsimp only
  unfold reportInput
  rw [if_neg hcrash, if_neg hempty, bind_apply, hd']
  exact hsuffix

/-- What a session is after the text of a value was printed. -/
theorem printText_eq_ok {v : Value} (h : (do
      let (writes, records) := (s.interpreter.state.writes.size, s.interpreter.state.log.size)
      let (text, i) := s.interpreter.stringify v
      w.absorb writes records i
      match text with
      | .ok t => print (w.paint "32" t ++ "\n")
      | .error e => reportFailure e
      return { s with interpreter := i } : Shell Session) c = (.ok s', d)) :
    s' = { s with interpreter := (s.interpreter.stringify v).2 } := by
  generalize s.interpreter.stringify v = r at h ⊢
  obtain ⟨text, i⟩ := r
  obtain ⟨_, _, -, h⟩ := bind_eq_ok h
  cases text <;>
    · obtain ⟨_, _, -, h⟩ := bind_eq_ok h
      cases h
      rfl

theorem printValue_eq_ok {v : Value} (h : w.printValue s v c = (.ok s', d)) :
    s' = s ∨ s' = { s with interpreter := (s.interpreter.stringify v).2 } := by
  unfold printValue at h
  cases hraw : s.interpreter.state.store.raw? v with
  | none =>
    rw [hraw] at h
    exact .inr (printText_eq_ok h)
  | some u =>
    rw [hraw] at h
    cases u with
    | nil =>
      cases h
      exact .inl rfl
    | _ => exact .inr (printText_eq_ok h)

/-- What a session and the lines of its input are after a line was taken. -/
theorem takeLine_eq_ok (h : w.takeLine s chunk line c = (.ok (s', chunk'), d)) :
    match s.feed line with
    | (.more, t) => s' = t ∧ chunk' = line :: chunk
    | (.value v, t) =>
      (s' = t ∨ s' = { t with interpreter := (t.interpreter.stringify v).2 }) ∧ chunk' = []
    | (_, t) => s' = t ∧ chunk' = [] := by
  unfold takeLine at h
  dsimp only at h
  generalize s.feed line = r at h ⊢
  obtain ⟨result, t⟩ := r
  obtain ⟨_, c₁, -, h⟩ := bind_eq_ok h
  cases result with
  | more | nothing =>
    cases h
    exact ⟨rfl, rfl⟩
  | error e =>
    obtain ⟨_, c₂, -, h⟩ := bind_eq_ok h
    cases h
    exact ⟨rfl, rfl⟩
  | value v =>
    obtain ⟨s₁, c₂, hvalue, h⟩ := bind_eq_ok h
    cases h
    exact ⟨printValue_eq_ok hvalue, rfl⟩

/-! ### What is reported about which text -/

/-- The sessions that come up, behind the texts that were read in them, and the lines that wait for the rest
of an input. Files were imported only with texts that they may have had. -/
inductive Reached (w : Workplace) (imported : Imported) : List Text → Session → List Text → Prop
  /-- Nothing was entered. -/
  | new : Reached w imported [] (Session.new w.settings w.call.files) []
  /-- A line was taken. -/
  | line {texts : List Text} {s s' : Session} {chunk chunk' : List Text} {line : Text} {c d : Console}
    (h : Reached w imported texts s chunk)
    (himports : s.ImportsOnly imported (Text.join "\n" (line :: chunk).reverse) line)
    (htake : w.takeLine s chunk line c = (.ok (s', chunk'), d)) :
    Reached w imported (Text.join "\n" (line :: chunk).reverse :: texts) s' chunk'
  /-- An input was dropped. -/
  | reset {texts : List Text} {s : Session} {chunk : List Text} (h : Reached w imported texts s chunk) :
    Reached w imported texts s.reset []

/-- What is reported about which text, and what the console is then: an error about the program that is
run, or one about an input of a session, with the name of the file and the texts that were read as that
file before. Files were imported only with texts that they may have had. -/
inductive Reports (w : Workplace) (imported : Imported) :
    Text → List Text → Text → RunError → Console → Prop
  /-- A program was run. -/
  | run {source file : Text} {e : RunError} {c d : Console}
    (hread : w.readSource "run" "<file|->" c = (.ok (source, file), d))
    (himports : w.settings.ImportsOnly imported w.call.files source file)
    (he : (w.settings.run w.call.files source file).1 = .error e) :
    Reports w imported file [] source e (w.runCommand c).2
  /-- A line of a session was taken. -/
  | input {texts : List Text} {s : Session} {chunk : List Text} {line : Text} {e : RunError}
    {c : Console} (h : Reached w imported texts s chunk)
    (himports : s.ImportsOnly imported (Text.join "\n" (line :: chunk).reverse) line)
    (he : (s.feed line).1 = .error e) :
    Reports w imported Session.fileName texts (Text.join "\n" (line :: chunk).reverse) e
      (w.takeLine s chunk line c).2

variable {texts : List Text} {imported : Imported}

theorem entered_reverse (chunk : List Text) (line : Text) :
    Session.entered chunk.reverse line = Text.join "\n" (line :: chunk).reverse := by
  rw [List.reverse_cons]
  rfl

/-- A session holds only code of the texts that were read in it, which are among those that were entered,
and of files. -/
theorem Reached.holds {entered : List Text} (h : w.Reached imported texts s chunk)
    (htexts : texts ⊆ entered) :
    s.Holds (imported.placing Session.fileName entered) chunk.reverse := by
  induction h with
  | new => exact .new _ _ (Comparison.whole_importing _) ⟨rfl, fun _ h => absurd h List.not_mem_nil⟩
  | reset h ih => exact (ih htexts).reset
  | @line texts s s' chunk chunk' line c d h himports htake ih =>
    obtain ⟨htext, htexts⟩ := List.cons_subset.1 htexts
    rw [← entered_reverse] at himports htext
    have hleads := (ih htexts).feed (Session.placed_read htext) himports.run
    have hshown := himports.shown
    have hend := takeLine_eq_ok htake
    generalize s.feed line = r at hleads hshown hend
    obtain ⟨result, t⟩ := r
    cases result with
    | more =>
      obtain ⟨rfl, rfl⟩ := hend
      rw [List.reverse_cons]
      exact hleads
    | nothing =>
      obtain ⟨rfl, rfl⟩ := hend
      exact hleads
    | error e =>
      obtain ⟨rfl, rfl⟩ := hend
      cases e <;> exact hleads.1
    | value v =>
      obtain ⟨hs', rfl⟩ := hend
      rcases hs' with rfl | rfl
      · exact hleads.1
      · exact hleads.1.shown hleads.2 (hshown v t rfl)

/-- What is reported is in the text that it is reported about, or it is a failure of code that comes from
another text. -/
theorem Reports.originates {name : Text} {earlier : List Text}
    (h : w.Reports imported name earlier source e d) : e.Originates imported name earlier source := by
  cases h with
  | run _ himports he => exact Settings.run_originates himports he
  | @input texts s chunk line _ _ h himports he =>
    rw [← entered_reverse] at himports ⊢
    have hleads := (h.holds (List.subset_cons_self _ _)).feed
      (Session.placed_read List.mem_cons_self) himports.run
    generalize s.feed line = r at hleads he
    obtain ⟨result, t⟩ := r
    cases he
    cases e with
    | rejected ds => exact hleads.2
    | failed e => exact hleads.2

end Workplace

/-! ### The line that is shown -/

/-- The texts that were parsed as a file when an error is reported. A text that is rejected is not run, so
there is no other one then. -/
def RunError.Parsed (imported : Imported) (name : Text) (earlier : List Text) (source : Text) :
    RunError → Text → Text → Prop
  | .rejected _, file, text => file = name ∧ text = source
  | .failed _, file, text => imported.Parses name (source :: earlier) file text

namespace Diagnostic

variable {source text line line' : Text} {l : Location} {d : Diagnostic}

/-- Whether a diagnostic that is printed with a source shows the line that it names in a text. -/
def ShowsLineOf (text source : Text) (d : Diagnostic) : Prop :=
  ∃ l line, d.location = some l ∧ sourceLine? text l = some line ∧
    d.withSource source = d.pretty ++ excerpt line l

/-- A line that can be shown has no end of a line in it. -/
theorem newline_not_mem_sourceLine (h : sourceLine? source l = some line) : Text.newline ∉ line := by
  unfold sourceLine? at h
  split at h
  · cases h
  · obtain ⟨whole, hwhole, rfl⟩ := Option.map_eq_some_iff.1 h
    intro hmem
    unfold Text.trimRight at hmem
    have hsub := (List.dropWhile_sublist (List.contains [0x0d])).subset (List.mem_reverse.1 hmem)
    exact Text.newline_not_mem_lines source whole (List.mem_of_getElem? hwhole) (List.mem_reverse.1 hsub)

theorem excerpt_ne_nil : excerpt line l ≠ [] :=
  List.append_ne_nil_of_right_ne_nil _ (by decide)

/-- The line can be read off the excerpt. -/
theorem excerpt_inj (hline : Text.newline ∉ line) (hline' : Text.newline ∉ line')
    (h : excerpt line l = excerpt line' l) : line = line' := by
  have before {line : Text} (hline : Text.newline ∉ line) (rest : Text) :
      (line ++ Text.newline :: rest).takeWhile (· != Text.newline) = line := by
    have hkept : ∀ b ∈ line, (b != Text.newline) = true := fun b hb =>
      bne_iff_ne.2 (ne_of_mem_of_not_mem hb hline)
    rw [List.takeWhile_append_of_pos hkept]
    exact List.append_nil _
  unfold excerpt at h
  simp only [List.append_assoc] at h
  iterate 5 replace h := List.append_cancel_left h
  have hlines := congrArg (List.takeWhile (· != Text.newline)) h
  exact (before hline _).symm.trans (hlines.trans (before hline' _))

/-- The line of a text is shown if and only if the source has the same one in this place. -/
theorem showsLineOf_iff (hd : d.location = some l) (hline : sourceLine? text l = some line) :
    d.ShowsLineOf text source ↔ sourceLine? source l = some line := by
  unfold ShowsLineOf withSource
  rw [hd]
  constructor
  · rintro ⟨_, _, ⟨⟩, hline', hshown⟩
    cases hline.symm.trans hline'
    have hshown := List.append_cancel_left hshown
    dsimp only at hshown
    cases hsource : sourceLine? source l with
    | none =>
      rw [hsource] at hshown
      exact absurd hshown.symm excerpt_ne_nil
    | some shown =>
      rw [hsource] at hshown
      rw [excerpt_inj (newline_not_mem_sourceLine hsource) (newline_not_mem_sourceLine hline) hshown]
  · intro hsource
    refine ⟨l, line, rfl, hline, ?_⟩
    dsimp only
    rw [hsource]

theorem withSource_of_none (hd : d.location = none) : d.withSource source = d.pretty := by
  unfold withSource
  rw [hd]
  exact List.append_nil _

end Diagnostic

namespace Workplace

variable {w : Workplace} {imported : Imported} {name source : Text} {earlier : List Text} {e : RunError}
  {d : Console}

/-- Every diagnostic that is reported comes from a text that was parsed as the file that it names: for a
rejection this is the text that it is reported about, and for a failure it is the one in which the code was
entered that failed. Whatever text that is, the excerpt is its line if and only if the text that the
diagnostic is reported about has the same line in this place. -/
theorem reported_line (h : w.Reports imported name earlier source e d) :
    (w.pretty = true → e.diagnostics ≠ [] → w.printed source e.diagnostics <:+ d.err) ∧
      ∀ x ∈ e.diagnostics, x.location = none ∧ x.withSource source = x.pretty ∨
        ∃ (span : Span) (text : Text), x.location = some span.location ∧ span.StartsIn text span.file ∧
          e.Parsed imported name earlier source span.file text ∧
          (x.ShowsLineOf text source ↔
            Diagnostic.sourceLine? source span.location = Diagnostic.sourceLine? text span.location) := by
  refine ⟨fun hpretty hne => ?_, fun x hx => ?_⟩
  · cases h with
    | run hread _ he => exact runCommand_suffix hpretty hread he hne
    | input _ _ he => exact takeLine_suffix hpretty he hne
  · have horigin := h.originates
    have shown {span : Span} {text file : Text} (hlocation : x.location = some span.location)
        (hspan : span.StartsIn text file) : x.ShowsLineOf text source ↔
          Diagnostic.sourceLine? source span.location = Diagnostic.sourceLine? text span.location := by
      obtain ⟨line, hline⟩ := hspan.sourceLine
      rw [hline]
      exact Diagnostic.showsLineOf_iff hlocation hline
    cases e with
    | rejected ds =>
      obtain ⟨span, hlocation, hspan⟩ := horigin x hx
      have hfile := hspan.file_eq
      exact .inr ⟨span, source, hlocation, hfile.symm ▸ hspan, ⟨hfile, rfl⟩, shown hlocation hspan⟩
    | failed e =>
      cases e with
      | fault f =>
        cases List.mem_singleton.1 hx
        cases hf : f.span with
        | none =>
          have hnone : f.diagnostic.location = none := congrArg (Option.map Span.location) hf
          exact .inl ⟨hnone, Diagnostic.withSource_of_none hnone⟩
        | some span =>
          obtain ⟨text, hparsed, hspan⟩ := horigin span hf
          have hlocation : f.diagnostic.location = some span.location :=
            congrArg (Option.map Span.location) hf
          exact .inr ⟨span, text, hlocation, hspan, hparsed, shown hlocation hspan⟩
      | _ => cases hx

end Workplace

/-! ### Two programs that fail -/

/-- A workplace in which the program `main.em` is run and diagnostics are for people. -/
def Workplace.running (files : List (Text × FileNode)) : Workplace where
  call := { args := [("--pretty" : Text), "run", "main.em"], files := { root := .dir files } }
  config := {}
  configPath := []
  pretty := true
  colour := false
  flags := { args := [("main.em" : Text)] }

/-- Whether a text runs into an error and imports files with certain texts only. -/
def Settings.runsInto (settings : Settings) (imported : Imported) (files : Files) (source file : Text)
    (e : RunError) : Bool :=
  (match (settings.run files source file).1 with
    | .ok _ => false
    | .error e' => e' == e) &&
    (Program.accept source file).toOption.all fun b =>
      (Request.run b).bypasses (Task.importsOther imported) (settings.begun files file b).host
        (settings.begun files file b).state

theorem Workplace.reports_of_runsInto {w : Workplace} {imported : Imported} {source file : Text}
    {e : RunError} {c d : Console}
    (hread : w.readSource "run" "<file|->" c = (.ok (source, file), d))
    (h : w.settings.runsInto imported w.call.files source file e = true) :
    w.Reports imported file [] source e (w.runCommand c).2 := by
  obtain ⟨herror, himports⟩ := Bool.and_eq_true_iff.1 h
  refine .run hread (fun b hb => Request.bypasses_of_bypasses ?_) ?_
  · rw [hb] at himports
    exact himports
  · generalize (w.settings.run w.call.files source file).1 = r at herror ⊢
    cases r with
    | ok v => cases herror
    | error e' => rw [eq_of_beq herror]

/-- A program whose second line fails. -/
def secondFails : Text := "let x = 1;\nnope;"

/-- How it fails. -/
def nopeInMain : Fault where
  code := .undefinedValue
  message := "undefined value 'nope'"
  span := some ⟨"main.em", 2, 1, 11, 15⟩

/-- The second line of the program is shown. -/
theorem secondFails_reported_line :
    (Workplace.running [("main.em", .file secondFails)]).Reports (fun _ _ => false) "main.em" []
        secondFails (.failed (.fault nopeInMain))
        ((Workplace.running [("main.em", .file secondFails)]).runCommand { files := {} }).2 ∧
      nopeInMain.diagnostic.ShowsLineOf secondFails secondFails := by
  have hreports : (Workplace.running [("main.em", .file secondFails)]).Reports (fun _ _ => false)
      "main.em" [] secondFails (.failed (.fault nopeInMain))
      ((Workplace.running [("main.em", .file secondFails)]).runCommand { files := {} }).2 :=
    Workplace.reports_of_runsInto (d := { files := {} }) rfl (by decide +kernel)
  refine ⟨hreports, ?_⟩
  obtain ⟨hnone, -⟩ | ⟨span, text, hlocation, -, hparsed, hshows⟩ :=
    (Workplace.reported_line hreports).2 _ List.mem_cons_self
  · cases hnone
  · obtain ⟨-, htext⟩ | himported := hparsed
    · cases List.mem_singleton.1 htext
      exact hshows.2 rfl
    · cases himported

/-- A program that calls a function of a file. -/
def callsImported : Text := "import f from \"lib.em\";\nlet x = 1;\nf();"

/-- A file with a function that fails on its second line. -/
def failingImport : Text := "let y = 2;\nfn f() \x7b return nope; \x7d"

/-- How the function fails. -/
def nopeInImport : Fault where
  code := .undefinedValue
  message := "undefined value 'nope'"
  span := some ⟨"/lib.em", 2, 17, 27, 31⟩

/-- The line that is shown under a failure is not always one of the text in which the code was entered:
here it is the second line of the program, and the second line of the imported file failed. -/
theorem shows_line_of_other_text : ¬∀ {w : Workplace} {imported : Imported} {name source : Text}
    {e : RunError} {d : Console}, w.Reports imported name [] source e d → ∀ x ∈ e.diagnostics,
      ∀ (span : Span) (text : Text), x.location = some span.location →
        e.Parsed imported name [] source span.file text → x.ShowsLineOf text source := by
  intro h
  have hreports : (Workplace.running
      [("lib.em", .file failingImport), ("main.em", .file callsImported)]).Reports
      (fun file text => file == "/lib.em" && text == failingImport) "main.em" [] callsImported
      (.failed (.fault nopeInImport)) _ :=
    Workplace.reports_of_runsInto (c := { files := {} }) (d := { files := {} }) rfl (by decide +kernel)
  obtain ⟨l, line, hl, hline, hshown⟩ := h hreports nopeInImport.diagnostic List.mem_cons_self
    ⟨"/lib.em", 2, 17, 27, 31⟩ failingImport rfl (.inr (by decide +kernel))
  cases hl
  rw [show line = "fn f() \x7b return nope; \x7d" from (Option.some.inj hline).symm] at hshown
  exact absurd hshown (by decide +kernel)

end ScriptLang
