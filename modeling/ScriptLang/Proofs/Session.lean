import ScriptLang.Proofs.Eval.Runs
import ScriptLang.Proofs.Syntax.Unfinished
import ScriptLang.Proofs.Token.Lines

/-!
# Programs that are entered line by line

A session that is given a program line by line asks for more after every line but the last one and
then runs the program, if no first lines of it are something of their own: blank, a program, or an
expression. What makes a session reject first lines is an error that is not at their end. The parser
makes none, as it goes through the same tokens as in the whole program (`Program.endsAt_ofTokens`).
But the scanner may give it other tokens when a string in three quotes is still open: without the
three quotes at its end its first line is read like any other, and if a quote is in it, words after
this quote are words of the program (`quoted_line_rejected`).
-/

namespace ScriptLang

open Text (newline)

/-! ### Texts in lines -/

theorem Text.join_append (sep : Text) {first rest : List Text} (hfirst : first ≠ [])
    (hrest : rest ≠ []) :
    Text.join sep (first ++ rest) = Text.join sep first ++ sep ++ Text.join sep rest := by
  obtain ⟨u, rest, rfl⟩ := List.exists_cons_of_ne_nil hrest
  induction first with
  | nil => exact absurd rfl hfirst
  | cons t first ih =>
    cases first with
    | nil => rfl
    | cons t' first =>
      show t ++ sep ++ Text.join sep (t' :: first ++ u :: rest) = _
      rw [ih (List.cons_ne_nil _ _)]
      simp only [Text.join, List.append_assoc]

/-- The text of lines. -/
def Text.ofLines (lines : List Text) : Text := Text.join "\n" lines

theorem Text.ofLines_append {first rest : List Text} (hfirst : first ≠ []) (hrest : rest ≠ []) :
    ofLines (first ++ rest) = ofLines first ++ newline :: ofLines rest := by
  rw [ofLines, join_append _ hfirst hrest, List.append_assoc]
  rfl

/-- Whether the strings of a text that run over the byte at `n` have no other quote in the line on
which they start. -/
def Text.QuietAt (source file : Text) (n : Nat) : Prop :=
  ∀ t ∈ (Token.scan source file).toOption.getD [], t.Covers n →
    Token.untilQuote? (source.drop (t.span.start + 3)) = none

instance (source file : Text) (n : Nat) : Decidable (source.QuietAt file n) := by
  unfold Text.QuietAt Token.Covers
  infer_instance

/-- Whatever fails on the first lines of a program, more text could help. -/
theorem Program.incomplete_of_parse {p q file : Text} {b : Block}
    (h : Program.parse (p ++ newline :: q) file = .ok b)
    (hquiet : (p ++ newline :: q).QuietAt file p.length) {e : SyntaxError}
    (he : Program.parse p file = .error e) : e.incomplete = true := by
  unfold Program.parse at h he
  split at h
  · next toks htoks =>
    rw [Text.QuietAt, htoks] at hquiet
    have hbegins := Token.begins_scan htoks hquiet
    split at he
    · next ts hts =>
      rw [hts] at hbegins
      obtain ⟨us, vs, stop, rfl, rfl, hstop, hus⟩ := hbegins
      exact (Program.endsAt_ofTokens hus hstop h he).incomplete
    · next f hf =>
      rw [hf] at hbegins
      cases he
      exact decide_eq_true hbegins
  · cases h

namespace Session

/-- Whether a text is nothing of its own: it is not blank, and it is neither a program nor an
expression. -/
structure Unfinished (source : Text) : Prop where
  /-- Something is in it. -/
  blank : Text.isAllBlank source = false
  /-- It is no program. -/
  program : (Program.parse source fileName).isOk = false
  /-- It is no expression. -/
  expr : (Expr.parse source fileName).isOk = false

instance (source : Text) : Decidable (Unfinished source) :=
  decidable_of_iff (Text.isAllBlank source = false ∧ (Program.parse source fileName).isOk = false ∧
    (Expr.parse source fileName).isOk = false)
    ⟨fun h => ⟨h.1, h.2.1, h.2.2⟩, fun h => ⟨h.blank, h.program, h.expr⟩⟩

theorem read_of_unfinished {source : Text} (h : Unfinished source)
    (hmore : ∀ e, Program.parse source fileName = .error e → e.incomplete = true) :
    read source = none := by
  have hprogram := h.program
  have hexpr := h.expr
  unfold read
  cases hp : Program.parse source fileName with
  | ok b =>
    rw [hp] at hprogram
    cases hprogram
  | error e =>
    dsimp only
    rw [if_pos (hmore e hp)]
    cases he : Expr.parse source fileName with
    | ok e =>
      rw [he] at hexpr
      cases hexpr
    | error e => rfl

theorem read_of_parse {source : Text} {b : Block} (h : Program.parse source fileName = .ok b) :
    read source = some (.ok b) := by
  rw [read, h]

theorem exists_of_isOk {ε α : Type} {r : Except ε α} (h : r.isOk = true) : ∃ a, r = .ok a := by
  cases r with
  | ok a => exact ⟨a, rfl⟩
  | error e => cases h

variable {session : Session} {lines : List Text} {line : Text} {b : Block}

theorem reset_eq (hidle : session.isPending = false) : session.reset = session := by
  obtain ⟨interpreter, pending⟩ := session
  cases pending with
  | nil => rfl
  | cons b r => cases hidle

/-- What a session reads when it has collected lines, which are not blank, and is given another
one. -/
theorem source_eq (hlines : lines ≠ [] → Text.isAllBlank (Text.ofLines lines) = false) :
    (if ({ session with pending := Text.ofLines lines } : Session).isPending
      then Text.ofLines lines ++ "\n" ++ line else line) = Text.ofLines (lines ++ [line]) := by
  cases lines with
  | nil => rfl
  | cons l lines =>
    have hne : (Text.ofLines (l :: lines)).isEmpty = false := by
      cases htext : Text.ofLines (l :: lines) with
      | nil =>
        have := hlines (List.cons_ne_nil _ _)
        rw [htext] at this
        cases this
      | cons b r => rfl
    rw [isPending, hne, if_pos (by rfl),
      Text.ofLines_append (List.cons_ne_nil _ _) (List.cons_ne_nil _ _)]
    simp only [List.append_assoc]
    rfl

/-- A line of blanks where nothing was collected. -/
theorem feed_blank (hlines : lines ≠ [] → Text.isAllBlank (Text.ofLines lines) = false)
    (hblank : Text.isAllBlank (Text.ofLines (lines ++ [line])) = true) :
    { session with pending := Text.ofLines lines }.feed line = (.nothing, session.reset) := by
  unfold feed
  dsimp only
  rw [source_eq hlines, hblank, if_pos rfl]
  rfl

theorem feed_eq (hlines : lines ≠ [] → Text.isAllBlank (Text.ofLines lines) = false)
    (hblank : Text.isAllBlank (Text.ofLines (lines ++ [line])) = false) :
    { session with pending := Text.ofLines lines }.feed line =
      match read (Text.ofLines (lines ++ [line])) with
      | none => (.more, { session with pending := Text.ofLines (lines ++ [line]) })
      | some (.error e) => (.error (.rejected [e.diagnostic]), session.reset)
      | some (.ok b) => session.reset.execute b := by
  unfold feed
  dsimp only
  rw [source_eq hlines, hblank, if_neg Bool.false_ne_true]
  rfl

section Lines

variable (hb : Program.parse (Text.ofLines (lines ++ [line])) fileName = .ok b)
  (hopen : ∀ k < lines.length, Unfinished (Text.ofLines (lines.take (k + 1))))
  (hquiet : ∀ k < lines.length, (Text.ofLines (lines ++ [line])).QuietAt fileName
    (Text.ofLines (lines.take (k + 1))).length)

include hopen in
theorem notBlank_take {k : Nat} (hk : k ≤ lines.length) (hne : lines.take k ≠ []) :
    Text.isAllBlank (Text.ofLines (lines.take k)) = false := by
  cases k with
  | zero => exact absurd rfl hne
  | succ k => exact (hopen k hk).blank

include hb hopen hquiet in
/-- A session with the first lines of a program takes in one more. -/
theorem feed_more {k : Nat} (hk : k < lines.length) :
    { session with pending := Text.ofLines (lines.take k) }.feed lines[k] =
      (.more, { session with pending := Text.ofLines (lines.take (k + 1)) }) := by
  have htake : lines.take k ++ [lines[k]] = lines.take (k + 1) := List.take_append_getElem hk
  have hall : Text.ofLines (lines ++ [line]) =
      Text.ofLines (lines.take (k + 1)) ++ newline :: Text.ofLines (lines.drop (k + 1) ++ [line]) := by
    have hfirst : lines.take (k + 1) ≠ [] :=
      htake ▸ List.append_ne_nil_of_right_ne_nil _ (List.cons_ne_nil _ _)
    rw [← Text.ofLines_append hfirst (List.append_ne_nil_of_right_ne_nil _ (List.cons_ne_nil _ _)),
      ← List.append_assoc, List.take_append_drop]
  have hnone : read (Text.ofLines (lines.take (k + 1))) = none := by
    have hquiet := hquiet k hk
    rw [hall] at hb hquiet
    exact read_of_unfinished (hopen k hk) fun e he => Program.incomplete_of_parse hb hquiet he
  rw [feed_eq (notBlank_take hopen (Nat.le_of_lt hk)) (by rw [htake]; exact (hopen k hk).blank),
    htake, hnone]

include hb hopen hquiet in
/-- The first lines of a program leave a session as it was, but for the lines. -/
theorem feeds_take (hidle : session.isPending = false) {k : Nat} (hk : k ≤ lines.length) :
    session.feeds (lines.take k) = { session with pending := Text.ofLines (lines.take k) } := by
  induction k with
  | zero => exact (reset_eq hidle).symm
  | succ k ih =>
    have hfeed : { session with pending := Text.ofLines (lines.take k) }.feed lines[k] = _ :=
      feed_more hb hopen hquiet hk
    rw [← ih (Nat.le_of_succ_le hk)] at hfeed
    rw [← List.take_append_getElem hk, feeds, List.foldl_append]
    show ((session.feeds (lines.take k)).feed lines[k]).2 = _
    rw [hfeed, List.take_append_getElem hk]

end Lines

/-- A program that is entered line by line is run when its last line is there, and before this
nothing is, if its first lines are never a text of their own and its strings in three quotes have no
other quote in the line on which they start. -/
theorem feed_lines (hidle : session.isPending = false) (hlines : lines ≠ [])
    (hb : Program.parse (Text.ofLines (lines ++ [line])) fileName = .ok b)
    (hopen : ∀ k < lines.length, Unfinished (Text.ofLines (lines.take (k + 1))))
    (hquiet : ∀ k < lines.length, (Text.ofLines (lines ++ [line])).QuietAt fileName
      (Text.ofLines (lines.take (k + 1))).length) :
    (∀ k (hk : k < lines.length), (session.feeds (lines.take k)).feed lines[k] =
      (.more, { session with pending := Text.ofLines (lines.take (k + 1)) })) ∧
    (session.feeds lines).feed line = session.execute b := by
  refine ⟨fun k hk => ?_, ?_⟩
  · rw [feeds_take hb hopen hquiet hidle (Nat.le_of_lt hk)]
    exact feed_more hb hopen hquiet hk
  · have hfeeds := feeds_take hb hopen hquiet hidle (Nat.le_refl _)
    have hfirst := notBlank_take hopen (Nat.le_refl _)
    rw [List.take_length] at hfeeds hfirst
    have hblank : Text.isAllBlank (Text.ofLines (lines ++ [line])) = false := by
      rw [Text.ofLines_append hlines (List.cons_ne_nil _ _)]
      exact Bool.eq_false_iff.2 fun h =>
        Bool.false_ne_true ((hfirst hlines).symm.trans (Text.isAllBlank_of_append h))
    rw [hfeeds, feed_eq hfirst hblank, read_of_parse hb]
    exact congrArg (fun session : Session => session.execute b) (reset_eq hidle)

/-- A function on several lines, without the last one. A string goes over two of them. -/
def greeting : List Text := ["fn greet(name) \x7b", "return \"\"\"Hello,"]

/-- The last line of the function. -/
def greetingEnd : Text := "\"\"\" + name; \x7d"

theorem greeting_fed : ∃ b, Program.parse (Text.ofLines (greeting ++ [greetingEnd])) fileName = .ok b ∧
    (∀ k (hk : k < greeting.length), ((new {} {}).feeds (greeting.take k)).feed greeting[k] =
      (.more, { new {} {} with pending := Text.ofLines (greeting.take (k + 1)) })) ∧
    ((new {} {}).feeds greeting).feed greetingEnd = (new {} {}).execute b := by
  obtain ⟨b, hb⟩ : ∃ b, Program.parse (Text.ofLines (greeting ++ [greetingEnd])) fileName = .ok b :=
    exists_of_isOk (by decide +kernel)
  exact ⟨b, hb, feed_lines rfl (List.cons_ne_nil _ _) hb (by decide +kernel) (by decide +kernel)⟩

/-- The first line of a declaration. The second of its quotes after the three is in a string. -/
def measure : Text := "let s = \"\"\"5\" disk"

/-- The second line of the declaration. -/
def measureEnd : Text := "\"\"\";"

/-- Not every program can be entered line by line: a quote in the first line of a string in three
quotes can make an error of what is only unfinished. -/
theorem quoted_line_rejected : ¬∀ {session : Session} {lines : List Text} {line : Text} {b : Block},
    session.isPending = false → lines ≠ [] →
      Program.parse (Text.ofLines (lines ++ [line])) fileName = .ok b →
        (∀ k < lines.length, Unfinished (Text.ofLines (lines.take (k + 1)))) →
          (∀ k (hk : k < lines.length), (session.feeds (lines.take k)).feed lines[k] =
            (.more, { session with pending := Text.ofLines (lines.take (k + 1)) })) ∧
          (session.feeds lines).feed line = session.execute b := by
  intro h
  obtain ⟨b, hb⟩ : ∃ b, Program.parse (Text.ofLines ([measure] ++ [measureEnd])) fileName = .ok b :=
    exists_of_isOk (by decide +kernel)
  have hmore : (new {} {}).feed measure = (.more, { new {} {} with pending := measure }) :=
    (h rfl (List.cons_ne_nil _ _) hb (by decide +kernel)).1 0 Nat.one_pos
  have hno : (match ((new {} {}).feed measure).1 with
      | .more => true
      | _ => false) = false := by decide +kernel
  rw [hmore] at hno
  cases hno

end Session

end ScriptLang
