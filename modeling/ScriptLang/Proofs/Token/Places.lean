import ScriptLang.Proofs.Token.Sequel

/-!
# Where spans start

A span *starts in* a text if its offset, its line and its column are those of a point of the text. The
span of every token that is scanned from a text starts in it, and so does the span of the byte at which
scanning stops (`Token.startsIn_scan`). A span keeps its start when it is prolonged.

The text has a line of the number that such a span gives (`Span.StartsIn.sourceLine`), so a diagnostic
with the span shows that line if it is shown with the text.
-/

namespace ScriptLang

open Text (newline)

namespace Text

/-- A text has a line for every line break and one more. -/
theorem length_lines (t : Text) : (lines t).length = t.count newline + 1 := by
  induction t with
  | nil => rfl
  | cons b r ih =>
    unfold lines
    split
    · next hb => rw [hb, List.count_cons_self, List.length_cons, ih]
    · next hb =>
      rw [List.count_cons_of_ne hb]
      generalize lines r = ls at ih ⊢
      cases ls with
      | nil => cases ih
      | cons l ls => exact ih

theorem newline_not_mem_lines (t : Text) : ∀ line ∈ lines t, newline ∉ line := by
  induction t with
  | nil => exact List.forall_mem_singleton.2 List.not_mem_nil
  | cons b r ih =>
    unfold lines
    split
    · exact List.forall_mem_cons.2 ⟨List.not_mem_nil, ih⟩
    · next hb =>
      generalize lines r = ls at ih ⊢
      cases ls with
      | nil => exact List.forall_mem_singleton.2 fun h => hb (List.mem_singleton.1 h).symm
      | cons l ls =>
        obtain ⟨hl, hls⟩ := List.forall_mem_cons.1 ih
        refine List.forall_mem_cons.2 ⟨fun h => ?_, hls⟩
        exact (List.mem_cons.1 h).elim (fun h => hb h.symm) hl

end Text

namespace Cursor

theorem past_append (c : Cursor) (t u : Text) : c.past (t ++ u) = (c.past t).past u :=
  List.foldl_append

/-- The point after a text is as many lines on as the text has line breaks. -/
theorem line_past (c : Cursor) (t : Text) : (c.past t).line = c.line + t.count newline := by
  induction t generalizing c with
  | nil => rfl
  | cons b r ih =>
    show ((c.after b).past r).line = _
    rw [ih]
    unfold after
    split
    · next hb =>
      rw [hb, List.count_cons_self]
      exact Nat.succ_add_eq_add_succ _ _
    · next hb => rw [List.count_cons_of_ne hb]

end Cursor

/-- Whether a span starts at a point of the text of a file. -/
def Span.StartsIn (source file : Text) (span : Span) : Prop :=
  ∃ before stop, before <+: source ∧
    span = { (Cursor.past {} before).span file 0 with stop := stop }

namespace Span.StartsIn

variable {source file : Text} {span : Span}

theorem of_point {before rest : Text} (h : before ++ rest = source) (size : Nat) :
    StartsIn source file ((Cursor.past {} before).span file size) :=
  ⟨before, _, ⟨rest, h⟩, rfl⟩

theorem upTo (h : StartsIn source file span) (last : Span) :
    StartsIn source file (span.upTo last) := by
  obtain ⟨before, _, hbefore, rfl⟩ := h
  exact ⟨before, last.stop, hbefore, rfl⟩

theorem file_eq (h : StartsIn source file span) : span.file = file := by
  obtain ⟨before, _, -, rfl⟩ := h
  rfl

/-- The line that the span names is one of the text. -/
theorem sourceLine (h : StartsIn source file span) :
    ∃ line, Diagnostic.sourceLine? source span.location = some line := by
  obtain ⟨before, stop, ⟨rest, rfl⟩, rfl⟩ := h
  have hline : (Cursor.past {} before).line = before.count newline + 1 := by
    rw [Cursor.line_past]
    exact Nat.add_comm _ _
  have hlt : before.count newline < (Text.lines (before ++ rest)).length := by
    rw [Text.length_lines, List.count_append]
    omega
  unfold Diagnostic.sourceLine?
  rw [if_neg (by show ¬((Cursor.past {} before).line : Int) ≤ 0; omega)]
  show ∃ line, ((Text.lines (before ++ rest))[((Cursor.past {} before).line : Int).toNat - 1]?).map
    (Text.trimRight [0x0d]) = some line
  rw [hline, Int.toNat_natCast, Nat.add_sub_cancel, List.getElem?_eq_getElem hlt]
  exact ⟨_, rfl⟩

end Span.StartsIn

namespace Token

/-- What was scanned so far, the text `before`, ends where the rest starts. -/
theorem startsIn_scanFrom {source file rest : Text} (skip : Nat) (before : Text)
    (h : before ++ rest = source) :
    match scanFrom file skip (Cursor.past {} before) rest with
    | .ok ts => ∀ t ∈ ts, t.span.StartsIn source file
    | .error e => (e.point.span e.file 1).StartsIn source file := by
  induction rest generalizing skip before with
  | nil =>
    unfold scanFrom
    exact List.forall_mem_singleton.2 (.of_point h 0)
  | cons b r ih =>
    have hafter : (Cursor.past {} before).after b = Cursor.past {} (before ++ [b]) :=
      (Cursor.past_append {} before [b]).symm
    have hnext (skip : Nat) := ih skip (before ++ [b]) (by simpa using h)
    rw [← hafter] at hnext
    cases skip with
    | succ skip => exact hnext skip
    | zero =>
      unfold scanFrom
      cases piece b r with
      | error f => exact .of_point h 1
      | ok x =>
        cases x with
        | gap size => exact hnext (size - 1)
        | token size kind value =>
          dsimp only
          have hrest := hnext (size - 1)
          generalize scanFrom file (size - 1) ((Cursor.past {} before).after b) r = scanned at hrest ⊢
          cases scanned with
          | error e => exact hrest
          | ok ts => exact List.forall_mem_cons.2 ⟨.of_point h size, hrest⟩

theorem startsIn_scan (source file : Text) :
    match scan source file with
    | .ok ts => ∀ t ∈ ts, t.span.StartsIn source file
    | .error e => (e.point.span e.file 1).StartsIn source file :=
  startsIn_scanFrom 0 [] rfl

end Token

end ScriptLang
