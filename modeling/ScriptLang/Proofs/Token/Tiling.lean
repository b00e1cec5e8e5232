import ScriptLang.Proofs.Token.Places
import ScriptLang.Proofs.Token.Stretch

/-!
# Tokens tile their text

The spans of the tokens of a text are stretches of it, one behind the other, with nothing between them
but blanks and whole comments. `Tiled` says this of the tokens between two offsets; `Token.Fits` says what
the span, the value and the extent of a single token have to do with the text.

A text that has no tokens is tiled in the same way up to the byte at which scanning stops
(`Token.tiled_scan`).

The stretches of the tokens of a text, with blanks between them, have the tokens of the text
(`Token.scan_spaced`). In the text itself a token can touch the next one, as in `1..x` or in two strings
side by side; what it is then depends on both. With a blank behind it a token depends on nothing else, and
it is what it was (`Stretch.spelled`).
-/

namespace ScriptLang

open Text (newline)

namespace Text

/-- The stretch of a text between two offsets. -/
def slice (t : Text) (start stop : Nat) : Text := (t.take stop).drop start

/-- The column behind a text: the distance from the last line break in it, or from right before the text
if there is none. -/
def column (before : Text) : Nat := (before.reverse.takeWhile (· != newline)).length + 1

/-- The span of the stretch of a text between two offsets. -/
def place (source file : Text) (start stop : Nat) : Span :=
  ⟨file, (source.take start).count newline + 1, column (source.take start), start, stop⟩

theorem slice_append (before u t : Text) :
    slice (before ++ (u ++ t)) before.length (before.length + u.length) = u := by
  rw [slice, ← List.append_assoc, ← List.length_append, List.take_left, List.drop_left]

theorem drop_append (before u t : Text) :
    (before ++ (u ++ t)).drop (before.length + u.length) = t := by
  rw [← List.append_assoc, ← List.length_append, List.drop_left]

end Text

namespace Cursor

theorem offset_past (c : Cursor) (t : Text) : (c.past t).offset = c.offset + t.length := by
  induction t generalizing c with
  | nil => rfl
  | cons b r ih =>
    show ((c.after b).past r).offset = _
    rw [ih, Token.offset_after, List.length_cons]
    omega

/-- The point after a text is as far from the start of its line as the text is long behind its last line
break. -/
theorem offset_past_eq (before : Text) : (past {} before).offset =
    (past {} before).lineStart + (before.reverse.takeWhile (· != newline)).length := by
  induction before using List.reverseRecOn with
  | nil => rfl
  | append_singleton before b ih =>
    have hlast : past {} (before ++ [b]) = (past {} before).after b := past_append {} before [b]
    rw [hlast, List.reverse_append, List.reverse_singleton, List.singleton_append]
    unfold after
    by_cases hb : b = newline
    · rw [if_pos hb, List.takeWhile_cons_of_neg (by simp [hb])]
      rfl
    · rw [if_neg hb, List.takeWhile_cons_of_pos (by simp [hb]), List.length_cons]
      dsimp only
      omega

/-- The span of a stretch that starts at the point after a text. -/
theorem span_past (before t file : Text) (size : Nat) : (past {} before).span file size =
    (before ++ t).place file before.length (before.length + size) := by
  have hoffset : (past {} before).offset = before.length := by
    rw [offset_past]
    exact Nat.zero_add _
  have hline : (past {} before).line = before.count newline + 1 := by
    rw [line_past]
    exact Nat.add_comm _ _
  have hcolumn := offset_past_eq before
  rw [span, Text.place, Text.column, List.take_left, hline, hoffset]
  rw [hoffset] at hcolumn
  congr 1
  omega

end Cursor

/-! ### Tilings -/

/-- What the span of a token has to do with the text that the token was scanned from. -/
structure Token.Fits (source file : Text) (t : Token) : Prop where
  /-- The token is not empty. -/
  nonempty : t.span.start < t.span.stop
  /-- It is a stretch of the text. -/
  inside : t.span.stop ≤ source.length
  /-- Its line and its column are those of its first byte. -/
  place : t.span = source.place file t.span.start t.span.stop
  /-- The stretch is one of its kind, with its value. -/
  stretch : Stretch (source.slice t.span.start t.span.stop) (source.drop t.span.stop) t.kind t.value

/-- The tokens between two offsets of a text, with what is passed over between them. -/
inductive Tiled (source file : Text) : Nat → List Token → Nat → Prop
  /-- Nothing. -/
  | nil {n} : Tiled source file n [] n
  /-- Blanks or a whole comment before the first token. -/
  | gap {start mid stop tokens} (hlt : start < mid) (hle : mid ≤ source.length)
    (hgap : Gap (source.slice start mid) (source.drop mid))
    (htiled : Tiled source file mid tokens stop) : Tiled source file start tokens stop
  /-- A token right at the first offset. -/
  | token {t tokens stop} (hfits : t.Fits source file)
    (htiled : Tiled source file t.span.stop tokens stop) :
    Tiled source file t.span.start (t :: tokens) stop

namespace Tiled

variable {source file : Text} {start stop : Nat} {tokens : List Token}

theorem start_le (h : Tiled source file start tokens stop) : ∀ t ∈ tokens, start ≤ t.span.start := by
  induction h with
  | nil => exact nofun
  | gap hlt _ _ _ ih => exact fun t ht => Nat.le_trans (Nat.le_of_lt hlt) (ih t ht)
  | token hfits _ ih =>
    refine List.forall_mem_cons.2 ⟨Nat.le_refl _, fun t ht => ?_⟩
    exact Nat.le_trans (Nat.le_of_lt hfits.nonempty) (ih t ht)

theorem fits (h : Tiled source file start tokens stop) : ∀ t ∈ tokens, t.Fits source file := by
  induction h with
  | nil => exact nofun
  | gap _ _ _ _ ih => exact ih
  | token hfits _ ih => exact List.forall_mem_cons.2 ⟨hfits, ih⟩

/-- Every token ends before the next one starts. -/
theorem ordered (h : Tiled source file start tokens stop) :
    tokens.Pairwise fun t u => t.span.stop ≤ u.span.start := by
  induction h with
  | nil => exact .nil
  | gap _ _ _ _ ih => exact ih
  | token hfits htiled ih => exact .cons htiled.start_le ih

end Tiled

namespace Token

variable {source file : Text}

/-- The value of every token but a string is the stretch that it spans. -/
theorem Fits.value_eq {t : Token} (h : t.Fits source file) (hk : t.kind ≠ .string) :
    t.value = source.slice t.span.start t.span.stop := h.stretch.value_eq hk

/-- No longer stretch that starts with a token other than a string is a token. -/
theorem Fits.longest {t : Token} (h : t.Fits source file) (hk : t.kind ≠ .string) {n : Nat}
    (hlt : t.span.stop < n) (hle : n ≤ source.length) :
    ¬(source.slice t.span.start n).IsSymbol := by
  have hsplit : source.slice t.span.start n = source.slice t.span.start t.span.stop ++
      (source.drop t.span.stop).take (n - t.span.stop) := by
    have htake : source.take n = source.take t.span.stop ++
        (source.drop t.span.stop).take (n - t.span.stop) := by
      rw [← List.take_add, Nat.add_sub_cancel' (Nat.le_of_lt hlt)]
    have hstart : t.span.start ≤ (source.take t.span.stop).length := by
      have := h.nonempty
      have := h.inside
      rw [List.length_take]
      omega
    rw [Text.slice, htake, List.drop_append_of_le_length hstart]
    rfl
  rw [hsplit]
  refine h.stretch.longest hk (List.take_prefix _ _) (List.ne_nil_of_length_pos ?_)
  rw [List.length_take, List.length_drop]
  omega

/-- The token of a stretch fits the text. -/
theorem fits_of_stretch {before u t : Text} (hsource : before ++ (u ++ t) = source) {k : Kind}
    {v : Text} (h : Stretch u t k v) :
    Fits source file ⟨k, v, source.place file before.length (before.length + u.length)⟩ := by
  have hlength : source.length = before.length + (u.length + t.length) := by
    rw [← hsource, List.length_append, List.length_append]
  have hpos := List.length_pos_iff.2 h.ne_nil
  refine ⟨?_, ?_, rfl, ?_⟩
  · show before.length < before.length + u.length
    omega
  · show before.length + u.length ≤ source.length
    omega
  · show Stretch (source.slice before.length (before.length + u.length))
      (source.drop (before.length + u.length)) k v
    rwa [← hsource, Text.slice_append, Text.drop_append]

/-- What the spans and the values of tokens have to do with the text that they were scanned from. -/
structure Exact (source file : Text) (tokens : List Token) : Prop where
  /-- No token is empty. -/
  nonempty : ∀ t ∈ tokens, t.span.start < t.span.stop
  /-- Every token ends before the next one starts. -/
  ordered : tokens.Pairwise fun t u => t.span.stop ≤ u.span.start
  /-- The line and the column of a token are those of its first byte. -/
  place : ∀ t ∈ tokens, t.span = source.place file t.span.start t.span.stop
  /-- The value of a token that is no string is the stretch that it spans. -/
  value : ∀ t ∈ tokens, t.kind ≠ .string → t.value = source.slice t.span.start t.span.stop
  /-- No longer stretch that starts with it is a word, a number, a mark or an operator. -/
  longest : ∀ t ∈ tokens, t.kind ≠ .string → ∀ n, t.span.stop < n → n ≤ source.length →
    ¬(source.slice t.span.start n).IsSymbol

theorem exact_of_tiled {start stop : Nat} {tokens : List Token}
    (h : Tiled source file start tokens stop) : Exact source file tokens where
  nonempty t ht := (h.fits t ht).nonempty
  ordered := h.ordered
  place t ht := (h.fits t ht).place
  value t ht := (h.fits t ht).value_eq
  longest t ht hk _ := (h.fits t ht).longest hk

/-- What scanning makes of a text from an offset on: tokens that tile the rest of it, or an error at a byte
up to which it is tiled. -/
def Tiles (source file : Text) (start : Nat) : Except ScanError (List Token) → Prop
  | .ok ts => ∃ tokens, ts = tokens ++ [⟨.eof, [], source.place file source.length source.length⟩] ∧
      Tiled source file start tokens source.length
  | .error e => ∃ tokens b r, Tiled source file start tokens e.point.offset ∧
      source.drop e.point.offset = b :: r ∧ piece b r = .error e.fault ∧
        e.point.span e.file 1 = source.place file e.point.offset (e.point.offset + 1)

namespace Tiles

variable {before u t : Text} {result : Except ScanError (List Token)}

/-- A stretch between tokens is passed over. -/
theorem gap (hsource : before ++ (u ++ t) = source) (hne : u ≠ []) (hgap : Gap u t)
    (h : Tiles source file (before ++ u).length result) : Tiles source file before.length result := by
  have hpos := List.length_pos_iff.2 hne
  have hlength : source.length = before.length + (u.length + t.length) := by
    rw [← hsource, List.length_append, List.length_append]
  have hstep {tokens : List Token} {stop : Nat}
      (h : Tiled source file (before ++ u).length tokens stop) :
      Tiled source file before.length tokens stop := by
    rw [List.length_append] at h
    refine .gap (by omega) (by omega) ?_ h
    rwa [← hsource, Text.slice_append, Text.drop_append]
  cases result with
  | error e =>
    obtain ⟨tokens, b, r, htiled, hstop⟩ := h
    exact ⟨tokens, b, r, hstep htiled, hstop⟩
  | ok ts =>
    obtain ⟨tokens, hts, htiled⟩ := h
    exact ⟨tokens, hts, hstep htiled⟩

/-- A token comes before the tokens behind it. -/
theorem token (hsource : before ++ (u ++ t) = source) {k : Kind} {v : Text} (hu : Stretch u t k v)
    (h : Tiles source file (before ++ u).length result) :
    Tiles source file before.length
      (result.map (⟨k, v, (Cursor.past {} before).span file u.length⟩ :: ·)) := by
  have hfits : Fits source file _ := fits_of_stretch hsource hu
  have hspan : (Cursor.past {} before).span file u.length =
      source.place file before.length (before.length + u.length) := by
    rw [Cursor.span_past before (u ++ t), hsource]
  rw [List.length_append] at h
  rw [hspan]
  cases result with
  | error e =>
    obtain ⟨tokens, b, r, htiled, hstop⟩ := h
    exact ⟨_ :: tokens, b, r, .token hfits htiled, hstop⟩
  | ok ts =>
    obtain ⟨tokens, rfl, htiled⟩ := h
    exact ⟨_ :: tokens, rfl, .token hfits htiled⟩

/-- At the end of the text there is only the token for the end. -/
theorem eof (source file : Text) : Tiles source file source.length
    (.ok [⟨.eof, [], (Cursor.past {} source).span file 0⟩]) := by
  refine ⟨[], ?_, .nil⟩
  rw [Cursor.span_past source [] file 0, List.append_nil]
  rfl

/-- Scanning stops at a byte at which no piece starts. -/
theorem error {b : UInt8} {r : Text} (hsource : before ++ b :: r = source) {f : ScanFault}
    (hpiece : piece b r = .error f) :
    Tiles source file before.length (.error ⟨f, Cursor.past {} before, file⟩) := by
  have hoffset : (Cursor.past {} before).offset = before.length := by
    rw [Cursor.offset_past]
    exact Nat.zero_add _
  refine ⟨[], b, r, ?_, ?_, hpiece, ?_⟩
  · show Tiled source file before.length [] (Cursor.past {} before).offset
    rw [hoffset]
    exact .nil
  · show source.drop (Cursor.past {} before).offset = b :: r
    rw [hoffset, ← hsource, List.drop_left]
  · show (Cursor.past {} before).span file 1 = source.place file (Cursor.past {} before).offset _
    rw [hoffset, ← hsource]
    exact Cursor.span_past before (b :: r) file 1

end Tiles

/-- What is scanned from the point after the text `before` on. The induction is on the text that is left,
of which every piece takes a stretch away. -/
theorem tiles_scanFrom (before rest : Text) (hsource : before ++ rest = source) :
    Tiles source file before.length (scanFrom file 0 (Cursor.past {} before) rest) := by
  induction hn : rest.length using Nat.strong_induction_on generalizing before rest with
  | _ n ih =>
  subst hn
  cases rest with
  | nil =>
    obtain rfl : before = source := by rw [← hsource, List.append_nil]
    exact .eof before file
  | cons b r =>
    have hbehind {u t : Text} (hr : r = u ++ t) : Tiles source file (before ++ b :: u).length
        (scanFrom file u.length ((Cursor.past {} before).after b) r) := by
      have hpast : ((Cursor.past {} before).after b).past u = Cursor.past {} (before ++ b :: u) :=
        (Cursor.past_append {} before (b :: u)).symm
      rw [hr, Spelled.scanFrom_append, hpast]
      refine ih t.length ?_ _ t ?_ rfl
      · rw [hr, List.length_cons, List.length_append]
        omega
      · rw [← hsource, hr, List.append_assoc, List.cons_append]
    cases hpiece : piece b r with
    | error f =>
      rw [scanFrom_error hpiece]
      exact .error hsource hpiece
    | ok x =>
      cases x with
      | gap size =>
        obtain ⟨u, t, hr, rfl, hgap⟩ := gap_of_piece hpiece
        rw [scanFrom_gap hpiece, Nat.add_sub_cancel]
        exact .gap (by rw [← hsource, hr, List.cons_append]) (List.cons_ne_nil b u) hgap (hbehind hr)
      | token size k v =>
        obtain ⟨u, t, hr, rfl, hu⟩ := stretch_of_piece hpiece
        rw [scanFrom_token hpiece, Nat.add_sub_cancel]
        exact .token (by rw [← hsource, hr, List.cons_append]) hu (hbehind hr)

/-- The tokens of a text tile it, up to the token for its end: they stand one behind the other, and each
of them that is no string is the text that it spans and as long as it can be. If scanning stops, the text
before the byte at which it stops is tiled in the same way. -/
theorem tiled_scan (source file : Text) :
    match scan source file with
    | .ok ts => ∃ tokens, ts = tokens ++ [⟨.eof, [], source.place file source.length source.length⟩] ∧
        Tiled source file 0 tokens source.length ∧ Exact source file tokens
    | .error e => ∃ tokens b r, Tiled source file 0 tokens e.point.offset ∧ Exact source file tokens ∧
        source.drop e.point.offset = b :: r ∧ piece b r = .error e.fault ∧
        e.point.span e.file 1 = source.place file e.point.offset (e.point.offset + 1) := by
  have htiles : Tiles source file 0 (scan source file) := tiles_scanFrom [] source rfl
  generalize scan source file = result at htiles ⊢
  cases result with
  | ok ts =>
    obtain ⟨tokens, hts, htiled⟩ := htiles
    exact ⟨tokens, hts, htiled, exact_of_tiled htiled⟩
  | error e =>
    obtain ⟨tokens, b, r, htiled, hstop⟩ := htiles
    exact ⟨tokens, b, r, htiled, exact_of_tiled htiled, hstop⟩

end Token

end ScriptLang

namespace ScriptLang

open Token

/-- Texts with other texts between them. -/
def Text.spaced : List Text → List Text → Text
  | x :: xs, w :: ws => x ++ (w ++ spaced xs ws)
  | xs, _ => xs.flatten

/-- Whether a text is empty or starts with a blank. -/
def Text.StartsBlank (t : Text) : Prop := ∀ b ∈ t.head?, Token.isBlank b = true

namespace Spelled

variable {t : Text} {ls : List Lexeme}

theorem blanks {w : Text} (hw : ∀ b ∈ w, isBlank b = true) (h : Spelled t ls) :
    Spelled (w ++ t) ls := by
  induction w with
  | nil => exact h
  | cons b w ih =>
    obtain ⟨hb, hw⟩ := List.forall_mem_cons.1 hw
    exact blank hb (ih hw)

theorem isBlank_class {b : UInt8} : isBlank b = true →
    Text.isWordByte b = false ∧ b ≠ Text.quoteMark ∧ b ≠ 0x2e :=
  Text.forall_byte (p := fun b => isBlank b = true →
    Text.isWordByte b = false ∧ b ≠ Text.quoteMark ∧ b ≠ 0x2e) (by decide +kernel) b

theorem breaks_of_startsBlank (ht : t.StartsBlank) : t.breaks = true := by
  cases t with
  | nil => rfl
  | cons b r =>
    obtain ⟨hword, hquote, hpoint⟩ := isBlank_class (ht b rfl)
    simp [Text.breaks, hword, hquote, hpoint]

/-- Blanks do not lengthen operators. -/
theorem stops_of_startsBlank {k : Kind} (hk : k ∈ Kind.operators) (ht : t.StartsBlank) :
    k.stops t = true := by
  have hnone : ∀ k ∈ Kind.operators, ∀ b ∈ k.continuations, isBlank b = false := by decide +kernel
  cases t with
  | nil => rfl
  | cons b r =>
    have hb : b ∉ k.continuations := by
      intro hmem
      have := hnone k hk b hmem
      rw [ht b rfl] at this
      cases this
    simpa [Kind.stops] using hb

end Spelled

namespace Stretch

variable {body t : Text} {v : Text} {ls : List Lexeme}

/-- A string in one quote before a blank does not look like one in three quotes. -/
theorem inTriple?_quote (hbody : ∀ t', untilQuote? (body ++ 0x22 :: t') = some body)
    (ht : t.StartsBlank) : inTriple? (0x22 :: (body ++ 0x22 :: t)) = none := by
  have hno : ¬(Text.ofString "\"\"\"").isPrefixOf (0x22 :: (body ++ 0x22 :: t)) = true := by
    intro hquotes
    obtain ⟨r, hr⟩ := List.isPrefixOf_iff_prefix.1 hquotes
    replace hr : 0x22 :: 0x22 :: r = body ++ 0x22 :: t := (List.cons.inj hr).2
    cases body with
    | nil =>
      have htail : 0x22 :: r = t := (List.cons.inj hr).2
      have hblank := ht 0x22 (by rw [← htail]; rfl)
      cases hblank
    | cons c body =>
      obtain ⟨rfl, -⟩ := List.cons.inj hr
      cases hbody []
  rw [inTriple?, if_neg hno]

theorem spelled_quote (hbody : ∀ t', untilQuote? (body ++ 0x22 :: t') = some body)
    (hv : unescape body = .ok v) (ht : t.StartsBlank) (h : Spelled t ls) :
    Spelled (0x22 :: (body ++ [0x22]) ++ t) (.string v :: ls) := by
  refine .token ?_ h
  have hpiece := piece_quoteMark (body ++ 0x22 :: t)
  have hnone : inTriple? (Text.quoteMark :: (body ++ 0x22 :: t)) = none := inTriple?_quote hbody ht
  rw [hnone, hbody t] at hpiece
  dsimp only at hpiece
  rw [stringPiece, hv] at hpiece
  rw [List.append_assoc, List.length_append]
  exact hpiece

theorem spelled_triple (hbody : ∀ t', untilTriple? (body ++ 0x22 :: 0x22 :: 0x22 :: t') = some body)
    (hv : unescape body = .ok v) (h : Spelled t ls) :
    Spelled (0x22 :: 0x22 :: 0x22 :: (body ++ [0x22, 0x22, 0x22]) ++ t) (.string v :: ls) := by
  refine .token ?_ h
  have hpiece := piece_quoteMark (0x22 :: 0x22 :: (body ++ 0x22 :: 0x22 :: 0x22 :: t))
  have hsome : inTriple? (Text.quoteMark :: 0x22 :: 0x22 :: (body ++ 0x22 :: 0x22 :: 0x22 :: t)) =
      some body := hbody t
  rw [hsome] at hpiece
  dsimp only at hpiece
  rw [stringPiece, hv] at hpiece
  simp only [List.cons_append, List.append_assoc, List.length_cons, List.length_append]
  exact hpiece

/-- A token before a blank, or at the end, is what it was before other text. -/
theorem spelled {u t' : Text} {k : Kind} (h : Stretch u t k v) (ht' : t'.StartsBlank)
    (hs : Spelled t' ls) : Spelled (u ++ t') (⟨k, v⟩ :: ls) := by
  have hbreaks := Spelled.breaks_of_startsBlank ht'
  cases h with
  | word hu => exact .word hu (Spelled.breaks_word hbreaks) hs
  | number hu => exact .number hu hbreaks hs
  | operator hk => exact .mark hk (Spelled.stops_of_startsBlank hk ht') hs
  | quote hbody hv => exact spelled_quote hbody hv ht' hs
  | triple hbody hv => exact spelled_triple hbody hv hs

end Stretch

namespace Token

/-- The stretches of tokens, with blanks between them, spell the tokens. -/
theorem spelled_spaced {source file : Text} {tokens : List Token}
    (hfits : ∀ t ∈ tokens, t.Fits source file) {ws : List Text}
    (hlength : ws.length = tokens.length - 1) (hws : ∀ w ∈ ws, w ≠ [] ∧ ∀ b ∈ w, isBlank b = true) :
    Spelled (Text.spaced (tokens.map fun t => source.slice t.span.start t.span.stop) ws)
      (tokens.map Token.lexeme ++ [.eof]) := by
  induction tokens generalizing ws with
  | nil => exact .nil
  | cons t tokens ih =>
    obtain ⟨ht, hrest⟩ := List.forall_mem_cons.1 hfits
    cases tokens with
    | nil =>
      obtain rfl : ws = [] := List.length_eq_zero_iff.1 hlength
      exact ht.stretch.spelled nofun .nil
    | cons t' tokens =>
      obtain ⟨w, ws, rfl⟩ := List.exists_cons_of_length_eq_add_one hlength
      obtain ⟨⟨hne, hw⟩, hws⟩ := List.forall_mem_cons.1 hws
      have htail := ih hrest (by simpa using hlength) hws
      refine ht.stretch.spelled ?_ (.blanks hw htail)
      obtain ⟨b, w, rfl⟩ := List.exists_cons_of_ne_nil hne
      rintro c ⟨⟩
      exact hw b List.mem_cons_self

/-- If the stretches of the tokens of a text are written with any blanks between them, the text that this
gives has the same tokens in other places. -/
theorem scan_spaced {source file : Text} {ts : List Token} (h : scan source file = .ok ts)
    {ws : List Text} (hlength : ws.length = ts.dropLast.length - 1)
    (hws : ∀ w ∈ ws, w ≠ [] ∧ ∀ b ∈ w, isBlank b = true) (file' : Text) :
    ∃ us, scan (Text.spaced (ts.dropLast.map fun t => source.slice t.span.start t.span.stop) ws)
        file' = .ok us ∧
      us.map Token.lexeme = ts.map Token.lexeme := by
  have htiles : Tiles source file 0 (scan source file) := tiles_scanFrom [] source rfl
  rw [h] at htiles
  obtain ⟨tokens, rfl, htiled⟩ := htiles
  rw [List.dropLast_concat] at hlength ⊢
  obtain ⟨us, hus, hlexemes⟩ := spelled_spaced htiled.fits hlength hws file' {}
  refine ⟨us, hus, ?_⟩
  rw [hlexemes, List.map_append]
  rfl

/-- A number, operators, a word and two strings that touch each other, pulled apart. -/
theorem scan_spaced_touching : ∃ ts us, scan "1..x??=\"\"\"a\"" "main" = .ok ts ∧
    scan "1 ..\tx\n??=  \"\" \"a\"" "main" = .ok us ∧
      us.map Token.lexeme = ts.map Token.lexeme := by
  obtain ⟨ts, hts, hstretches⟩ : ∃ ts, scan "1..x??=\"\"\"a\"" "main" = .ok ts ∧
      ts.dropLast.map (fun t => Text.slice "1..x??=\"\"\"a\"" t.span.start t.span.stop) =
        ["1", "..", "x", "??=", "\"\"", "\"a\""] := ⟨_, rfl, rfl⟩
  have hcount : ts.dropLast.length = 6 := by
    have := congrArg List.length hstretches
    rwa [List.length_map] at this
  have hblanks : ∀ w ∈ ([" ", "\t", "\n", "  ", " "] : List Text),
      w ≠ [] ∧ ∀ b ∈ w, isBlank b = true := by decide +kernel
  obtain ⟨us, hus, hlexemes⟩ := scan_spaced hts (by rw [hcount]; rfl) hblanks "main"
  rw [hstretches] at hus
  exact ⟨ts, us, hts, hus, hlexemes⟩

end Token

end ScriptLang
