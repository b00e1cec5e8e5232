import ScriptLang.Proofs.Token.Lines

/-!
# A text and what follows it

What the scanner makes of a text when a line break and more follow. Nothing but blanks and three
quotes without others behind them makes it look over the break. If there are no such quotes, the text
has the tokens that it has alone, and then those of what follows (`scanFrom_append_newline`); an error
in it stays where it is.

Three quotes that are not closed are an empty string and the start of another string. So the tokens of
such a text have two strings in a row (`strings_of_leavesTriple`), unless there are none.
-/

namespace ScriptLang

open Text (newline)

/-- The number of bytes of a piece. -/
def Piece.size : Piece → Nat
  | gap size => size
  | token size _ _ => size

namespace Token

variable {file file' : Text} {p q : Text} {b : UInt8} {skip : Nat} {c c' : Cursor} {ts us : List Token}

/-- Whether a text starts with three quotes behind which no three quotes follow. -/
def opensTriple (t : Text) : Bool := (Text.ofString "\"\"\"").isPrefixOf t && (inTriple? t).isNone

/-- Whether scanning a text, behind `skip` bytes of it, gets to three quotes that are not closed. -/
def leavesTriple : Nat → Text → Bool
  | _, [] => false
  | skip + 1, _ :: r => leavesTriple skip r
  | 0, b :: r => opensTriple (b :: r) ||
    match piece b r with
    | .error _ => false
    | .ok x => leavesTriple (x.size - 1) r

/-! ### Single pieces -/

theorem opensTriple_eq_true : opensTriple p = true ↔
    ∃ r, p = Text.quoteMark :: Text.quoteMark :: Text.quoteMark :: r ∧ untilTriple? r = none := by
  unfold opensTriple inTriple?
  constructor
  · intro h
    obtain ⟨htriple, hnone⟩ := Bool.and_eq_true_iff.1 h
    obtain ⟨r, rfl⟩ := List.isPrefixOf_iff_prefix.1 htriple
    rw [if_pos htriple] at hnone
    exact ⟨r, rfl, Option.isNone_iff_eq_none.1 hnone⟩
  · rintro ⟨r, rfl, hr⟩
    have htriple : (Text.ofString "\"\"\"").isPrefixOf
        (Text.quoteMark :: Text.quoteMark :: Text.quoteMark :: r) = true := rfl
    rw [htriple, if_pos rfl]
    exact Option.isNone_iff_eq_none.2 hr

theorem opensTriple_of_ne (hb : b ≠ Text.quoteMark) (r : Text) : opensTriple (b :: r) = false := by
  refine Bool.eq_false_iff.2 fun h => hb ?_
  obtain ⟨r', hr, -⟩ := opensTriple_eq_true.1 h
  exact (List.cons.inj hr).1

theorem inTriple?_newline (h : opensTriple p = false) :
    inTriple? (p ++ newline :: q) = inTriple? p := by
  cases hp : inTriple? p with
  | some body =>
    have := inTriple?_append_newline p q
    rw [hp] at this
    exact (Option.filter_eq_some_iff.1 this.symm).1
  | none =>
    rw [opensTriple, hp, Option.isNone_none, Bool.and_true] at h
    rw [inTriple?, isPrefixOf_append_newline (by decide), if_neg (by rw [h]; exact Bool.false_ne_true)]

/-- A piece other than blanks is the same before a line break. -/
theorem piece_newline (hb : isBlank b = false) (h : opensTriple (b :: p) = false) :
    piece b (p ++ newline :: q) = piece b p := by
  by_cases hquote : b = Text.quoteMark
  · subst hquote
    rw [piece_quoteMark, piece_quoteMark, ← List.cons_append, inTriple?_newline h,
      untilQuote?_append_newline]
  · have hblank : ¬isBlank b = true := by rw [hb]; exact Bool.false_ne_true
    have hcomment : (b :: p ++ newline :: q).takeWhile (· != newline) =
        (b :: p).takeWhile (· != newline) := takeWhile_append_newline rfl _ _
    have hword : (b :: p ++ newline :: q).takeWhile Text.isWordByte =
        (b :: p).takeWhile Text.isWordByte := takeWhile_append_newline rfl _ _
    rw [piece, piece, if_neg hblank, if_neg hblank, if_neg hquote, if_neg hquote, ← List.cons_append,
      isPrefixOf_append_newline (by decide), hcomment, hword, numberText_append_newline,
      operator?_append_newline]

/-- A piece other than blanks is in the text before a line break, and it is not the end. -/
theorem piece_size {x : Piece} (hb : isBlank b = false) (h : opensTriple (b :: p) = false)
    (hx : piece b p = .ok x) : x.size ≤ p.length + 1 := by
  have hends := @piece_append_newline b p [] x ((piece_newline hb h).trans hx)
  cases hends with
  | gap hgap =>
    have hsize := Piece.gap.inj (Except.ok.inj (hx.symm.trans hgap))
    exact hsize.trans_le (Nat.min_le_right _ _)
  | token _ _ hsize => exact hsize
  | wraps hquote hp hr =>
    subst hquote hp
    rw [opensTriple_eq_true.2 ⟨_, rfl, hr⟩] at h
    cases h

/-- What stands at a quote is a string. -/
theorem piece_quoteMark_eq_ok {x : Piece} (h : piece Text.quoteMark p = .ok x) :
    ∃ size v, x = .token size .string v := by
  rw [piece_quoteMark] at h
  split at h
  · exact ⟨_, stringPiece_eq_ok h⟩
  · split at h
    · exact ⟨_, stringPiece_eq_ok h⟩
    · cases h

theorem piece_kind {size : Nat} {k : Kind} {v : Text} (hx : piece b p = .ok (.token size k v)) :
    k ≠ .eof := by
  by_cases hquote : b = Text.quoteMark
  · subst hquote
    obtain ⟨size', v', hx'⟩ := piece_quoteMark_eq_ok hx
    cases hx'
    exact Kind.noConfusion
  · have hopens := opensTriple_of_ne hquote p
    cases hb : isBlank b with
    | true =>
      rw [Spelled.piece_blank hb] at hx
      cases hx
    | false =>
      cases @piece_append_newline b p [] _ ((piece_newline hb hopens).trans hx) with
      | token _ hk => exact hk
      | wraps => exact Kind.noConfusion

theorem scanFrom_error {f : ScanFault} (hx : piece b p = .error f) :
    scanFrom file 0 c (b :: p) = .error ⟨f, c, file⟩ := by
  rw [scanFrom, hx]

theorem scanFrom_gap {size : Nat} (hx : piece b p = .ok (.gap size)) :
    scanFrom file 0 c (b :: p) = scanFrom file (size - 1) (c.after b) p := by
  rw [scanFrom, hx]

theorem scanFrom_token {size : Nat} {k : Kind} {v : Text} (hx : piece b p = .ok (.token size k v)) :
    scanFrom file 0 c (b :: p) =
      (scanFrom file (size - 1) (c.after b) p).map (⟨k, v, c.span file size⟩ :: ·) := by
  rw [scanFrom, hx]

theorem scanFrom_blank (hb : isBlank b = true) :
    scanFrom file 0 c (b :: p) = scanFrom file 0 (c.after b) p :=
  (scanFrom_gap (Spelled.piece_blank hb p)).trans (Spelled.scanFrom_blanks _ _ p)

/-- The tokens of a text that starts with a token. -/
theorem scanFrom_eq_ok {size : Nat} {k : Kind} {v : Text} (hx : piece b p = .ok (.token size k v))
    (h : scanFrom file 0 c (b :: p) = .ok ts) :
    ∃ us, scanFrom file (size - 1) (c.after b) p = .ok us ∧ ts = ⟨k, v, c.span file size⟩ :: us := by
  rw [scanFrom_token hx] at h
  cases hus : scanFrom file (size - 1) (c.after b) p with
  | error e =>
    rw [hus] at h
    cases h
  | ok us =>
    rw [hus] at h
    cases h
    exact ⟨us, rfl, rfl⟩

/-! ### Whole texts -/

theorem leavesTriple_takeWhile (hb : isBlank b = true) :
    leavesTriple 0 (b :: p) = leavesTriple (p.takeWhile isBlank).length p := by
  have hopens : opensTriple (b :: p) = false := opensTriple_of_ne (by rintro rfl; cases hb) p
  rw [leavesTriple, hopens, Spelled.piece_blank hb]
  rfl

theorem leavesTriple_blanks (t : Text) :
    leavesTriple (t.takeWhile isBlank).length t = leavesTriple 0 t := by
  cases t with
  | nil => rfl
  | cons b r =>
    by_cases hb : isBlank b = true
    · rw [List.takeWhile_cons_of_pos hb]
      exact (leavesTriple_takeWhile hb).symm
    · rw [List.takeWhile_cons_of_neg hb]
      rfl

theorem leavesTriple_blank (hb : isBlank b = true) : leavesTriple 0 (b :: p) = leavesTriple 0 p :=
  (leavesTriple_takeWhile hb).trans (leavesTriple_blanks p)

/-- Whether tokens have the given lexemes and then the end, which is nowhere else. -/
structure Complete (ts : List Token) (ls : List Lexeme) : Prop where
  /-- The lexemes. -/
  lexemes : ts.map Token.lexeme = ls ++ [.eof]
  /-- None of them is the end. -/
  going : ∀ l ∈ ls, l.kind ≠ .eof

namespace Complete

variable {ls ls' : List Lexeme}

theorem unique (h : Complete ts ls) (h' : Complete ts ls') : ls = ls' :=
  List.append_cancel_right (h.lexemes.symm.trans h'.lexemes)

theorem ne_nil (h : Complete ts ls) : ts ≠ [] := by
  rintro rfl
  exact absurd h.lexemes (by simp)

theorem kind (h : Complete ts ls) {t : Token} (ht : t ∈ ts.dropLast) : t.kind ≠ .eof := by
  have hlexemes := congrArg List.dropLast h.lexemes
  rw [← List.map_dropLast, List.dropLast_concat] at hlexemes
  exact h.going _ (hlexemes ▸ List.mem_map_of_mem ht)

theorem cons {k : Kind} (h : Complete ts ls) (hk : k ≠ .eof) (v : Text) (sp : Span) :
    Complete (⟨k, v, sp⟩ :: ts) (⟨k, v⟩ :: ls) :=
  ⟨congrArg (_ :: ·) h.lexemes, List.forall_mem_cons.2 ⟨hk, h.going⟩⟩

theorem append (hts : Complete ts ls) (hus : Complete us ls') :
    Complete (ts.dropLast ++ us) (ls ++ ls') where
  lexemes := by
    rw [List.map_append, List.map_dropLast, hts.lexemes, List.dropLast_concat, hus.lexemes,
      List.append_assoc]
  going := List.forall_mem_append.2 ⟨hts.going, hus.going⟩

end Complete

/-- Scanning depends on the place of a text only in the places of its tokens. -/
theorem complete_scanFrom : ∀ {t : Text} {skip : Nat} {c : Cursor} {ts : List Token},
    scanFrom file skip c t = .ok ts → ∃ ls, Complete ts ls ∧
      ∀ file' c', ∃ us, scanFrom file' skip c' t = .ok us ∧ Complete us ls
  | [], skip, c, ts, h => by
    have hend (file : Text) (c : Cursor) : Complete [⟨.eof, [], c.span file 0⟩] [] :=
      ⟨rfl, List.forall_mem_nil _⟩
    cases skip <;> cases h <;> exact ⟨[], hend _ _, fun file' c' => ⟨_, rfl, hend _ _⟩⟩
  | b :: r, skip + 1, c, ts, h => by
    obtain ⟨ls, hts, hother⟩ := complete_scanFrom (t := r) h
    exact ⟨ls, hts, fun file' c' => hother file' (c'.after b)⟩
  | b :: r, 0, c, ts, h => by
    cases hpiece : piece b r with
    | error f =>
      rw [scanFrom_error hpiece] at h
      cases h
    | ok x =>
      cases x with
      | gap size =>
        rw [scanFrom_gap hpiece] at h
        obtain ⟨ls, hts, hother⟩ := complete_scanFrom h
        refine ⟨ls, hts, fun file' c' => ?_⟩
        rw [scanFrom_gap hpiece]
        exact hother file' (c'.after b)
      | token size k v =>
        obtain ⟨ts, hrest, rfl⟩ := scanFrom_eq_ok hpiece h
        obtain ⟨ls, hts, hother⟩ := complete_scanFrom hrest
        have hk := piece_kind hpiece
        refine ⟨⟨k, v⟩ :: ls, hts.cons hk _ _, fun file' c' => ?_⟩
        obtain ⟨us, hus, hcomplete⟩ := hother file' (c'.after b)
        refine ⟨_, ?_, hcomplete.cons hk v (c'.span file' size)⟩
        rw [scanFrom_token hpiece, hus]
        rfl

theorem scanFrom_append_newline (hopen : leavesTriple skip p = false) (hskip : skip ≤ p.length) :
    scanFrom file skip c (p ++ newline :: q) = (scanFrom file skip c p).bind fun ts =>
      (scanFrom file 0 (c.past p) (newline :: q)).map (ts.dropLast ++ ·) := by
  induction p generalizing skip c with
  | nil =>
    obtain rfl := Nat.le_zero.1 hskip
    show scanFrom file 0 c (newline :: q) = (scanFrom file 0 c (newline :: q)).map id
    cases scanFrom file 0 c (newline :: q) <;> rfl
  | cons b p ih =>
    cases skip with
    | succ skip => exact ih hopen (Nat.le_of_succ_le_succ hskip)
    | zero =>
      cases hb : isBlank b with
      | true =>
        rw [List.cons_append, scanFrom_blank hb, scanFrom_blank hb]
        exact ih ((leavesTriple_blank hb).symm.trans hopen) (Nat.zero_le _)
      | false =>
        rw [leavesTriple, Bool.or_eq_false_iff] at hopen
        obtain ⟨hopens, hrest⟩ := hopen
        rw [List.cons_append, scanFrom, scanFrom, piece_newline hb hopens]
        cases hpiece : piece b p with
        | error f => rfl
        | ok x =>
          rw [hpiece] at hrest
          have hsize := piece_size hb hopens hpiece
          have hp := @ih (x.size - 1) (c.after b) hrest (Nat.sub_le_of_le_add hsize)
          cases x with
          | gap size => exact hp
          | token size k v =>
            dsimp only [Piece.size] at hp ⊢
            rw [hp]
            cases hts : scanFrom file (size - 1) (c.after b) p with
            | error e => rfl
            | ok ts =>
              obtain ⟨ls, hcomplete, -⟩ := complete_scanFrom hts
              simp only [Except.map, Except.bind, List.dropLast_cons_of_ne_nil hcomplete.ne_nil,
                Cursor.past, List.foldl_cons]
              cases scanFrom file 0 ((p.foldl Cursor.after (c.after b))) (newline :: q) <;> rfl

/-- A line break at the start of a text has no token. -/
theorem scanFrom_newline : scanFrom file 0 c (newline :: q) = scanFrom file 0 (c.after newline) q :=
  scanFrom_blank rfl

/-- The lexemes of a text and what follows it are those of the text and those of what follows. -/
theorem Complete.append_newline {ls ls' : List Lexeme} (hopen : leavesTriple 0 p = false)
    (hts : scan p file = .ok ts) (hp : Complete ts ls) (hus : scan q file' = .ok us)
    (hq : Complete us ls') (f : Text) :
    ∃ vs, scan (p ++ newline :: q) f = .ok vs ∧ Complete vs (ls ++ ls') := by
  obtain ⟨ls₁, hls₁, hts'⟩ := complete_scanFrom hts
  obtain ⟨ls₂, hls₂, hus'⟩ := complete_scanFrom hus
  obtain ⟨ts', hts', hp'⟩ := hts' f {}
  obtain ⟨us', hus', hq'⟩ := hus' f ((Cursor.past {} p).after newline)
  obtain rfl := hls₁.unique hp
  obtain rfl := hls₂.unique hq
  refine ⟨ts'.dropLast ++ us', ?_, hp'.append hq'⟩
  have happend := @scanFrom_append_newline f p q 0 {} hopen (Nat.zero_le _)
  rw [hts', scanFrom_newline, hus'] at happend
  exact happend

/-- Three quotes that are not closed make two strings in a row. -/
theorem strings_of_leavesTriple (hopen : leavesTriple skip p = true)
    (hts : scanFrom file skip c p = .ok ts) :
    ∃ us u v vs, ts = us ++ u :: v :: vs ∧ u.kind = .string ∧ v.kind = .string := by
  induction p generalizing skip c ts with
  | nil => cases skip <;> cases hopen
  | cons b p ih =>
    cases skip with
    | succ skip => exact ih hopen hts
    | zero =>
      rw [leavesTriple, Bool.or_eq_true] at hopen
      rcases hopen with hopens | hrest
      · obtain ⟨r, hr, huntil⟩ := opensTriple_eq_true.1 hopens
        cases hr
        obtain ⟨ts, hrest, rfl⟩ := scanFrom_eq_ok (piece_of_untilTriple? huntil) hts
        -- The third quote starts the second string.
        cases hpiece : piece Text.quoteMark r with
        | error f => cases (scanFrom_error hpiece).symm.trans hrest
        | ok x =>
          obtain ⟨size, v, rfl⟩ := piece_quoteMark_eq_ok hpiece
          obtain ⟨ts, -, rfl⟩ := scanFrom_eq_ok hpiece hrest
          exact ⟨[], _, _, ts, rfl, rfl, rfl⟩
      · cases hpiece : piece b p with
        | error f =>
          rw [hpiece] at hrest
          cases hrest
        | ok x =>
          rw [hpiece] at hrest
          cases x with
          | gap size => exact ih hrest ((scanFrom_gap hpiece).symm.trans hts)
          | token size k v =>
            obtain ⟨ts, htail, rfl⟩ := scanFrom_eq_ok hpiece hts
            obtain ⟨us, u, v, vs, rfl, hkinds⟩ := ih hrest htail
            exact ⟨_ :: us, u, v, vs, rfl, hkinds⟩

/-! ### Texts that cannot go on -/

theorem untilTriple?_append_newline {r : Text} (h : untilTriple? r = none) (t : Text) :
    untilTriple? (r ++ newline :: Text.quoteMark :: Text.quoteMark :: Text.quoteMark :: t) =
      some (r ++ [newline]) := by
  induction r with
  | nil => rfl
  | cons b r ih =>
    rw [untilTriple?_cons] at h
    split at h
    · cases h
    · next hb =>
      rw [List.cons_append, untilTriple?_cons, ← List.cons_append,
        isPrefixOf_append_newline (by decide), if_neg hb, ih (Option.map_eq_none_iff.1 h)]
      rfl

/-- No token starts with this sign. -/
theorem scanFrom_at : scanFrom file 0 c (Text.ofString "@") = .error ⟨.unrecognized 0x40, c, file⟩ := rfl

/-- The line that closes three quotes and goes on with a sign that starts no token. -/
def closing : Text := "\"\"\"@"

theorem error_of_untilTriple? {r : Text} (h : untilTriple? r = none) :
    ∃ e, scanFrom file 0 c
        (Text.quoteMark :: Text.quoteMark :: Text.quoteMark :: (r ++ newline :: closing)) = .error e ∧
      e.fault ≠ .unterminated := by
  have hbody : inTriple? (Text.quoteMark :: Text.quoteMark :: Text.quoteMark ::
      (r ++ newline :: closing)) = some (r ++ [newline]) := untilTriple?_append_newline h _
  rw [scanFrom, piece_quoteMark, hbody]
  dsimp only
  cases hpiece : stringPiece 3 (r ++ [newline]) with
  | error f =>
    refine ⟨_, rfl, ?_⟩
    unfold stringPiece at hpiece
    split at hpiece <;> cases hpiece
    exact ScanFault.noConfusion
  | ok x =>
    obtain ⟨v, rfl⟩ := stringPiece_eq_ok hpiece
    have hsplit : Text.quoteMark :: Text.quoteMark :: (r ++ newline :: closing) =
        (Text.quoteMark :: Text.quoteMark :: (r ++ [newline, Text.quoteMark, Text.quoteMark,
          Text.quoteMark])) ++ Text.ofString "@" := by
      simp only [List.cons_append, List.append_assoc]
      rfl
    have hlength : (r ++ [newline]).length + 2 * 3 - 1 = (Text.quoteMark :: Text.quoteMark ::
        (r ++ [newline, Text.quoteMark, Text.quoteMark, Text.quoteMark])).length := by
      simp only [List.length_append, List.length_cons, List.length_nil]
      omega
    dsimp only
    rw [hsplit, hlength, Spelled.scanFrom_append, scanFrom_at]
    exact ⟨_, rfl, ScanFault.noConfusion⟩

/-- A text with three quotes that are not closed has no tokens when this line follows. -/
theorem error_of_leavesTriple (hopen : leavesTriple skip p = true) :
    ∃ e, scanFrom file skip c (p ++ newline :: closing) = .error e ∧ e.fault ≠ .unterminated := by
  induction p generalizing skip c with
  | nil => cases skip <;> cases hopen
  | cons b p ih =>
    cases skip with
    | succ skip => exact ih hopen
    | zero =>
      cases hb : isBlank b with
      | true =>
        rw [List.cons_append, scanFrom_blank hb]
        exact ih ((leavesTriple_blank hb).symm.trans hopen)
      | false =>
        rw [leavesTriple, Bool.or_eq_true] at hopen
        cases hopens : opensTriple (b :: p) with
        | true =>
          obtain ⟨r, hr, huntil⟩ := opensTriple_eq_true.1 hopens
          cases hr
          exact error_of_untilTriple? huntil
        | false =>
          rw [hopens] at hopen
          replace hopen := hopen.resolve_left Bool.false_ne_true
          rw [List.cons_append, scanFrom, piece_newline hb hopens]
          cases hpiece : piece b p with
          | error f =>
            rw [hpiece] at hopen
            cases hopen
          | ok x =>
            rw [hpiece] at hopen
            obtain ⟨e, he, hfault⟩ := @ih (x.size - 1) (c.after b) hopen
            cases x with
            | gap size => exact ⟨e, he, hfault⟩
            | token size k v =>
              exact ⟨e, congrArg (Except.map (⟨k, v, c.span file size⟩ :: ·)) he, hfault⟩

/-- An error stays where it is when more lines follow, unless it may come from three quotes that are
not closed. -/
theorem scan_error_append {e : ScanError} (hopen : leavesTriple 0 p = false)
    (he : scan p file = .error e) (q : Text) : scan (p ++ newline :: q) file = .error e := by
  have happend := @scanFrom_append_newline file p q 0 {} hopen (Nat.zero_le _)
  rw [show scanFrom file 0 {} p = .error e from he] at happend
  exact happend

theorem opensTriple_append_newline (h : opensTriple p = false) (q : Text) :
    opensTriple (p ++ newline :: q) = false := by
  refine Bool.eq_false_iff.2 fun hopens => Bool.false_ne_true (h.symm.trans ?_)
  obtain ⟨htriple, hnone⟩ := Bool.and_eq_true_iff.1 hopens
  rw [isPrefixOf_append_newline (by decide)] at htriple
  have hp := inTriple?_append_newline p q
  rw [Option.isNone_iff_eq_none.1 hnone] at hp
  exact Bool.and_eq_true_iff.2 ⟨htriple, Option.isNone_iff_eq_none.2 hp⟩

/-- Behind an error nothing is left open. -/
theorem leavesTriple_append_newline {e : ScanError} (hopen : leavesTriple skip p = false)
    (he : scanFrom file skip c p = .error e) (q : Text) :
    leavesTriple skip (p ++ newline :: q) = false := by
  induction p generalizing skip c with
  | nil => cases skip <;> cases he
  | cons b p ih =>
    cases skip with
    | succ skip => exact ih hopen he
    | zero =>
      cases hb : isBlank b with
      | true =>
        rw [List.cons_append, leavesTriple_blank hb]
        exact ih ((leavesTriple_blank hb).symm.trans hopen) ((scanFrom_blank hb).symm.trans he)
      | false =>
        rw [leavesTriple, Bool.or_eq_false_iff] at hopen
        obtain ⟨hopens, hrest⟩ := hopen
        rw [scanFrom] at he
        rw [List.cons_append, leavesTriple, ← List.cons_append, opensTriple_append_newline hopens,
          Bool.false_or, piece_newline hb hopens]
        cases hpiece : piece b p with
        | error f => rfl
        | ok x =>
          rw [hpiece] at hrest he
          cases x with
          | gap size => exact ih hrest he
          | token size k v =>
            refine @ih (size - 1) (c.after b) hrest ?_
            replace he : (scanFrom file (size - 1) (c.after b) p).map _ = .error e := he
            cases hts : scanFrom file (size - 1) (c.after b) p with
            | error e' => rwa [hts] at he
            | ok ts =>
              rw [hts] at he
              cases he

/-- Tokens are followed by no others when the next line starts with a sign that starts no token. -/
theorem scan_at {ts : List Token} (hopen : leavesTriple 0 p = false) (hts : scan p file = .ok ts) :
    ∃ e, scan (p ++ newline :: Text.ofString "@") file = .error e ∧ e.fault ≠ .unterminated := by
  have happend := @scanFrom_append_newline file p (Text.ofString "@") 0 {} hopen (Nat.zero_le _)
  rw [show scanFrom file 0 {} p = .ok ts from hts, scanFrom_newline, scanFrom_at] at happend
  exact ⟨_, happend, ScanFault.noConfusion⟩

end Token

end ScriptLang
