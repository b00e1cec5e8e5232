import ScriptLang.Proofs.Syntax.Sequel

/-!
# Expressions on their own

An expression that is all of a text is read as a statement too, if its first token starts no other
kind of statement. With a semicolon behind it the text is a program, which consists of the
expression, and without one it is an unfinished program (`Program.parse_of_expr`). A choice needs no
semicolon (`Program.parse_of_choice`). The empty text is a program and no expression
(`Expr.notBlank_of_parse`).
-/

namespace ScriptLang

namespace Parser

variable {rules : Rules} {n : Nat} {s s' : Stream} {e : Expr}

theorem lparen_of_functionLiteral (h : functionLiteral rules n s = .ok (e, s')) :
    s.next.current.kind = .lparen := by
  rw [functionLiteral] at h
  obtain ⟨first, _, hfirst, h⟩ := bind_eq_ok.1 h
  cases hfirst
  obtain ⟨r, _, hsignature, -⟩ := bind_eq_ok.1 h
  rw [signature] at hsignature
  obtain ⟨t, _, hlparen, -⟩ := bind_eq_ok.1 hsignature
  by_contra hne
  rw [expect_of_ne hne] at hlparen
  cases hlparen

/-- Behind the word `fn` at the start of an expression stands a parenthesis. -/
theorem second_of_operand (h : operand rules n s = .ok (e, s')) (hfn : s.current.kind = .kwFn) :
    s.second = .lparen := by
  rw [operand] at h
  obtain ⟨t, _, ht, h⟩ := bind_eq_ok.1 h
  cases ht
  rw [hfn] at h
  have hparen := lparen_of_functionLiteral h
  obtain ⟨current, rest, index, last⟩ := s
  cases rest with
  | nil =>
    have : current.kind = .lparen := hparen
    rw [hfn] at this
    cases this
  | cons t ts => exact hparen

/-- What starts an operand and no other statement starts an expression statement. -/
theorem statement_eq_exprStmt (hstarts : startsOperand s.current.kind = true)
    (hbrace : s.current.kind ≠ .lbrace) (hmatch : s.current.kind ≠ .kwMatch)
    (hfn : s.current.kind = .kwFn → s.second = .lparen) : statement rules n s = exprStmt rules s := by
  rw [statement, bind_apply]
  dsimp only [peek, Except.bind]
  generalize hk : s.current.kind = k at hstarts hbrace hmatch hfn
  cases k with
  | lbrace => exact absurd rfl hbrace
  | kwMatch => exact absurd rfl hmatch
  | kwFn =>
    show (if s.second == .lparen then exprStmt rules else _) s = _
    rw [hfn rfl]
    rfl
  | _ => first | rfl | cases hstarts

/-- A statement that is an expression, up to its end. -/
theorem exprStmt_apply (h : rules.expr 0 s = .ok (e, s')) : exprStmt rules s =
    (expect .semicolon s').bind fun r => .ok (.expr (s.current.span.upTo r.2.last.span) e, r.2) := by
  rw [exprStmt, bind_apply]
  dsimp only [peek, Except.bind]
  rw [bind_apply, h]
  rfl

/-- What is read when an expression is all of a text. -/
def expressionReader (depth : Nat) : Parser Expr := do
  let e ← (Rules.ofDepth depth).expr 0
  let _ ← skip .semicolon
  if ← sees .eof then return e else fail .expectedEnd

/-- Whether nothing is left of a text but a semicolon, if there is one. -/
def Finishes (s : Stream) : Prop := ∃ semicolon s', skip .semicolon s = .ok (semicolon, s') ∧
  s'.current.kind = .eof

theorem finishes_of_expressionReader {d : Nat} (h : expressionReader d s = .ok (e, s')) :
    ∃ s₁, (Rules.ofDepth d).expr 0 s = .ok (e, s₁) ∧ Finishes s₁ := by
  obtain ⟨e₁, s₁, he, h⟩ := bind_eq_ok.1 h
  obtain ⟨semicolon, s₂, hskip, h⟩ := bind_eq_ok.1 h
  obtain ⟨ended, s₃, hended, h⟩ := bind_eq_ok.1 h
  cases hended
  split at h
  · next hend =>
    cases h
    exact ⟨s₁, he, semicolon, s', hskip, eq_of_beq hend⟩
  · cases h

theorem skip_eq_ok {k : Kind} {seen : Bool} (h : skip k s = .ok (seen, s')) :
    s.current.kind = k ∧ s' = s.next ∨ s.current.kind ≠ k ∧ s' = s := by
  rw [skip] at h
  obtain ⟨sees, _, hsees, h⟩ := bind_eq_ok.1 h
  cases hsees
  split at h
  · next hk =>
    obtain ⟨t, _, ht, h⟩ := bind_eq_ok.1 h
    cases ht
    cases h
    exact .inl ⟨eq_of_beq hk, rfl⟩
  · next hk =>
    cases h
    exact .inr ⟨fun heq => hk (beq_iff_eq.2 heq), rfl⟩

variable {d k : Nat}

/-- A program that is an expression statement, or that lacks nothing but the semicolon of one. -/
theorem program_of_exprStmt (hstmt : (Rules.ofDepth (d + 1)).stmt s = exprStmt (Rules.ofDepth d) s)
    (hs : s.current.kind ≠ .eof) (h : (Rules.ofDepth d).expr 0 s = .ok (e, s')) (hend : Finishes s') :
    (∃ sp s₁, program (Rules.ofDepth (d + 1)) (k + 2) s = .ok ([.expr sp e], s₁)) ∨
      ∃ error, program (Rules.ofDepth (d + 1)) (k + 2) s = .error error ∧ error.incomplete = true := by
  obtain ⟨semicolon, s₁, hskip, hend⟩ := hend
  rw [program_succ hs, bind_apply, hstmt, exprStmt_apply h]
  rcases skip_eq_ok hskip with ⟨hsemicolon, rfl⟩ | ⟨hsemicolon, rfl⟩
  · rw [expect_of_eq hsemicolon]
    dsimp only [Except.bind]
    rw [bind_apply, program_eof hend]
    exact .inl ⟨_, _, rfl⟩
  · rw [expect_of_ne hsemicolon]
    exact .inr ⟨_, rfl, beq_iff_eq.2 hend⟩

/-- What has no first operand of its own is an operand that is not continued. -/
theorem leaf_of_climb {least : Nat} {left : Expr} (h : climb rules least n left s = .ok (e, s'))
    (he : e.left? = none) : left = e ∧ s = s' := by
  induction n generalizing left s with
  | zero => cases h
  | succ n ih =>
    rw [climb] at h
    obtain ⟨op, _, hop, h⟩ := bind_eq_ok.1 h
    cases hop
    generalize s.current.kind.power? = power at h
    cases power with
    | none =>
      cases h
      exact ⟨rfl, rfl⟩
    | some power =>
      dsimp only at h
      split at h
      · cases h
        exact ⟨rfl, rfl⟩
      · obtain ⟨e₁, s₁, he₁, h⟩ := bind_eq_ok.1 h
        obtain ⟨rfl, -⟩ := ih h
        cases he.symm.trans (left_extend _ _ _ _ he₁)

variable {m : MatchExpr}

/-- A choice that is all of an expression. -/
theorem choice_of_expr {least : Nat} (hmatch : s.current.kind = .kwMatch)
    (h : (Rules.ofDepth (d + 2)).expr least s = .ok (.choose m, s')) :
    choice (Rules.ofDepth d) d s = .ok (m, s') := by
  obtain ⟨first, s₁, hfirst, h⟩ := bind_eq_ok.1 h
  obtain ⟨rfl, rfl⟩ := leaf_of_climb h rfl
  replace hfirst : operand (Rules.ofDepth d) d s = .ok (.choose m, s₁) := hfirst
  rw [operand] at hfirst
  obtain ⟨t, _, ht, hfirst⟩ := bind_eq_ok.1 hfirst
  cases ht
  rw [hmatch] at hfirst
  obtain ⟨m', _, hchoice, hm⟩ := bind_eq_ok.1 hfirst
  cases hm
  exact hchoice

/-- A program that is a choice. -/
theorem program_of_choice (hmatch : s.current.kind = .kwMatch)
    (h : choice (Rules.ofDepth d) d s = .ok (m, s')) (hend : Finishes s') :
    ∃ sp s₁, program (Rules.ofDepth (d + 1)) (k + 2) s = .ok ([.choose sp m], s₁) := by
  obtain ⟨semicolon, s₁, hskip, hend⟩ := hend
  have hstmt : (Rules.ofDepth (d + 1)).stmt s = .ok (.choose (s.current.span.upTo s₁.last.span) m, s₁) := by
    show statement (Rules.ofDepth d) d s = _
    rw [statement, bind_apply]
    dsimp only [peek, Except.bind]
    rw [hmatch]
    dsimp only
    rw [chooseStmt, bind_apply]
    dsimp only [peek, Except.bind]
    rw [bind_apply, h]
    dsimp only [Except.bind]
    rw [bind_apply, hskip]
    rfl
  rw [program_succ (by rw [hmatch]; exact Kind.noConfusion), bind_apply, hstmt]
  dsimp only [Except.bind]
  rw [bind_apply, program_eof hend]
  exact ⟨_, _, rfl⟩

end Parser

open ScriptLang.Parser

/-- The kind of the first token of a text. -/
def Text.firstKind? (source file : Text) : Option Kind :=
  (Token.scan source file).toOption.bind fun ts => ts.head?.map Token.kind

variable {source file : Text} {e : Expr}

theorem Expr.parse_eq_ok : Expr.parse source file = .ok e ↔ ∃ ts s, Token.scan source file = .ok ts ∧
    expressionReader (Stream.ofTokens ts).depth (Stream.ofTokens ts) = .ok (e, s) := by
  unfold Expr.parse
  cases Token.scan source file with
  | error e => exact ⟨nofun, fun ⟨_, _, h, _⟩ => nomatch h⟩
  | ok ts =>
    change (expressionReader _ _).map Prod.fst = .ok e ↔ _
    constructor
    · intro h
      cases hr : expressionReader (Stream.ofTokens ts).depth (Stream.ofTokens ts) with
      | error e =>
        rw [hr] at h
        cases h
      | ok r =>
        rw [hr] at h
        cases h
        exact ⟨ts, r.2, rfl, hr⟩
    · rintro ⟨us, s, hus, h⟩
      cases hus
      rw [h]
      rfl

theorem Stream.depth_eq (s : Stream) : s.depth = 4 * s.size + 4 := rfl

/-- How an expression that is all of a text is read. -/
structure Expr.Lone (source file : Text) (e : Expr) (ts : List Token) (s : Stream) : Prop where
  /-- The tokens are those of the text. -/
  scan : Token.scan source file = .ok ts
  /-- The first one is the one that stands next. -/
  first : Text.firstKind? source file = some (Stream.ofTokens ts).current.kind
  /-- The last one is for the end. -/
  closed : (Stream.ofTokens ts).Closed
  /-- The expression is read up to `s`, with any depth that is enough. -/
  expr : ∀ d, 3 * (Stream.ofTokens ts).size ≤ d + 1 →
    (Rules.ofDepth d).expr 0 (Stream.ofTokens ts) = .ok (e, s)
  /-- Nothing is left but a semicolon. -/
  finishes : Finishes s

theorem Expr.lone_of_parse (h : Expr.parse source file = .ok e) :
    ∃ ts s, Expr.Lone source file e ts s := by
  obtain ⟨ts, s, hts, h⟩ := Expr.parse_eq_ok.1 h
  obtain ⟨ls, hls, -⟩ := Token.complete_scanFrom hts
  obtain ⟨s₁, hexpr, hend⟩ := finishes_of_expressionReader h
  have hahead := (Stream.ahead_ofTokens hls.lexemes).1
  have hclosed := Stream.closed_of_ahead hahead
  refine ⟨ts, s₁, hts, ?_, hclosed, fun d hd => ?_, hend⟩
  · rw [Text.firstKind?, hts]
    show ts.head?.map Token.kind = _
    conv_lhs => rw [← Stream.ofTokens_complete hls]
    rfl
  · have hmax := Nat.le_max_left d (Stream.ofTokens ts).depth
    have hsteps := (Rules.steps_ofDepth (p := .expr 0) hmax hd nofun hclosed rfl (Nat.le_refl _)).1
    have hsteps' := (Rules.steps_ofDepth (p := .expr 0) (Nat.le_max_right d (Stream.ofTokens ts).depth)
      (by rw [Stream.depth_eq, Phrase.around]; omega) nofun hclosed rfl (Nat.le_refl _)).1
    exact (hsteps.symm.trans hsteps').trans hexpr

namespace Program

theorem parse_eq {ts : List Token} (h : Token.scan source file = .ok ts) : parse source file =
    (program (Rules.ofDepth (Stream.ofTokens ts).depth) (Stream.ofTokens ts).depth (Stream.ofTokens ts)).bind
      fun r => .ok ⟨(Stream.ofTokens ts).current.span.upTo r.2.current.span, r.1⟩ := by
  unfold parse
  rw [h]
  show ((program _ _ (Stream.ofTokens ts)).bind fun r =>
    Except.ok ((⟨_, r.1⟩ : Block), r.2)).map Prod.fst = _
  cases program (Rules.ofDepth (Stream.ofTokens ts).depth) (Stream.ofTokens ts).depth
    (Stream.ofTokens ts) <;> rfl

/-- An expression on its own is a program, or it would be one with a semicolon behind it, unless its
first token starts a block or a choice. -/
theorem parse_of_expr (h : Expr.parse source file = .ok e)
    (hbrace : Text.firstKind? source file ≠ some .lbrace)
    (hmatch : Text.firstKind? source file ≠ some .kwMatch) :
    (∃ sp sp', parse source file = .ok ⟨sp, [.expr sp' e]⟩) ∨
      ∃ error, parse source file = .error error ∧ error.incomplete = true := by
  obtain ⟨ts, s, hlone⟩ := Expr.lone_of_parse h
  rw [hlone.first] at hbrace hmatch
  rw [parse_eq hlone.scan, Stream.depth_eq]
  have hexpr := hlone.expr (4 * (Stream.ofTokens ts).size + 3) (by omega)
  generalize 4 * (Stream.ofTokens ts).size = d at hexpr
  have hstarts := Rules.startsOperand_of_expr hexpr
  have hne : (Stream.ofTokens ts).current.kind ≠ .eof := fun heof => by
    rw [heof] at hstarts
    cases hstarts
  have hfn : (Stream.ofTokens ts).current.kind = .kwFn → (Stream.ofTokens ts).second = .lparen := by
    obtain ⟨first, s₁, hfirst, -⟩ := bind_eq_ok.1 hexpr
    exact second_of_operand hfirst
  have hstmt : (Rules.ofDepth (d + 4)).stmt (Stream.ofTokens ts) =
      exprStmt (Rules.ofDepth (d + 3)) (Stream.ofTokens ts) :=
    statement_eq_exprStmt hstarts (fun hk => hbrace (congrArg some hk))
      (fun hk => hmatch (congrArg some hk)) hfn
  rcases program_of_exprStmt (k := d + 2) hstmt hne hexpr hlone.finishes with
    ⟨sp, s₁, hprogram⟩ | ⟨error, hprogram, hincomplete⟩
  · rw [hprogram]
    exact .inl ⟨_, sp, rfl⟩
  · rw [hprogram]
    exact .inr ⟨error, rfl, hincomplete⟩

/-- A choice on its own is a program. -/
theorem parse_of_choice {m : MatchExpr} (h : Expr.parse source file = .ok (.choose m))
    (hmatch : Text.firstKind? source file = some .kwMatch) :
    ∃ sp sp', parse source file = .ok ⟨sp, [.choose sp' m]⟩ := by
  obtain ⟨ts, s, hlone⟩ := Expr.lone_of_parse h
  have hkind : (Stream.ofTokens ts).current.kind = .kwMatch :=
    Option.some.inj (hlone.first.symm.trans hmatch)
  have hne : (Stream.ofTokens ts).current.kind ≠ .eof := by
    rw [hkind]
    exact Kind.noConfusion
  rw [parse_eq hlone.scan, Stream.depth_eq]
  have hexpr := hlone.expr (4 * (Stream.ofTokens ts).size + 3) (by omega)
  have hL : (Stream.ofTokens ts).size ≤ 4 * (Stream.ofTokens ts).size := by omega
  have hL' : 3 * (Stream.ofTokens ts).size ≤ 4 * (Stream.ofTokens ts).size := by omega
  generalize 4 * (Stream.ofTokens ts).size = d at hexpr hL hL'
  -- An expression reads its choice with less depth than a statement does.
  have hsame := ((Rules.track_ofDepth (N := 0) (Nat.le_add_right (d + 1) 2)).choice hne
    (Nat.le_add_right (d + 1) 2) (by omega) (by omega)).steps hlone.closed rfl (Nat.le_refl _)
  obtain ⟨sp', s₁, hprogram⟩ := program_of_choice (k := d + 2) hkind
    (hsame.1.trans (choice_of_expr hkind hexpr)) hlone.finishes
  rw [hprogram]
  exact ⟨_, sp', rfl⟩

end Program

/-! ### Blank texts -/

/-- A byte that starts a token, a comment or a string is a character that is no white space. -/
theorem Token.not_space_class {b : UInt8} : (b = 0x2f ∨ b = Text.quoteMark ∨ Text.isDigit b = true ∨
    Text.isWordStart b = true ∨ b ∈ Kind.operators.filterMap fun k => k.name.head?) →
      b < 0x80 ∧ Text.isBlank b.toNat = false :=
  Text.forall_byte (p := fun b => (b = 0x2f ∨ b = Text.quoteMark ∨ Text.isDigit b = true ∨
    Text.isWordStart b = true ∨ b ∈ Kind.operators.filterMap fun k => k.name.head?) →
      b < 0x80 ∧ Text.isBlank b.toNat = false) (by decide +kernel) b

/-- White space that may not stand between tokens is not recognized. -/
theorem Token.piece_space {b : UInt8} (hb : isBlank b = false)
    (hspace : ¬(b < 0x80 ∧ Text.isBlank b.toNat = false)) (r : Text) :
    piece b r = .error (.unrecognized b) := by
  have hclass := mt not_space_class hspace
  simp only [not_or, Bool.not_eq_true] at hclass
  obtain ⟨hslash, hquote, hdigit, hword, hmark⟩ := hclass
  have hnone : operator? (b :: r) = none := by
    cases hop : operator? (b :: r) with
    | none => rfl
    | some k =>
      obtain ⟨hk, hprefix⟩ := Spelled.operator?_isPrefix hop
      obtain ⟨b', u, hname, -⟩ := Spelled.mark_class k hk
      rw [hname] at hprefix
      obtain ⟨rfl, -⟩ := List.cons_prefix_cons.1 hprefix
      exact absurd (List.mem_filterMap.2 ⟨k, hk, by rw [hname]; rfl⟩) hmark
  rw [piece, hb, Spelled.not_comment hslash, hdigit, hword, hnone, if_neg hquote]
  rfl

/-- A blank text has no tokens but the one for the end, if it has any. -/
theorem Token.scanFrom_isAllBlank {file t : Text} {c : Cursor} {ts : List Token}
    (h : Text.isAllBlank t = true) (hts : scanFrom file 0 c t = .ok ts) :
    ∃ stop, ts = [stop] ∧ stop.kind = .eof := by
  induction t generalizing c with
  | nil =>
    cases hts
    exact ⟨_, rfl, rfl⟩
  | cons b r ih =>
    have hrunes : Text.runes (b :: r) =
        Text.firstRune b r :: Text.runesAfter ((Text.firstRune b r).bytes.length - 1) r := rfl
    have hall := Text.isAllBlank_iff.1 h
    rw [hrunes] at hall
    have hascii (hb : b < 0x80) : Text.firstRune b r = ⟨b.toNat, [b], true⟩ := if_pos hb
    by_cases hb : isBlank b = true
    · have hb' : b < 0x80 := by
        revert hb
        exact Text.forall_byte (p := fun b => isBlank b = true → b < 0x80) (by decide +kernel) b
      rw [hascii hb'] at hall
      rw [scanFrom_blank hb] at hts
      exact ih (Text.isAllBlank_iff.2 fun r' hr => hall r' (List.mem_cons_of_mem _ hr)) hts
    · have hspace : ¬(b < 0x80 ∧ Text.isBlank b.toNat = false) := by
        rintro ⟨hb', hno⟩
        have := hall _ List.mem_cons_self
        rw [hascii hb'] at this
        cases hno.symm.trans this
      cases (scanFrom_error (piece_space (Bool.eq_false_iff.2 hb) hspace r)).symm.trans hts

/-- A text that is an expression is not blank. -/
theorem Expr.notBlank_of_parse (h : Expr.parse source file = .ok e) :
    Text.isAllBlank source = false := by
  obtain ⟨ts, s, hlone⟩ := Expr.lone_of_parse h
  refine Bool.eq_false_iff.2 fun hblank => ?_
  obtain ⟨stop, rfl, hstop⟩ := Token.scanFrom_isAllBlank hblank hlone.scan
  have hfirst := hlone.first
  rw [Text.firstKind?, hlone.scan] at hfirst
  have hstarts := Rules.startsOperand_of_expr (hlone.expr _ (Nat.le_succ _))
  rw [← Option.some.inj hfirst, hstop] at hstarts
  cases hstarts

end ScriptLang
