import Mathlib.Data.List.DropRight
import ScriptLang.Proofs.Token.Spelled
import ScriptLang.Text.Space

/-!
# A text and its first lines

What the scanner makes of a text that is cut before a line break. No piece of the text looks beyond
a break but for blanks, which may go on behind it, and strings in three quotes. So the tokens of the
first lines are the first tokens of the text, or the break is inside a string in three quotes. The
first lines then have two quotes, which are an empty string, and a third one, and what follows this
one up to the end of its line decides what else they are: they have an unfinished string unless
another quote is there.
-/

namespace ScriptLang

open Text (newline)

/-! ### Characters -/

namespace Text

theorem firstRune_append_newline (a : UInt8) (p q : Text) :
    firstRune a (p ++ newline :: q) = firstRune a p := by
  have htail : isTail newline = false := rfl
  unfold firstRune
  split
  · rfl
  · match p, q with
    | [], [] | [], [_] | [], _ :: _ :: _ => simp [isPair, isTriple, isQuad, htail]
    | [_], [] | [_], _ :: _ => simp [isTriple, isQuad, htail]
    | [_, _], _ => simp [isQuad, htail]
    | _ :: _ :: _ :: _, _ => rfl

theorem runesAfter_isPrefix (p q : Text) (skip : Nat) :
    runesAfter skip p <+: runesAfter skip (p ++ newline :: q) := by
  induction p generalizing skip with
  | nil => cases skip <;> exact List.nil_prefix
  | cons a p ih =>
    cases skip with
    | zero =>
      rw [List.cons_append, runesAfter, runesAfter, firstRune_append_newline]
      exact List.prefix_cons_inj _ |>.2 (ih _)
    | succ skip => exact ih skip

theorem firstRune_bytes_ne_nil (a : UInt8) (r : Text) : (firstRune a r).bytes ≠ [] := by
  unfold firstRune
  repeat' split
  all_goals exact List.cons_ne_nil _ _

theorem bytes_ne_nil {t : Text} {skip : Nat} {r : Rune} (h : r ∈ runesAfter skip t) : r.bytes ≠ [] := by
  induction t generalizing skip with
  | nil => cases skip <;> cases h
  | cons a t ih =>
    cases skip with
    | succ skip => exact ih h
    | zero =>
      rcases List.mem_cons.1 h with rfl | h
      · exact firstRune_bytes_ne_nil a t
      · exact ih h

/-- A text is blank if all of its characters are. -/
theorem isAllBlank_iff {t : Text} : isAllBlank t = true ↔ ∀ r ∈ runes t, isBlank r.code = true := by
  have hbytes : ∀ r ∈ runes t, r.bytes ≠ [] := fun r hr => bytes_ne_nil hr
  unfold isAllBlank trim
  generalize runes t = rs at hbytes
  rw [List.isEmpty_iff, List.flatMap_eq_nil_iff, ← List.dropWhile_eq_nil_iff]
  constructor
  · intro h
    -- What is left without the blanks at both ends has no bytes, so it has no characters.
    have hkept : (rs.dropWhile fun r => isBlank r.code).reverse.dropWhile
        (fun r => isBlank r.code) = [] :=
      List.eq_nil_iff_forall_not_mem.2 fun r hr => hbytes r
        ((List.dropWhile_sublist _).subset (List.mem_reverse.1 ((List.dropWhile_sublist _).subset hr)))
        (h r (List.mem_reverse.2 hr))
    rw [← List.dropWhile_idempotent, List.dropWhile_eq_nil_iff]
    exact fun r hr => List.dropWhile_eq_nil_iff.1 hkept r (List.mem_reverse.2 hr)
  · intro h
    rw [h]
    exact fun r hr => nomatch hr

theorem isAllBlank_of_append {p q : Text} (h : isAllBlank (p ++ newline :: q) = true) :
    isAllBlank p = true :=
  isAllBlank_iff.2 fun r hr => isAllBlank_iff.1 h r ((runesAfter_isPrefix p q 0).subset hr)

end Text

namespace Token

/-! ### What a search finds before a line break -/

theorem takeWhile_append_newline {f : UInt8 → Bool} (hf : f newline = false) (p q : Text) :
    (p ++ newline :: q).takeWhile f = p.takeWhile f := by
  rw [List.takeWhile_append, List.takeWhile_cons_of_neg (by rw [hf]; exact Bool.false_ne_true),
    List.append_nil]
  split
  · next h => exact ((List.takeWhile_prefix f).eq_of_length h).symm
  · rfl

theorem length_takeWhile_append (f : UInt8 → Bool) (p q : Text) :
    (p.takeWhile f).length = min ((p ++ q).takeWhile f).length p.length := by
  have hle := (List.takeWhile_prefix (l := p) f).length_le
  rw [List.takeWhile_append]
  split
  · rw [List.length_append]
    omega
  · omega

theorem isPrefixOf_append_newline {s : Text} (hs : newline ∉ s) (p q : Text) :
    s.isPrefixOf (p ++ newline :: q) = s.isPrefixOf p := by
  induction s generalizing p with
  | nil => rfl
  | cons b s ih =>
    rw [List.mem_cons, not_or] at hs
    cases p with
    | nil => simp [List.isPrefixOf, Ne.symm hs.1]
    | cons a p => simp [List.isPrefixOf, ih hs.2]

theorem numberText_append_newline (p q : Text) : numberText (p ++ newline :: q) = numberText p := by
  have hdigit : Text.isDigit newline = false := rfl
  unfold numberText
  rw [takeWhile_append_newline hdigit]
  dsimp only
  rw [List.drop_append_of_le_length (List.takeWhile_prefix Text.isDigit).length_le]
  cases p.drop (p.takeWhile Text.isDigit).length with
  | nil => rfl
  | cons b r =>
    by_cases hb : b = 0x2e
    · subst hb
      simp only [List.cons_append, takeWhile_append_newline hdigit]
    · rw [List.cons_append]
      split <;> simp_all

theorem numberText_length_le (p : Text) : (numberText p).length ≤ p.length := by
  have hwhole := (List.takeWhile_prefix (l := p) Text.isDigit).length_le
  have hdrop := List.length_drop (l := p) (i := (p.takeWhile Text.isDigit).length)
  unfold numberText
  dsimp only
  split
  · next r h =>
    have hplaces := (List.takeWhile_prefix (l := r) Text.isDigit).length_le
    rw [h, List.length_cons] at hdrop
    split
    · exact hwhole
    · simp only [List.length_append]
      have : (("." : Text)).length = 1 := rfl
      omega
  · exact hwhole

theorem find?_operator_newline {t : Text} (h : newline ∈ t) :
    (Kind.operators.find? fun k => k.name == t) = none := by
  have hnames : ∀ k ∈ Kind.operators, newline ∉ k.name := by decide
  refine List.find?_eq_none.2 fun k hk he => hnames k hk ?_
  rw [beq_iff_eq] at he
  rwa [he]

theorem operator?_eq (t : Text) : operator? t =
    (Kind.operators.find? fun k => k.name == t.take 3).or
      ((Kind.operators.find? fun k => k.name == t.take 2).or
        (Kind.operators.find? fun k => k.name == t.take 1)) := by
  unfold operator?
  simp only [List.findSome?_cons, List.findSome?_nil]
  cases Kind.operators.find? fun k => k.name == t.take 3 <;>
    cases Kind.operators.find? fun k => k.name == t.take 2 <;>
      cases Kind.operators.find? fun k => k.name == t.take 1 <;> rfl

theorem operator?_append_newline (p q : Text) : operator? (p ++ newline :: q) = operator? p := by
  rw [operator?_eq, operator?_eq]
  match p with
  | [] => simp [find?_operator_newline]; decide
  | [a] => simp [find?_operator_newline]
  | [a, b] => simp [find?_operator_newline, ← Option.or_assoc]
  | a :: b :: c :: p => simp

theorem untilQuote?_append_newline (p q : Text) : untilQuote? (p ++ newline :: q) = untilQuote? p := by
  fun_induction untilQuote? p with
  | case1 | case2 | case3 | case5 | case6 => rfl
  | case4 b r hb ih =>
    rw [List.cons_append, List.cons_append, untilQuote?, if_neg hb, ih]
  | case7 b r hquote hescape hlast hb ih =>
    have hslash : b ≠ 0x5c := fun h => by
      cases r with
      | nil => exact hlast h rfl
      | cons b' r => exact hescape b' r h rfl
    rw [List.cons_append, untilQuote?_plain ⟨hquote, hslash, hb⟩, ih]

theorem untilQuote?_length {p body : Text} (h : untilQuote? p = some body) :
    body.length + 1 ≤ p.length := by
  fun_induction untilQuote? p generalizing body with
  | case1 | case3 | case5 | case6 => cases h
  | case2 r =>
    cases h
    exact Nat.succ_pos _
  | case4 b r hb ih =>
    obtain ⟨body, hbody, rfl⟩ := Option.map_eq_some_iff.1 h
    have := ih hbody
    simp only [List.length_cons]
    omega
  | case7 b r _ _ _ hb ih =>
    obtain ⟨body, hbody, rfl⟩ := Option.map_eq_some_iff.1 h
    have := ih hbody
    simp only [List.length_cons]
    omega

theorem untilTriple?_cons (b : UInt8) (r : Text) :
    untilTriple? (b :: r) = if (Text.ofString "\"\"\"").isPrefixOf (b :: r) then some []
      else (untilTriple? r).map (b :: ·) := by
  have hquotes : Text.ofString "\"\"\"" = [0x22, 0x22, 0x22] := by decide
  rw [hquotes]
  split
  · next h =>
    obtain ⟨t, ht⟩ := List.isPrefixOf_iff_prefix.1 h
    rw [← ht]
    rfl
  · next h =>
    rw [untilTriple?]
    rintro r' rfl rfl
    exact h rfl

theorem untilTriple?_length {p body : Text} (h : untilTriple? p = some body) :
    body.length + 3 ≤ p.length := by
  induction p generalizing body with
  | nil => cases h
  | cons b p ih =>
    rw [untilTriple?_cons] at h
    split at h
    · next hp =>
      cases h
      exact (List.isPrefixOf_iff_prefix.1 hp).length_le
    · obtain ⟨body, hbody, rfl⟩ := Option.map_eq_some_iff.1 h
      exact Nat.succ_le_succ (ih hbody)

/-- The next three quotes are in the first part of a text if they are not too far away. -/
theorem untilTriple?_append (p q : Text) : untilTriple? p =
    (untilTriple? (p ++ q)).filter fun body => body.length + 3 ≤ p.length := by
  induction p with
  | nil => cases h : untilTriple? ([] ++ q) <;> rfl
  | cons b p ih =>
    rw [List.cons_append, untilTriple?_cons b (p ++ q)]
    split
    · next hpq =>
      by_cases hlong : 3 ≤ (b :: p).length
      · have hp := List.prefix_of_prefix_length_le (List.isPrefixOf_iff_prefix.1 hpq)
          (List.prefix_append (b :: p) q) hlong
        rw [untilTriple?_cons, if_pos (List.isPrefixOf_iff_prefix.2 hp), Option.filter_some]
        exact (if_pos (decide_eq_true hlong)).symm
      · rw [Option.filter_some, if_neg (by simpa using hlong)]
        refine Option.eq_none_iff_forall_ne_some.2 fun body hbody => hlong ?_
        have := untilTriple?_length hbody
        omega
    · next hpq =>
      have hp : ¬ (Text.ofString "\"\"\"").isPrefixOf (b :: p) = true := fun hp => hpq
        (List.isPrefixOf_iff_prefix.2 ((List.isPrefixOf_iff_prefix.1 hp).trans (List.prefix_append _ _)))
      rw [untilTriple?_cons, if_neg hp, ih, Option.filter_map]
      simp only [Function.comp_def, List.length_cons, Nat.add_right_comm _ 1 3, Nat.add_le_add_iff_right]

/-! ### What a piece is before a line break -/

theorem ofWord_ne_eof (w : Text) : Kind.ofWord w ≠ .eof := by
  unfold Kind.ofWord
  cases h : Kind.keywords.find? fun k => k.name == w with
  | none => exact Kind.noConfusion
  | some k =>
    rintro rfl
    exact absurd (List.mem_of_find?_eq_some h) (by decide)

theorem stringPiece_eq_ok {quotes : Nat} {body : Text} {x : Piece}
    (h : stringPiece quotes body = .ok x) :
    ∃ v, x = .token (body.length + 2 * quotes) .string v := by
  unfold stringPiece at h
  split at h
  · next v _ => exact ⟨v, (Except.ok.inj h).symm⟩
  · cases h

/-- What stands at the start of the text `b :: p` given what stands there if a line break and more
follow. -/
inductive Ends (b : UInt8) (p : Text) : Piece → Prop
  /-- Blanks or a comment, without what is behind the break. -/
  | gap {size : Nat} (h : piece b p = .ok (.gap (min size (p.length + 1)))) : Ends b p (.gap size)
  /-- A token before the break. -/
  | token {size : Nat} {k : Kind} {v : Text} (h : piece b p = .ok (.token size k v)) (hk : k ≠ .eof)
    (hsize : size ≤ p.length + 1) : Ends b p (.token size k v)
  /-- A string in three quotes that runs over the break. -/
  | wraps {r : Text} {size : Nat} {v : Text} (hb : b = Text.quoteMark)
    (hp : p = Text.quoteMark :: Text.quoteMark :: r) (hr : untilTriple? r = none)
    (hsize : p.length + 1 < size) : Ends b p (.token size .string v)

/-- The content of the string in three quotes at the start of a text. -/
def inTriple? (t : Text) : Option Text :=
  if (Text.ofString "\"\"\"").isPrefixOf t then untilTriple? (t.drop 3) else none

theorem piece_quoteMark (r : Text) : piece Text.quoteMark r =
    match inTriple? (Text.quoteMark :: r) with
    | some body => stringPiece 3 body
    | none => match untilQuote? r with
      | some body => stringPiece 1 body
      | none => .error .unterminated := rfl

theorem inTriple?_append_newline (p q : Text) : inTriple? p =
    (inTriple? (p ++ newline :: q)).filter fun body => body.length + 6 ≤ p.length := by
  unfold inTriple?
  rw [isPrefixOf_append_newline (by decide)]
  split
  · next h =>
    have hlong : 3 ≤ p.length := (List.isPrefixOf_iff_prefix.1 h).length_le
    rw [List.drop_append_of_le_length hlong, untilTriple?_append _ (newline :: q)]
    congr 1
    funext body
    rw [List.length_drop]
    exact decide_eq_decide.2 (by omega)
  · rfl

theorem Ends.of_quoteMark {p q : Text} {x : Piece}
    (h : piece Text.quoteMark (p ++ newline :: q) = .ok x) : Ends Text.quoteMark p x := by
  have htriple := inTriple?_append_newline (Text.quoteMark :: p) q
  have hpiece := piece_quoteMark p
  rw [piece_quoteMark, ← List.cons_append] at h
  cases hbody : inTriple? (Text.quoteMark :: p ++ newline :: q) with
  | none =>
    rw [hbody] at h htriple
    rw [htriple] at hpiece
    dsimp only [Option.filter_none] at h hpiece
    rw [untilQuote?_append_newline] at h
    cases hq : untilQuote? p with
    | none =>
      rw [hq] at h
      cases h
    | some body =>
      rw [hq] at h hpiece
      obtain ⟨v, rfl⟩ := stringPiece_eq_ok h
      refine .token (hpiece.trans h) Kind.noConfusion ?_
      have := untilQuote?_length hq
      omega
  | some body =>
    rw [hbody] at h htriple
    obtain ⟨v, rfl⟩ := stringPiece_eq_ok h
    rw [Option.filter_some] at htriple
    by_cases hshort : body.length + 6 ≤ (Text.quoteMark :: p).length
    · rw [if_pos (decide_eq_true hshort)] at htriple
      rw [htriple] at hpiece
      exact .token (hpiece.trans h) Kind.noConfusion hshort
    · rw [if_neg (by simpa using hshort)] at htriple
      have hquotes : (Text.ofString "\"\"\"").isPrefixOf (Text.quoteMark :: p) = true := by
        by_contra hno
        rw [inTriple?, isPrefixOf_append_newline (by decide), if_neg hno] at hbody
        cases hbody
      obtain ⟨r, hr⟩ := List.isPrefixOf_iff_prefix.1 hquotes
      cases hr
      exact .wraps rfl rfl htriple (Nat.lt_of_not_le hshort)

theorem piece_append_newline {b : UInt8} {p q : Text} {x : Piece}
    (h : piece b (p ++ newline :: q) = .ok x) : Ends b p x := by
  by_cases hquote : b = Text.quoteMark
  · subst hquote
    exact .of_quoteMark h
  rw [piece, ← List.cons_append, isPrefixOf_append_newline (by decide), if_neg hquote] at h
  have hle (f : UInt8 → Bool) := (List.takeWhile_prefix (l := b :: p) f).length_le
  -- The cases are those of the definition, in the same order.
  split at h
  · next hb =>
    cases h
    refine .gap ?_
    rw [piece, if_pos hb, length_takeWhile_append isBlank (b :: p) (newline :: q), List.length_cons]
  rename_i hb
  split at h
  · next hc =>
    cases h
    refine .gap ?_
    rw [piece, if_neg hb, if_pos hc, length_takeWhile_append _ (b :: p) (newline :: q), List.length_cons]
  rename_i hc
  split at h
  · next hd =>
    cases h
    rw [numberText_append_newline]
    refine .token ?_ Kind.noConfusion (numberText_length_le (b :: p))
    rw [piece, if_neg hb, if_neg hc, if_neg hquote, if_pos hd]
  rename_i hd
  split at h
  · next hw =>
    cases h
    rw [takeWhile_append_newline rfl]
    refine .token ?_ (ofWord_ne_eof _) (hle _)
    rw [piece, if_neg hb, if_neg hc, if_neg hquote, if_neg hd, if_pos hw]
  rename_i hw
  rw [operator?_append_newline] at h
  split at h
  · next k hk =>
    cases h
    obtain ⟨hmem, hprefix⟩ := Spelled.operator?_isPrefix hk
    refine .token ?_ ?_ hprefix.length_le
    · rw [piece, if_neg hb, if_neg hc, if_neg hquote, if_neg hd, if_neg hw, hk]
    · rintro rfl
      exact absurd hmem (by decide)
  · cases h

/-! ### The tokens of the first lines -/

theorem offset_after (c : Cursor) (b : UInt8) : (c.after b).offset = c.offset + 1 := by
  unfold Cursor.after
  split <;> rfl

/-- Whether a token runs over the byte at an offset. -/
def Covers (t : Token) (n : Nat) : Prop := t.span.start ≤ n ∧ n < t.span.stop

/-- What scanning the first lines of a text comes to if the tokens of the text are `toks`: the first
of them, or a string that is not finished. -/
def Begins (toks : List Token) : Except ScanError (List Token) → Prop
  | .ok ts => ∃ us vs stop, ts = us ++ [stop] ∧ toks = us ++ vs ∧ stop.kind = .eof ∧
      ∀ t ∈ us, t.kind ≠ .eof
  | .error e => e.fault = .unterminated

theorem Begins.cons {t : Token} {toks : List Token} {r : Except ScanError (List Token)}
    (ht : t.kind ≠ .eof) (h : Begins toks r) : Begins (t :: toks) (r.map (t :: ·)) := by
  cases r with
  | error e => exact h
  | ok ts =>
    obtain ⟨us, vs, stop, rfl, rfl, hstop, hus⟩ := h
    exact ⟨t :: us, vs, stop, rfl, rfl, hstop, List.forall_mem_cons.2 ⟨ht, hus⟩⟩

/-- Three quotes that are not closed are an empty string and a quote. -/
theorem piece_of_untilTriple? {r : Text} (h : untilTriple? r = none) :
    piece Text.quoteMark (Text.quoteMark :: Text.quoteMark :: r) = .ok (.token 2 .string []) := by
  have : inTriple? (Text.quoteMark :: Text.quoteMark :: Text.quoteMark :: r) = none := h
  rw [piece_quoteMark, this]
  rfl

theorem scanFrom_unterminated {file : Text} {c : Cursor} {r : Text} (htriple : untilTriple? r = none)
    (hquote : untilQuote? r = none) :
    ∃ e, scanFrom file 0 c (Text.quoteMark :: Text.quoteMark :: Text.quoteMark :: r) = .error e ∧
      e.fault = .unterminated := by
  have hrest : piece Text.quoteMark r = .error .unterminated := by
    have : inTriple? (Text.quoteMark :: r) = none := by
      unfold inTriple?
      split
      · next h =>
        obtain ⟨u, hu⟩ := List.isPrefixOf_iff_prefix.1 h
        cases hu
        cases hquote
      · rfl
    rw [piece_quoteMark, this, hquote]
  refine ⟨⟨.unterminated, (c.after Text.quoteMark).after Text.quoteMark, file⟩, ?_, rfl⟩
  rw [scanFrom, piece_of_untilTriple? htriple]
  show (scanFrom file 0 _ (Text.quoteMark :: r)).map _ = _
  rw [scanFrom, hrest]
  rfl

theorem begins_scanFrom {source file p q : Text} {skip : Nat} {c : Cursor} {toks : List Token}
    (hsource : source.drop c.offset = p ++ newline :: q)
    (h : scanFrom file skip c (p ++ newline :: q) = .ok toks)
    (hquiet : ∀ t ∈ toks, t.Covers (c.offset + p.length) →
      untilQuote? (source.drop (t.span.start + 3)) = none) :
    Begins toks (scanFrom file (min skip p.length) c p) := by
  induction p generalizing skip c toks with
  | nil =>
    rw [List.length_nil, Nat.min_zero]
    exact ⟨[], toks, _, rfl, rfl, rfl, fun t ht => nomatch ht⟩
  | cons b p ih =>
    have hsource' : source.drop (c.after b).offset = p ++ newline :: q := by
      rw [offset_after, ← List.drop_drop, hsource]
      rfl
    have hend : (c.after b).offset + p.length = c.offset + (b :: p).length := by
      rw [offset_after, List.length_cons, Nat.add_assoc, Nat.add_comm 1]
    rw [← hend] at hquiet
    rw [List.cons_append] at h
    cases skip with
    | succ skip =>
      rw [List.length_cons, Nat.succ_min_succ]
      exact ih hsource' h hquiet
    | zero =>
      rw [Nat.zero_min]
      rw [scanFrom] at h
      split at h
      · cases h
      · next size hpiece =>
        cases piece_append_newline hpiece with
        | gap hp =>
          rw [scanFrom, hp]
          show Begins toks (scanFrom file (min size (p.length + 1) - 1) (c.after b) p)
          rw [← Nat.sub_min_sub_right]
          exact ih hsource' h hquiet
      · next size k v hpiece =>
        cases htoks : scanFrom file (size - 1) (c.after b) (p ++ newline :: q) with
        | error e =>
          rw [htoks] at h
          cases h
        | ok toks =>
          rw [htoks] at h
          cases h
          cases piece_append_newline hpiece with
          | token hp hk hsize =>
            have := ih hsource' htoks fun t ht => hquiet t (List.mem_cons_of_mem _ ht)
            rw [Nat.min_eq_left (Nat.sub_le_of_le_add hsize)] at this
            rw [scanFrom, hp]
            exact this.cons hk
          | wraps hb hp hr hsize =>
            subst hb hp
            have hquote := hquiet _ List.mem_cons_self
              ⟨by rw [hend]; exact Nat.le_add_right _ _, by rw [hend]; exact Nat.add_lt_add_left hsize _⟩
            dsimp only [Cursor.span] at hquote
            rw [← List.drop_drop, hsource] at hquote
            obtain ⟨e, he, hfault⟩ :=
              scanFrom_unterminated hr ((untilQuote?_append_newline _ q).symm.trans hquote)
            rw [he]
            exact hfault

/-- The tokens of the first lines of a text are the first tokens of the text, or the first lines end
in a string that is not finished. -/
theorem begins_scan {file p q : Text} {toks : List Token} (h : scan (p ++ newline :: q) file = .ok toks)
    (hquiet : ∀ t ∈ toks, t.Covers p.length →
      untilQuote? ((p ++ newline :: q).drop (t.span.start + 3)) = none) :
    Begins toks (scan p file) :=
  begins_scanFrom (c := {}) rfl h (by rwa [show Cursor.offset {} + p.length = p.length from
    Nat.zero_add _])

end Token

end ScriptLang
