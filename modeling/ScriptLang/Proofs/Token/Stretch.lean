import ScriptLang.Proofs.Token.Genuine
import ScriptLang.Proofs.Token.Lines

/-!
# The stretches of a text

Every piece of a text is a stretch `u` of it with some text `t` behind it. `Gap u t` and
`Stretch u t k v` say what `u` can be, and what `t` has to do with it: blanks, a comment up to the end of
its line, a word, a number or an operator that `t` does not lengthen, or a string, with which `t` has
nothing to do. `Text.stretch_of_piece` finds the stretch of a piece.

A word, a number or an operator is as long as it can be: no longer stretch is any of these
(`Stretch.longest`).
-/

namespace ScriptLang

open Token
open Text (newline)

/-! ### The content of a string -/

/-- Where a string in one quote ends does not depend on what is behind it. -/
theorem Token.untilQuote?_eq_some {r body : Text} (h : untilQuote? r = some body) :
    ∃ t, r = body ++ 0x22 :: t ∧ ∀ t', untilQuote? (body ++ 0x22 :: t') = some body := by
  fun_induction untilQuote? r generalizing body with
  | case1 | case3 | case5 | case6 => cases h
  | case2 r =>
    cases h
    exact ⟨r, rfl, fun _ => rfl⟩
  | case4 b r hb ih =>
    obtain ⟨body, hbody, rfl⟩ := Option.map_eq_some_iff.1 h
    obtain ⟨t, rfl, hall⟩ := ih hbody
    refine ⟨t, rfl, fun t' => ?_⟩
    rw [List.cons_append, List.cons_append, untilQuote?, if_neg hb, hall, Option.map_some]
  | case7 b r hquote hescape hlast hb ih =>
    obtain ⟨body, hbody, rfl⟩ := Option.map_eq_some_iff.1 h
    obtain ⟨t, rfl, hall⟩ := ih hbody
    have hslash : b ≠ 0x5c := by
      rintro rfl
      cases hr : body ++ 0x22 :: t with
      | nil => simp at hr
      | cons b' r => exact hescape b' r rfl hr
    refine ⟨t, rfl, fun t' => ?_⟩
    rw [List.cons_append, untilQuote?_plain ⟨hquote, hslash, hb⟩, hall, Option.map_some]

/-- The same for a string in three quotes. -/
theorem Token.untilTriple?_eq_some {r body : Text} (h : untilTriple? r = some body) :
    ∃ t, r = body ++ 0x22 :: 0x22 :: 0x22 :: t ∧
      ∀ t', untilTriple? (body ++ 0x22 :: 0x22 :: 0x22 :: t') = some body := by
  have hsplit : ∃ t, r = body ++ [0x22, 0x22, 0x22] ++ t := by
    induction r generalizing body with
    | nil => cases h
    | cons b r ih =>
      rw [untilTriple?_cons] at h
      split at h
      · next hquotes =>
        cases h
        obtain ⟨t, ht⟩ := List.isPrefixOf_iff_prefix.1 hquotes
        exact ⟨t, ht.symm⟩
      · obtain ⟨body, hbody, rfl⟩ := Option.map_eq_some_iff.1 h
        obtain ⟨t, rfl⟩ := ih hbody
        exact ⟨t, rfl⟩
  obtain ⟨t, rfl⟩ := hsplit
  have hlength : body.length + 3 ≤ (body ++ [0x22, 0x22, 0x22]).length := by simp
  -- the three quotes are found without what is behind them, and so before every other text
  have hown : untilTriple? (body ++ [0x22, 0x22, 0x22]) = some body := by
    rw [untilTriple?_append _ t, h, Option.filter_some, if_pos (decide_eq_true hlength)]
  refine ⟨t, by simp, fun t' => ?_⟩
  have hbefore := untilTriple?_append (body ++ [0x22, 0x22, 0x22]) t'
  rw [hown] at hbefore
  have := (Option.filter_eq_some_iff.1 hbefore.symm).1
  rwa [List.append_assoc] at this

/-! ### Numbers and operators -/

theorem Token.numberText_isPrefix (p : Text) : numberText p <+: p := by
  have hwhole := List.takeWhile_prefix (l := p) Text.isDigit
  have hsplit := List.prefix_iff_eq_append.1 hwhole
  unfold numberText
  dsimp only
  split
  · next r hr =>
    split
    · exact hwhole
    · obtain ⟨rest, hrest⟩ := List.takeWhile_prefix (l := r) Text.isDigit
      refine ⟨rest, ?_⟩
      have hdot : Text.ofString "." = [0x2e] := by decide
      rw [List.append_assoc, hrest, List.append_assoc, hdot]
      rw [hr] at hsplit
      exact hsplit
  · exact hwhole

theorem Token.length_whole_le (p : Text) :
    (p.takeWhile Text.isDigit).length ≤ (numberText p).length := by
  unfold numberText
  dsimp only
  split
  · split
    · exact Nat.le_refl _
    · rw [List.append_assoc, List.length_append]
      exact Nat.le_add_right _ _
  · exact Nat.le_refl _

/-- A number at the start of a text is no longer than the one that is scanned there. -/
theorem Token.length_le_numberText {n : Text} (hn : n.IsNumber) (t : Text) :
    n.length ≤ (numberText (n ++ t)).length := by
  obtain ⟨whole, places, -, hw, hp, rfl⟩ := hn
  by_cases he : places = []
  · rw [if_pos he]
    have hlength := length_whole_le (whole ++ t)
    rw [List.takeWhile_append_of_pos hw, List.length_append] at hlength
    omega
  · rw [if_neg he, List.append_assoc, List.cons_append]
    have hdot : Text.ofString "." = [0x2e] := by decide
    have hne : places ++ t.takeWhile Text.isDigit ≠ [] := by simp [he]
    have htext : numberText (whole ++ 0x2e :: (places ++ t)) =
        whole ++ "." ++ (places ++ t.takeWhile Text.isDigit) := by
      have htake : (whole ++ 0x2e :: (places ++ t)).takeWhile Text.isDigit = whole :=
        Spelled.takeWhile_append hw rfl
      unfold numberText
      simp only [htake, List.drop_left, List.takeWhile_append_of_pos hp]
      rw [if_neg (by simpa using hne)]
    rw [htext, hdot]
    simp only [List.length_append, List.length_cons, List.length_nil]
    omega

/-- An operator at the start of a text is no longer than the one that is scanned there. -/
theorem Token.length_le_operator {t : Text} {k l : Kind} (h : operator? t = some k)
    (hl : l ∈ Kind.operators) (hbegins : l.name <+: t) : l.name.length ≤ k.name.length := by
  have hlength {n : Nat} {k' : Kind}
      (hk' : (Kind.operators.find? fun k => k.name == t.take n) = some k') :
      k'.name.length = min n t.length := by
    have hname := List.find?_some hk'
    rw [beq_iff_eq] at hname
    rw [hname, List.length_take]
  have hfound : ∃ l', (Kind.operators.find? fun k => k.name == t.take l.name.length) = some l' := by
    refine Option.isSome_iff_exists.1 (List.find?_isSome.2 ⟨l, hl, ?_⟩)
    exact beq_iff_eq.2 (List.prefix_iff_eq_take.1 hbegins)
  have hne {n : Nat} (hnone : (Kind.operators.find? fun k => k.name == t.take n) = none) :
      l.name.length ≠ n := by
    rintro rfl
    obtain ⟨l', hl'⟩ := hfound
    rw [hnone] at hl'
    cases hl'
  have hle := hbegins.length_le
  have hl3 := Spelled.name_length l hl
  -- the operator is looked for with three bytes first, then with two, then with one
  rw [operator?_eq] at h
  rcases Option.or_eq_some_iff.1 h with h3 | ⟨h3, h⟩
  · have := hlength h3
    omega
  have := hne h3
  rcases Option.or_eq_some_iff.1 h with h2 | ⟨h2, h1⟩
  · have := hlength h2
    omega
  · have := hne h2
    have := hlength h1
    omega

/-! ### Stretches -/

/-- A stretch between tokens, with the text `t` behind it. -/
inductive Gap (u t : Text) : Prop
  /-- Blanks. -/
  | blanks (hu : ∀ b ∈ u, isBlank b = true)
  /-- A comment up to the end of its line. -/
  | comment (hslashes : Text.ofString "//" <+: u) (hline : newline ∉ u)
    (ht : ∀ b ∈ t.head?, b = newline)

/-- The stretch of a token of the given kind and value, with the text `t` behind it. -/
inductive Stretch : (u t : Text) → Kind → Text → Prop
  /-- A word is as long as it can be. -/
  | word {u t} (hu : Print.isWord u = true) (ht : ∀ b ∈ t.head?, Text.isWordByte b = false) :
    Stretch u t (.ofWord u) u
  /-- A number is as long as it can be. -/
  | number {u t} (hu : u.IsNumber) (ht : numberText (u ++ t) = u) : Stretch u t .number u
  /-- An operator is as long as it can be. -/
  | operator {k t} (hk : k ∈ Kind.operators) (ht : operator? (k.name ++ t) = some k) :
    Stretch k.name t k k.name
  /-- A string in one quote. -/
  | quote {body t v} (hbody : ∀ t', untilQuote? (body ++ 0x22 :: t') = some body)
    (hv : unescape body = .ok v) : Stretch (0x22 :: (body ++ [0x22])) t .string v
  /-- A string in three quotes. -/
  | triple {body t v} (hbody : ∀ t', untilTriple? (body ++ 0x22 :: 0x22 :: 0x22 :: t') = some body)
    (hv : unescape body = .ok v) :
    Stretch (0x22 :: 0x22 :: 0x22 :: (body ++ [0x22, 0x22, 0x22])) t .string v

namespace Token

variable {b : UInt8} {r : Text} {size : Nat}

theorem head?_dropWhile {f : UInt8 → Bool} {t : Text} : ∀ b ∈ (t.dropWhile f).head?, f b = false := by
  intro b hb
  have hhead := List.head?_dropWhile_not f t
  rw [Option.mem_def.1 hb] at hhead
  exact hhead

/-- A comment is passed over up to the end of its line. -/
theorem gap_comment (h : (Text.ofString "//").isPrefixOf (b :: r) = true) :
    Gap (b :: r.takeWhile (· != newline)) (r.dropWhile (· != newline)) := by
  obtain ⟨r', hr'⟩ := List.isPrefixOf_iff_prefix.1 h
  obtain ⟨rfl, rfl⟩ := List.cons.inj hr'
  refine .comment ⟨_, rfl⟩ (fun hmem => ?_) fun c hc => by simpa using head?_dropWhile c hc
  rcases List.mem_cons.1 hmem with hslash | hmem
  · cases hslash
  · have hplain := List.all_eq_true.1 (List.all_takeWhile (p := (· != newline))) newline hmem
    exact bne_iff_ne.1 hplain rfl

/-- What is passed over at the start of a text. -/
theorem gap_of_piece (h : piece b r = .ok (.gap size)) :
    ∃ u t, r = u ++ t ∧ size = u.length + 1 ∧ Gap (b :: u) t := by
  rw [piece] at h
  split at h
  · next hb =>
    obtain rfl := Piece.gap.inj (Except.ok.inj h)
    refine ⟨r.takeWhile isBlank, r.dropWhile isBlank, List.takeWhile_append_dropWhile.symm, ?_, ?_⟩
    · rw [List.takeWhile_cons_of_pos hb, List.length_cons]
    · exact .blanks (List.forall_mem_cons.2 ⟨hb, List.all_eq_true.1 List.all_takeWhile⟩)
  split at h
  · next hblank hslashes =>
    obtain rfl := Piece.gap.inj (Except.ok.inj h)
    have hb : (b != newline) = true := by
      rw [bne_iff_ne]
      rintro rfl
      exact hblank rfl
    refine ⟨r.takeWhile (· != newline), r.dropWhile (· != newline),
      List.takeWhile_append_dropWhile.symm, ?_, gap_comment hslashes⟩
    exact congrArg List.length (List.takeWhile_cons_of_pos (p := (· != newline)) hb)
  split at h
  · next hquote =>
    obtain ⟨_, _, hx⟩ : ∃ size' v, Piece.gap size = .token size' .string v := by
      split at h
      · obtain ⟨v, hv⟩ := stringPiece_eq_ok h
        exact ⟨_, v, hv⟩
      · split at h
        · obtain ⟨v, hv⟩ := stringPiece_eq_ok h
          exact ⟨_, v, hv⟩
        · cases h
    cases hx
  split at h
  · cases h
  split at h
  · cases h
  split at h <;> cases h

/-- The string that is scanned at a quote. -/
theorem stretch_of_quoteMark {k : Kind} {v : Text}
    (h : piece Text.quoteMark r = .ok (.token size k v)) :
    ∃ u t, r = u ++ t ∧ size = u.length + 1 ∧ Stretch (Text.quoteMark :: u) t k v := by
  have hstring {quotes : Nat} {body : Text} (h : stringPiece quotes body = .ok (.token size k v)) :
      size = body.length + 2 * quotes ∧ k = .string ∧ unescape body = .ok v := by
    rw [stringPiece] at h
    split at h
    · cases h
      exact ⟨rfl, rfl, ‹_›⟩
    · cases h
  rw [piece_quoteMark] at h
  split at h
  · next body hbody =>
    obtain ⟨rfl, rfl, hv⟩ := hstring h
    rw [inTriple?] at hbody
    split at hbody
    · next hquotes =>
      obtain ⟨r', hr'⟩ := List.isPrefixOf_iff_prefix.1 hquotes
      obtain ⟨-, rfl⟩ := List.cons.inj hr'
      obtain ⟨t, ht, hall⟩ := untilTriple?_eq_some hbody
      obtain rfl : r' = body ++ 0x22 :: 0x22 :: 0x22 :: t := ht
      exact ⟨0x22 :: 0x22 :: (body ++ [0x22, 0x22, 0x22]), t, by simp, by simp, .triple hall hv⟩
    · cases hbody
  · split at h
    · next body hbody =>
      obtain ⟨rfl, rfl, hv⟩ := hstring h
      obtain ⟨t, rfl, hall⟩ := untilQuote?_eq_some hbody
      exact ⟨body ++ [0x22], t, by simp, by simp, .quote hall hv⟩
    · cases h

/-- The token that is scanned at the start of a text. -/
theorem stretch_of_piece {k : Kind} {v : Text} (h : piece b r = .ok (.token size k v)) :
    ∃ u t, r = u ++ t ∧ size = u.length + 1 ∧ Stretch (b :: u) t k v := by
  have hbegins {w : Text} (hw : w <+: b :: r) (hne : w ≠ []) : ∃ u t, r = u ++ t ∧ w = b :: u := by
    obtain ⟨c, u, rfl⟩ := List.exists_cons_of_ne_nil hne
    obtain ⟨t, ht⟩ := hw
    obtain ⟨rfl, rfl⟩ := List.cons.inj ht
    exact ⟨u, t, rfl, rfl⟩
  by_cases hquote : b = Text.quoteMark
  · subst hquote
    exact stretch_of_quoteMark h
  rw [piece] at h
  split at h
  · cases h
  split at h
  · cases h
  split at h
  · next hb =>
    cases h
    have hn := isNumber_numberText hb r
    obtain ⟨c, u, hu, -⟩ := Spelled.number_start hn
    have hne : numberText (b :: r) ≠ [] := by
      rw [hu]
      exact List.cons_ne_nil c u
    obtain ⟨u, t, rfl, hu⟩ := hbegins (numberText_isPrefix (b :: r)) hne
    rw [hu] at hn ⊢
    exact ⟨u, t, rfl, rfl, .number hn hu⟩
  split at h
  · next hb =>
    cases h
    have hbyte : Text.isWordByte b = true := by simp only [Text.isWordByte, hb, Bool.true_or]
    refine ⟨r.takeWhile Text.isWordByte, r.dropWhile Text.isWordByte,
      List.takeWhile_append_dropWhile.symm, ?_, ?_⟩
    · rw [List.takeWhile_cons_of_pos hbyte, List.length_cons]
    · rw [List.takeWhile_cons_of_pos hbyte]
      refine .word ?_ head?_dropWhile
      rw [Print.isWord, hb, Bool.true_and]
      exact List.all_takeWhile
  split at h
  · next k' hop =>
    cases h
    obtain ⟨hk, hname⟩ := Spelled.operator?_isPrefix hop
    obtain ⟨c, u, hu, -⟩ := Spelled.mark_class _ hk
    obtain ⟨u, t, rfl, hu⟩ := hbegins hname (by rw [hu]; exact List.cons_ne_nil _ _)
    refine ⟨u, t, rfl, by rw [hu, List.length_cons], ?_⟩
    rw [← hu]
    refine .operator hk ?_
    rw [hu]
    exact hop
  · cases h

end Token

/-! ### Longest stretches -/

/-- Whether a text is a word, a number, a mark or an operator: a token other than a string. -/
def Text.IsSymbol (w : Text) : Prop :=
  Print.isWord w = true ∨ w.IsNumber ∨ ∃ k ∈ Kind.operators, w = k.name

namespace Text.IsSymbol

variable {b : UInt8} {r : Text}

/-- What starts as a word is one. -/
theorem word (h : IsSymbol (b :: r)) (hb : isWordStart b = true) : Print.isWord (b :: r) = true := by
  rcases h with hword | hnumber | ⟨k, hk, hname⟩
  · exact hword
  · obtain ⟨b', r', heq, hdigit⟩ := Spelled.number_start hnumber
    obtain ⟨rfl, -⟩ := List.cons.inj heq
    rw [(Spelled.isWordStart_class hb).2.2.2] at hdigit
    cases hdigit
  · obtain ⟨b', r', heq, -, -, -, hstart⟩ := Spelled.mark_class k hk
    obtain ⟨rfl, -⟩ := List.cons.inj (hname.trans heq)
    rw [hb] at hstart
    cases hstart

/-- What starts as a number is one. -/
theorem number (h : IsSymbol (b :: r)) (hb : isDigit b = true) : IsNumber (b :: r) := by
  rcases h with hword | hnumber | ⟨k, hk, hname⟩
  · have hstart : isWordStart b = true := (Bool.and_eq_true_iff.1 hword).1
    rw [(Spelled.isWordStart_class hstart).2.2.2] at hb
    cases hb
  · exact hnumber
  · obtain ⟨b', r', heq, -, -, hdigit, -⟩ := Spelled.mark_class k hk
    obtain ⟨rfl, -⟩ := List.cons.inj (hname.trans heq)
    rw [hb] at hdigit
    cases hdigit

/-- What starts neither as a word nor as a number is a mark or an operator. -/
theorem operator (h : IsSymbol (b :: r)) (hstart : isWordStart b = false)
    (hdigit : isDigit b = false) : ∃ k ∈ Kind.operators, b :: r = k.name := by
  rcases h with hword | hnumber | hmark
  · rw [show isWordStart b = true from (Bool.and_eq_true_iff.1 hword).1] at hstart
    cases hstart
  · obtain ⟨b', r', heq, hb'⟩ := Spelled.number_start hnumber
    obtain ⟨rfl, -⟩ := List.cons.inj heq
    rw [hb'] at hdigit
    cases hdigit
  · exact hmark

end Text.IsSymbol

namespace Stretch

variable {u t w : Text} {k : Kind} {v : Text}

theorem ne_nil (h : Stretch u t k v) : u ≠ [] := by
  cases h with
  | word hu =>
    rintro rfl
    cases hu
  | number hu =>
    obtain ⟨b, r, rfl, -⟩ := Spelled.number_start hu
    exact List.cons_ne_nil b r
  | operator hk =>
    obtain ⟨b, r, hname, -⟩ := Spelled.mark_class _ hk
    rw [hname]
    exact List.cons_ne_nil b r
  | quote | triple => exact List.cons_ne_nil _ _

/-- The value of every token but a string is its stretch. -/
theorem value_eq (h : Stretch u t k v) (hk : k ≠ .string) : v = u := by
  cases h with
  | word | number | operator => rfl
  | quote | triple => exact absurd rfl hk

theorem longest_word (hu : Print.isWord u = true) (ht : ∀ b ∈ t.head?, Text.isWordByte b = false)
    (hw : w <+: t) (hne : w ≠ []) : ¬Text.IsSymbol (u ++ w) := by
  intro h
  obtain ⟨c, w, rfl⟩ := List.exists_cons_of_ne_nil hne
  obtain ⟨b, r, rfl⟩ := List.exists_cons_of_ne_nil (l := u) (by rintro rfl; cases hu)
  have hword := h.word (Bool.and_eq_true_iff.1 hu).1
  have hc : Text.isWordByte c = true :=
    List.all_eq_true.1 (Bool.and_eq_true_iff.1 hword).2 c (by simp)
  obtain ⟨t, rfl⟩ := hw
  rw [ht c rfl] at hc
  cases hc

theorem longest_number (hu : u.IsNumber) (ht : numberText (u ++ t) = u) (hw : w <+: t)
    (hne : w ≠ []) : ¬Text.IsSymbol (u ++ w) := by
  intro h
  obtain ⟨b, r, rfl, hb⟩ := Spelled.number_start hu
  obtain ⟨t, rfl⟩ := hw
  have hnumber : Text.IsNumber (b :: r ++ w) := h.number hb
  have hlength := length_le_numberText hnumber t
  rw [List.append_assoc, ht, List.length_append] at hlength
  exact hne (List.length_eq_zero_iff.1 (by omega))

theorem longest_operator (hk : k ∈ Kind.operators) (ht : operator? (k.name ++ t) = some k)
    (hw : w <+: t) (hne : w ≠ []) : ¬Text.IsSymbol (k.name ++ w) := by
  intro h
  obtain ⟨b, r, hname, -, -, hdigit, hstart⟩ := Spelled.mark_class k hk
  obtain ⟨l, hl, heq⟩ : ∃ l ∈ Kind.operators, k.name ++ w = l.name := by
    rw [hname] at h ⊢
    exact h.operator hstart hdigit
  have hlength := length_le_operator ht hl (heq ▸ (List.prefix_append_right_inj _).2 hw)
  rw [← heq, List.length_append] at hlength
  exact hne (List.length_eq_zero_iff.1 (by omega))

/-- No token but a string is lengthened by what is behind it. -/
theorem longest (h : Stretch u t k v) (hk : k ≠ .string) (hw : w <+: t) (hne : w ≠ []) :
    ¬Text.IsSymbol (u ++ w) := by
  cases h with
  | word hu ht => exact longest_word hu ht hw hne
  | number hu ht => exact longest_number hu ht hw hne
  | operator hk ht => exact longest_operator hk ht hw hne
  | quote | triple => exact absurd rfl hk

end Stretch

end ScriptLang
