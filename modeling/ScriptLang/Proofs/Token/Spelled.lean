import ScriptLang.Proofs.Text.Quote

/-!
# Texts and the tokens they spell

The parser looks at the kinds and values of tokens and never at their places, so a text is described
by its *lexemes*. `Spelled t ls` says that scanning `t` succeeds from every point and gives the
lexemes `ls`. The lemmas put a piece in front of a text that is spelled already: blanks, a word, a
number, a string literal, a mark or operator, and a fixed text.

A word, a number and a string can be lengthened by what follows them; `Text.breaks` is the condition
on the following text that rules this out for all three. An operator is lengthened only by its own
`Kind.continuations`.
-/

namespace ScriptLang

/-- A token without its place. -/
structure Lexeme where
  /-- The kind. -/
  kind : Kind
  /-- The value. -/
  value : Text
deriving DecidableEq, Repr

/-- The lexeme of a token. -/
def Token.lexeme (t : Token) : Lexeme := ⟨t.kind, t.value⟩

/-- The lexeme of a reserved word, a mark or an operator. -/
def Kind.lexeme (k : Kind) : Lexeme := ⟨k, k.name⟩

/-- The lexeme of a name. -/
def Lexeme.ident (name : Text) : Lexeme := ⟨.ident, name⟩

/-- The lexeme of a word, reserved or not. -/
def Lexeme.word (w : Text) : Lexeme := ⟨.ofWord w, w⟩

/-- The lexeme of a string. -/
def Lexeme.string (t : Text) : Lexeme := ⟨.string, t⟩

/-- The lexeme at the end of a text. -/
def Lexeme.eof : Lexeme := ⟨.eof, []⟩

/-- Scanning a text, from any point on, gives these lexemes. -/
def Spelled (t : Text) (ls : List Lexeme) : Prop :=
  ∀ file c, ∃ ts, Token.scanFrom file 0 c t = .ok ts ∧ ts.map Token.lexeme = ls

namespace Spelled

open Token

theorem nil : Spelled [] [.eof] := fun _ _ => ⟨_, rfl, rfl⟩

/-- Bytes of a piece that was recognized already are passed over. -/
theorem scanFrom_append (file : Text) (u : Text) (c : Cursor) (t : Text) :
    scanFrom file u.length c (u ++ t) = scanFrom file 0 (c.past u) t := by
  induction u generalizing c with
  | nil => rfl
  | cons b u ih => exact ih (c.after b)

/-- A token in front of a text. -/
theorem token {b : UInt8} {u t : Text} {k : Kind} {v : Text} {ls : List Lexeme}
    (hp : piece b (u ++ t) = .ok (.token (u.length + 1) k v)) (h : Spelled t ls) :
    Spelled (b :: (u ++ t)) (⟨k, v⟩ :: ls) := by
  intro file c
  obtain ⟨ts, hts, rfl⟩ := h file ((c.after b).past u)
  refine ⟨⟨k, v, c.span file (u.length + 1)⟩ :: ts, ?_, rfl⟩
  rw [scanFrom, hp]
  simp only [Nat.add_sub_cancel, scanFrom_append, hts]
  rfl

/-! ### Blanks -/

theorem piece_blank {b : UInt8} (hb : isBlank b = true) (r : Text) :
    piece b r = .ok (.gap ((r.takeWhile isBlank).length + 1)) := by
  rw [piece, if_pos hb, List.takeWhile_cons_of_pos hb, List.length_cons]

/-- Blanks at the start of a text are passed over in any case. -/
theorem scanFrom_blanks (file : Text) (c : Cursor) (t : Text) :
    scanFrom file (t.takeWhile isBlank).length c t = scanFrom file 0 c t := by
  cases t with
  | nil => rfl
  | cons b r =>
    by_cases hb : isBlank b = true
    · rw [List.takeWhile_cons_of_pos hb, List.length_cons]
      conv => rhs; rw [scanFrom, piece_blank hb]
      rfl
    · rw [List.takeWhile_cons_of_neg hb]
      rfl

theorem blank {b : UInt8} (hb : isBlank b = true) {t : Text} {ls : List Lexeme} (h : Spelled t ls) :
    Spelled (b :: t) ls := by
  intro file c
  obtain ⟨ts, hts, hls⟩ := h file (c.after b)
  refine ⟨ts, ?_, hls⟩
  rw [scanFrom, piece_blank hb, ← hts, ← scanFrom_blanks]
  rfl

theorem spaces (n : Nat) {t : Text} {ls : List Lexeme} (h : Spelled t ls) :
    Spelled (Text.spaces n ++ t) ls := by
  induction n with
  | zero => exact h
  | succ n ih => exact blank (by decide) ih

end Spelled

/-! ### What can lengthen a token -/

/-- Whether no word, number or string is lengthened by this text behind it. -/
def Text.breaks : Text → Bool
  | [] => true
  | b :: r => !isWordByte b && b != quoteMark && !(b == 0x2e && r.head?.any isDigit)

/-- The texts of number tokens: digits, and more digits after a point. -/
def Text.IsNumber (n : Text) : Prop :=
  ∃ whole places : Text, whole ≠ [] ∧ (∀ b ∈ whole, isDigit b = true) ∧
    (∀ b ∈ places, isDigit b = true) ∧ n = if places = [] then whole else whole ++ 0x2e :: places

/-- The bytes that make an operator the beginning of a longer one, or of a comment. -/
def Kind.continuations (k : Kind) : List UInt8 :=
  (if k = .slash then [0x2f] else []) ++
    operators.filterMap fun l => if k.name.isPrefixOf l.name then l.name[k.name.length]? else none

/-- Whether an operator ends before a text. -/
def Kind.stops (k : Kind) (t : Text) : Bool := t.head?.all fun b => !k.continuations.contains b

namespace Spelled

open Token

/-! ### Words and numbers -/

theorem isWordStart_class {b : UInt8} : Text.isWordStart b = true →
    isBlank b = false ∧ b ≠ 0x2f ∧ b ≠ Text.quoteMark ∧ Text.isDigit b = false :=
  Text.forall_byte (p := fun b => Text.isWordStart b = true →
    isBlank b = false ∧ b ≠ 0x2f ∧ b ≠ Text.quoteMark ∧ Text.isDigit b = false) (by decide +kernel) b

theorem isDigit_class {b : UInt8} : Text.isDigit b = true →
    isBlank b = false ∧ b ≠ 0x2f ∧ b ≠ Text.quoteMark :=
  Text.forall_byte (p := fun b => Text.isDigit b = true →
    isBlank b = false ∧ b ≠ 0x2f ∧ b ≠ Text.quoteMark) (by decide +kernel) b

theorem not_comment {b : UInt8} (h : b ≠ 0x2f) (r : Text) :
    (Text.ofString "//").isPrefixOf (b :: r) = false := by
  have hs : Text.ofString "//" = [0x2f, 0x2f] := by decide
  have hb : 0x2f ≠ b := fun e => h e.symm
  rw [hs]
  simp [List.isPrefixOf, hb]

theorem takeWhile_append {p : UInt8 → Bool} {w t : Text} (hw : ∀ b ∈ w, p b = true)
    (ht : t.head?.all (fun b => !p b) = true) : (w ++ t).takeWhile p = w := by
  rw [List.takeWhile_append_of_pos hw]
  cases t with
  | nil => simp
  | cons b t =>
    have hb : ¬p b = true := by simpa using ht
    rw [List.takeWhile_cons_of_neg hb, List.append_nil]

theorem breaks_word {t : Text} (h : t.breaks = true) :
    t.head?.all (fun b => !Text.isWordByte b) = true := by
  cases t <;> simp_all [Text.breaks]

theorem breaks_digit {t : Text} (h : t.breaks = true) :
    t.head?.all (fun b => !Text.isDigit b) = true := by
  cases t <;> simp_all [Text.breaks, Text.isWordByte]

theorem breaks_quote {t : Text} (h : t.breaks = true) : t.head? ≠ some 0x22 := by
  cases t <;> simp_all [Text.breaks, Text.quoteMark]

theorem word {w t : Text} {ls : List Lexeme} (hw : Print.isWord w = true)
    (ht : t.head?.all (fun b => !Text.isWordByte b) = true) (h : Spelled t ls) :
    Spelled (w ++ t) (.word w :: ls) := by
  cases w with
  | nil => simp [Print.isWord] at hw
  | cons b u =>
    simp only [Print.isWord, Bool.and_eq_true, List.all_eq_true] at hw
    obtain ⟨hb, hu⟩ := hw
    obtain ⟨h₁, h₂, h₃, h₄⟩ := isWordStart_class hb
    refine token (u := u) ?_ h
    have htake : (b :: (u ++ t)).takeWhile Text.isWordByte = b :: u :=
      takeWhile_append (w := b :: u) (by simp_all [Text.isWordByte]) ht
    simp [piece, h₁, not_comment h₂, h₃, h₄, hb, htake]

/-- A point that belongs to no number. -/
theorem breaks_point {t : Text} (h : t.breaks = true) :
    (match t with
      | 0x2e :: r => r.takeWhile Text.isDigit
      | _ => []) = [] := by
  split
  · rename_i r
    cases r with
    | nil => rfl
    | cons d r =>
      have hd : ¬Text.isDigit d = true := by
        simp only [Text.breaks] at h
        simpa using (Bool.and_eq_true_iff.1 h).2
      exact List.takeWhile_cons_of_neg hd
  · rfl

theorem numberText_append {n t : Text} (hn : n.IsNumber) (ht : t.breaks = true) :
    numberText (n ++ t) = n := by
  obtain ⟨whole, places, -, hw, hp, rfl⟩ := hn
  by_cases he : places = []
  · rw [if_pos he]
    have hpoint := breaks_point ht
    simp only [numberText, takeWhile_append hw (breaks_digit ht), List.drop_left]
    split
    · simp_all
    · rfl
  · rw [if_neg he]
    have htake : (whole ++ 0x2e :: (places ++ t)).takeWhile Text.isDigit = whole :=
      takeWhile_append hw (by simp [show Text.isDigit 0x2e = false by decide])
    have hplaces : (places ++ t).takeWhile Text.isDigit = places :=
      takeWhile_append hp (breaks_digit ht)
    have hdot : Text.ofString "." = [0x2e] := by decide
    simp only [numberText, List.append_assoc, List.cons_append, htake, List.drop_left, hplaces,
      hdot]
    simp [he]

theorem number_start {n : Text} (hn : n.IsNumber) : ∃ b u, n = b :: u ∧ Text.isDigit b = true := by
  obtain ⟨whole, places, hne, hw, -, rfl⟩ := hn
  cases whole with
  | nil => exact absurd rfl hne
  | cons b w => split <;> exact ⟨b, _, rfl, hw b (by simp)⟩

theorem number {n t : Text} {ls : List Lexeme} (hn : n.IsNumber) (ht : t.breaks = true)
    (h : Spelled t ls) : Spelled (n ++ t) (⟨.number, n⟩ :: ls) := by
  have htext := numberText_append hn ht
  obtain ⟨b, u, rfl, hb⟩ := number_start hn
  obtain ⟨h₁, h₂, h₃⟩ := isDigit_class hb
  refine token (u := u) ?_ h
  rw [List.cons_append] at htext
  simp [piece, h₁, not_comment h₂, h₃, hb, htext]

theorem quote (s : Text) {t : Text} {ls : List Lexeme} (ht : t.breaks = true) (h : Spelled t ls) :
    Spelled (Print.quote s ++ t) (.string (Text.mend s) :: ls) := by
  have hq : Print.quote s ++ t = 0x22 :: ((Print.content s ++ [0x22]) ++ t) := by simp [quote_eq]
  rw [hq]
  refine token ?_ h
  have hp := piece_quote s (breaks_quote ht)
  simpa [quote_eq] using hp

/-! ### Marks and operators -/

theorem name_injective :
    ∀ k ∈ Kind.operators, ∀ l ∈ Kind.operators, k.name = l.name → k = l := by decide

theorem name_length : ∀ k ∈ Kind.operators,
    k.name.length = 3 ∨ k.name.length = 2 ∨ k.name.length = 1 := by decide

/-- An operator that agrees with `k` before `t` and is at least as long can only be `k`. -/
theorem find?_operator {k : Kind} (hk : k ∈ Kind.operators) {t : Text} (ht : k.stops t = true) {n : Nat}
    (hn : k.name.length ≤ n) :
    (Kind.operators.find? fun l => l.name == (k.name ++ t).take n) = none ∨
      (Kind.operators.find? fun l => l.name == (k.name ++ t).take n) = some k := by
  cases hf : Kind.operators.find? fun l => l.name == (k.name ++ t).take n with
  | none => exact .inl rfl
  | some l =>
    refine .inr (congrArg some ?_)
    have hl : l ∈ Kind.operators := List.mem_of_find?_eq_some hf
    have hname : l.name = k.name ++ t.take (n - k.name.length) := by
      have := List.find?_some hf
      rw [beq_iff_eq] at this
      rw [this, List.take_append, List.take_of_length_le hn]
    match ht' : t.take (n - k.name.length) with
    | [] =>
      rw [ht', List.append_nil] at hname
      exact name_injective l hl k hk hname
    | b :: r =>
      -- the byte after `k` in `l` is one of the continuations of `k`
      have hb : b ∈ k.continuations := by
        refine List.mem_append_right _ (List.mem_filterMap.2 ⟨l, hl, ?_⟩)
        rw [if_pos (by rw [hname]; exact List.isPrefixOf_iff_prefix.2 ⟨_, rfl⟩), hname, ht']
        simp
      have hhead : t.head? = some b := by
        cases t with
        | nil => simp at ht'
        | cons c t =>
          cases hm : n - k.name.length with
          | zero => rw [hm] at ht'; simp at ht'
          | succ m => rw [hm] at ht'; simp at ht'; simp [ht'.1]
      rw [Kind.stops, hhead] at ht
      simp [hb] at ht

theorem operator?_append {k : Kind} (hk : k ∈ Kind.operators) {t : Text} (ht : k.stops t = true) :
    operator? (k.name ++ t) = some k := by
  have own : (Kind.operators.find? fun l => l.name == (k.name ++ t).take k.name.length) = some k := by
    refine (find?_operator hk ht (Nat.le_refl _)).resolve_left fun hn => ?_
    have := List.find?_eq_none.1 hn k hk
    simp at this
  have longer := fun n hn => find?_operator hk ht (n := n) hn
  simp only [operator?, List.findSome?]
  rcases name_length k hk with h | h | h <;> rw [h] at own longer
  · rw [own]
  · rw [own]
    rcases longer 3 (by omega) with h3 | h3 <;> rw [h3]
  · rw [own]
    rcases longer 3 (by omega) with h3 | h3 <;>
      rcases longer 2 (by omega) with h2 | h2 <;> rw [h3] <;> simp only [h2]
/-- No mark or operator starts like a blank, a string, a number or a word. -/
theorem mark_class : ∀ k ∈ Kind.operators, ∃ b u, k.name = b :: u ∧ isBlank b = false ∧
    b ≠ Text.quoteMark ∧ Text.isDigit b = false ∧ Text.isWordStart b = false := by
  intro k hk
  have h : ∀ k ∈ Kind.operators, k.name ≠ [] ∧ ∀ b ∈ k.name.head?, isBlank b = false ∧
      b ≠ Text.quoteMark ∧ Text.isDigit b = false ∧ Text.isWordStart b = false := by
    decide +kernel
  obtain ⟨hne, hb⟩ := h k hk
  obtain ⟨b, u, hbu⟩ := List.exists_cons_of_ne_nil hne
  exact ⟨b, u, hbu, hb b (by rw [hbu]; rfl)⟩

/-- Only a division that is followed by a slash looks like a comment. -/
theorem mark_not_comment {k : Kind} (hk : k ∈ Kind.operators) {t : Text} (ht : k.stops t = true) :
    (Text.ofString "//").isPrefixOf (k.name ++ t) = false := by
  have slashes : ∀ k ∈ Kind.operators, k.name.head? = some 0x2f → k = .slash ∨ k = .slashAssign := by
    decide
  obtain ⟨b, u, hbu, -⟩ := mark_class k hk
  by_cases hb : b = 0x2f
  · rcases slashes k hk (by rw [hbu, hb]; rfl) with rfl | rfl
    · cases t with
      | nil => decide
      | cons c t =>
        have hc : c ≠ 0x2f := by
          rintro rfl
          have hm : (0x2f : UInt8) ∈ Kind.slash.continuations := by decide
          simp [Kind.stops, hm] at ht
        have hc' : (0x2f == c) = false := by simpa using fun h => hc h.symm
        change List.isPrefixOf [0x2f, 0x2f] (0x2f :: c :: t) = false
        simp [List.isPrefixOf, hc']
    · rfl
  · rw [hbu]
    exact not_comment hb _

theorem mark {k : Kind} (hk : k ∈ Kind.operators) {t : Text} {ls : List Lexeme}
    (ht : k.stops t = true) (h : Spelled t ls) : Spelled (k.name ++ t) (k.lexeme :: ls) := by
  have hop := operator?_append hk ht
  have hcomment := mark_not_comment hk ht
  obtain ⟨b, u, hbu, h₁, h₂, h₃, h₄⟩ := mark_class k hk
  rw [hbu] at hop hcomment ⊢
  refine token (u := u) ?_ h
  rw [List.cons_append] at hop hcomment
  simp [piece, h₁, h₂, h₃, h₄, hop, hcomment, hbu]

end Spelled

/-! ### Fixed texts -/

/-- The lexemes of a text, if what follows the text cannot change them. The first argument bounds
their number and that of the blanks. -/
def Text.spell : Nat → Text → Option (List Lexeme)
  | _, [] => some []
  | 0, _ => none
  | n + 1, b :: r =>
    if Token.isBlank b then spell n r
    else if isWordStart b then
      let t := r.dropWhile isWordByte
      if t.isEmpty then none else (spell n t).map (.word (b :: r.takeWhile isWordByte) :: ·)
    else
      match Token.operator? (b :: r) with
      | some k =>
        let t := (b :: r).drop k.name.length
        if k.continuations.isEmpty || (!t.isEmpty && k.stops t) then
          (spell n t).map (k.lexeme :: ·)
        else none
      | none => none

namespace Spelled

open Token

theorem operator?_isPrefix {t : Text} {k : Kind} (h : operator? t = some k) :
    k ∈ Kind.operators ∧ k.name <+: t := by
  obtain ⟨n, -, hn⟩ := List.exists_of_findSome?_eq_some h
  have hname := List.find?_some hn
  rw [beq_iff_eq] at hname
  exact ⟨List.mem_of_find?_eq_some hn, hname ▸ List.take_prefix n t⟩

theorem fixed {n : Nat} {u : Text} {k : List Lexeme} (hu : u.spell n = some k) {t : Text}
    {ls : List Lexeme} (h : Spelled t ls) : Spelled (u ++ t) (k ++ ls) := by
  induction n generalizing u k with
  | zero =>
    cases u with
    | nil => cases hu; exact h
    | cons b r => cases hu
  | succ n ih =>
    cases u with
    | nil => cases hu; exact h
    | cons b r =>
      rw [Text.spell] at hu
      split at hu
      · rename_i hb
        exact blank hb (ih hu)
      split at hu
      · rename_i hb
        obtain ⟨hne, ks, hks, rfl⟩ : r.dropWhile Text.isWordByte ≠ [] ∧ ∃ ks,
            Text.spell n (r.dropWhile Text.isWordByte) = some ks ∧
            k = .word (b :: r.takeWhile Text.isWordByte) :: ks := by
          dsimp only at hu
          split at hu
          · cases hu
          · rename_i he
            obtain ⟨ks, hks, rfl⟩ := Option.map_eq_some_iff.1 hu
            exact ⟨by simpa using he, ks, hks, rfl⟩
        have hsplit : b :: r ++ t =
            (b :: r.takeWhile Text.isWordByte) ++ (r.dropWhile Text.isWordByte ++ t) := by
          rw [List.cons_append, List.cons_append, ← List.append_assoc, List.takeWhile_append_dropWhile]
        rw [hsplit]
        refine word ?_ ?_ (ih hks)
        · simp only [Print.isWord, hb, Bool.true_and, List.all_eq_true]
          exact List.all_eq_true.1 List.all_takeWhile
        · have hhead := List.head?_dropWhile_not Text.isWordByte r
          cases hd : r.dropWhile Text.isWordByte with
          | nil => exact absurd hd hne
          | cons c v => rw [hd] at hhead; simpa using hhead
      · split at hu
        · rename_i op hop
          obtain ⟨hk, v, hv⟩ := operator?_isPrefix hop
          rw [← hv, List.drop_left] at hu
          dsimp only at hu
          split at hu
          · rename_i hstop
            obtain ⟨ks, hks, rfl⟩ := Option.map_eq_some_iff.1 hu
            rw [← hv, List.append_assoc]
            refine mark hk ?_ (ih hks)
            cases v with
            | nil =>
              have hc : op.continuations = [] := by simpa using hstop
              simp [Kind.stops, hc]
            | cons c v =>
              rcases Bool.or_eq_true_iff.1 hstop with hc | hc
              · have hc : op.continuations = [] := by simpa using hc
                simp [Kind.stops, hc]
              · simpa [Kind.stops] using hc
          · cases hu
        · cases hu

end Spelled

end ScriptLang
