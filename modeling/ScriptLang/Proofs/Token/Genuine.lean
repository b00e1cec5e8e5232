import ScriptLang.Proofs.Decimal.Layout
import ScriptLang.Proofs.Syntax.Node
import ScriptLang.Proofs.Token.Spelled

/-!
# What scanning ensures of a token

The value of a scanned token fits its kind: a name is a word that is not reserved, a number has
digits, and a reserved word, a mark or an operator has its one spelling.

The text of a number token is a numeral without sign and exponent, so reading it gives a number that is
finite and not negative. The text that the printer writes for such a number stands for a fraction in the
number's interval, so it is read back as the number (`Number.read?_source`).
-/

namespace ScriptLang

/-- Whether the value of a token fits its kind. -/
def Token.IsGenuine (t : Token) : Prop :=
  match t.kind with
  | .eof | .string => True
  | .number => t.value.IsNumber
  | .ident => t.value.isName = true
  | k => t.value = k.name

namespace Token

variable {t : Token}

theorem IsGenuine.name (h : t.IsGenuine) (hk : t.kind = .ident) : t.value.isName = true := by
  rw [IsGenuine, hk] at h
  exact h

theorem IsGenuine.number (h : t.IsGenuine) (hk : t.kind = .number) : t.value.IsNumber := by
  rw [IsGenuine, hk] at h
  exact h

theorem IsGenuine.spelling (h : t.IsGenuine) (hk : t.kind ∉ [.eof, .number, .string, .ident]) :
    t.value = t.kind.name := by
  unfold IsGenuine at h
  split at h <;> simp_all

theorem isGenuine_of_spelling (hv : t.value = t.kind.name)
    (hk : t.kind ∉ [.eof, .number, .string, .ident]) : t.IsGenuine := by
  unfold IsGenuine
  split <;> simp_all

/-- A reserved word is a word. -/
theorem isWord_of_keyword : ∀ k ∈ Kind.keywords, Print.isWord k.name = true := by decide

theorem isWord_of_isName {w : Text} (h : w.isName = true) : Print.isWord w = true :=
  (Bool.and_eq_true_iff.1 h).1

theorem isWord_of_isGenuine (h : t.IsGenuine)
    (hk : (t.kind == .ident || t.kind.isKeyword) = true) : Print.isWord t.value = true := by
  rcases Bool.or_eq_true_iff.1 hk with hk | hk
  · exact isWord_of_isName (h.name (eq_of_beq hk))
  · rw [Kind.isKeyword, List.contains_iff_mem] at hk
    have hclass : ∀ k ∈ Kind.keywords, k ∉ [Kind.eof, .number, .string, .ident] := by decide
    rw [h.spelling (hclass _ hk)]
    exact isWord_of_keyword _ hk

/-! ### The pieces of a text -/

theorem isGenuine_word {w : Text} (hw : Print.isWord w = true) (sp : Span) :
    IsGenuine ⟨.ofWord w, w, sp⟩ := by
  rw [Kind.ofWord]
  cases h : Kind.keywords.find? fun k => k.name == w with
  | none =>
    change w.isName = true
    rw [Text.isName, hw, Kind.ofWord, h]
    rfl
  | some k =>
    have hmem := List.mem_of_find?_eq_some h
    have hfound := List.find?_some h
    have hname : k.name = w := eq_of_beq hfound
    have hclass : ∀ k ∈ Kind.keywords, k ∉ [Kind.eof, .number, .string, .ident] := by decide
    exact isGenuine_of_spelling hname.symm (hclass k hmem)

theorem isNumber_numberText {b : UInt8} (hb : Text.isDigit b = true) (r : Text) :
    (numberText (b :: r)).IsNumber := by
  have hne : (b :: r).takeWhile Text.isDigit ≠ [] := by
    rw [List.takeWhile_cons_of_pos hb]
    exact List.cons_ne_nil _ _
  have hall (t : Text) : ∀ b ∈ t.takeWhile Text.isDigit, Text.isDigit b = true :=
    List.all_eq_true.1 List.all_takeWhile
  rw [numberText]
  split
  · rename_i r' _
    dsimp only
    split
    · exact ⟨_, [], hne, hall _, List.forall_mem_nil _, rfl⟩
    · rename_i hp
      refine ⟨_, r'.takeWhile Text.isDigit, hne, hall _, hall _, ?_⟩
      rw [if_neg fun h => hp (by rw [h]; rfl)]
      exact List.append_assoc _ _ _
  · exact ⟨_, [], hne, hall _, List.forall_mem_nil _, rfl⟩

theorem isGenuine_piece {b : UInt8} {r : Text} {size : Nat} {k : Kind} {v : Text}
    (h : piece b r = .ok (.token size k v)) (sp : Span) : IsGenuine ⟨k, v, sp⟩ := by
  have hstring {q : Nat} {body : Text} (h : stringPiece q body = .ok (.token size k v)) :
      IsGenuine ⟨k, v, sp⟩ := by
    rw [stringPiece] at h
    split at h
    · cases h
      trivial
    · cases h
  rw [piece] at h
  split at h
  · cases h
  split at h
  · cases h
  split at h
  · split at h
    · exact hstring h
    · split at h
      · exact hstring h
      · cases h
  split at h
  · rename_i hb
    cases h
    exact isNumber_numberText hb r
  split at h
  · rename_i hb
    cases h
    refine isGenuine_word ?_ sp
    have hbyte : Text.isWordByte b = true := by
      simp only [Text.isWordByte, hb, Bool.true_or]
    rw [List.takeWhile_cons_of_pos hbyte, Print.isWord, hb, Bool.true_and, List.all_eq_true]
    exact List.all_eq_true.1 List.all_takeWhile
  split at h
  · rename_i k' hop
    cases h
    have hmem : k ∈ Kind.operators := by
      rw [operator?] at hop
      obtain ⟨n, -, hn⟩ := List.exists_of_findSome?_eq_some hop
      exact List.mem_of_find?_eq_some hn
    have hclass : ∀ k ∈ Kind.operators, k ∉ [Kind.eof, .number, .string, .ident] := by decide
    exact isGenuine_of_spelling rfl (hclass k hmem)
  · cases h

theorem isGenuine_scanFrom {file : Text} : ∀ (t : Text) (skip : Nat) (c : Cursor) (ts : List Token),
    scanFrom file skip c t = .ok ts → ∀ a ∈ ts, a.IsGenuine
  | [], skip, c, ts, h => by
    cases skip <;> cases h <;> simp [IsGenuine]
  | b :: r, skip + 1, c, ts, h => isGenuine_scanFrom r skip (c.after b) ts h
  | b :: r, 0, c, ts, h => by
    rw [scanFrom] at h
    split at h
    · cases h
    · exact isGenuine_scanFrom r _ _ ts h
    · rename_i size k v hp
      cases hrest : scanFrom file (size - 1) (c.after b) r with
      | error e => rw [hrest] at h; cases h
      | ok rest =>
        rw [hrest] at h
        cases h
        exact List.forall_mem_cons.2 ⟨isGenuine_piece hp _, isGenuine_scanFrom r _ _ rest hrest⟩

/-- Every scanned token fits its kind. -/
theorem isGenuine_scan {source file : Text} {ts : List Token} (h : scan source file = .ok ts) :
    ∀ t ∈ ts, t.IsGenuine := isGenuine_scanFrom source 0 {} ts h

end Token

/-! ### The numbers of number tokens -/

namespace Number

/-- Reading a number text gives a finite number that is not negative. -/
theorem read?_isLiteral {t : Text} (h : t.IsNumber) {v : Float} (hv : read? t = some v) :
    isLiteral v = true := by
  obtain ⟨whole, places, hne, hw, hp, rfl⟩ := h
  rw [← Numeral.text_plain, Numeral.read?_text (Numeral.proper_plain hne hw hp)] at hv
  obtain ⟨m, q, hfloat⟩ := Binary.ofFloat_of_nearest? (Nat.pos_iff_ne_zero.1 (by positivity)) hv
  rw [isLiteral, hfloat]
  rfl

/-- The text of a finite number that is not negative stands for a fraction in its interval. -/
theorem exists_source {v : Float} {m : Nat} {q : Int} (hv : Binary.ofFloat v = .finite false m q) :
    ∃ whole places x, (Numeral.mk false whole places none).Writes (source v) x ∧
      (m = 0 → x = 0) ∧ (m ≠ 0 → Decimal.Reads m q x) := by
  obtain ⟨whole, places, e, x, hwrites, hzero, hreads, hplain⟩ :=
    exists_numeral Layout.plain (by decide : 0 < 1000000000000000) hv
  obtain rfl := hplain fun _ => rfl
  exact ⟨whole, places, x, hwrites, hzero, hreads⟩

theorem isNumber_source {v : Float} (h : isLiteral v = true) : (source v).IsNumber := by
  rw [isLiteral] at h
  split at h
  · next negative m q hv =>
    cases negative with
    | true => cases h
    | false =>
      obtain ⟨whole, places, x, hwrites, -⟩ := exists_source hv
      obtain ⟨hne, hw, hp, -⟩ := hwrites.proper
      exact ⟨whole, places, hne, hw, hp, hwrites.text.symm.trans Numeral.text_plain⟩
  · cases h

theorem read?_source {v : Float} (h : isLiteral v = true) : read? (source v) = some v := by
  rw [isLiteral] at h
  split at h
  · next negative m q hv =>
    cases negative with
    | true => cases h
    | false =>
      obtain ⟨hc, hfloat⟩ := Binary.toFloat_of_ofFloat hv
      obtain ⟨whole, places, x, hwrites, hzero, hreads⟩ := exists_source hv
      rw [← hwrites.text]
      by_cases hm : m = 0
      · have hdigits := Numeral.digits_eq_zero (hwrites.value.trans (hzero hm))
        have hq : q = Binary.minExponent := hc.subnormal (by rw [hm]; decide)
        rw [Numeral.read?_of_zero hwrites.proper hdigits, ← hfloat, hm, hq]
      · rw [Numeral.read?_of_reads hwrites.proper hm hc (hwrites.value.symm ▸ hreads hm), hfloat]
  · cases h

end Number

end ScriptLang
