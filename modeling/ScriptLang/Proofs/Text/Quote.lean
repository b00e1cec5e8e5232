import ScriptLang.Syntax.Print
import ScriptLang.Token.Scan

/-!
# String literals read back

A string literal is written character by character: an escape for quotes, backslashes and control
characters, and the UTF-8 form of everything else. Both passes of the scanner undo this: the search
for the closing quote steps over every written character, and resolving the escapes gives its UTF-8
form. A control character is escaped by its number in hexadecimal, which stands for that number
whatever its width (`Text.ofHex?_hex`). So a literal reads back as the text with its malformed characters
mended (`piece_quote`).
-/

namespace ScriptLang

namespace Text

/-- A property of bytes holds of all of them if it holds of the 256 numbers. -/
theorem forall_byte {p : UInt8 → Prop} (h : ∀ n < 256, p (UInt8.ofNat n)) (b : UInt8) : p b := by
  have hb := h b.toNat b.toNat_lt
  rwa [UInt8.ofNat_toNat] at hb

/-- A byte that neither ends a string literal nor starts an escape in it. -/
def IsPlain (b : UInt8) : Prop := b ≠ 0x22 ∧ b ≠ 0x5c ∧ b ≠ 0x0a

theorem isPlain_of_ge {b : UInt8} (h : 0x80 ≤ b) : IsPlain b := by
  refine ⟨?_, ?_, ?_⟩ <;> rintro rfl <;> revert h <;> decide

theorem toNat_toUInt8 {n : Nat} (h : n < 256) : n.toUInt8.toNat = n := by
  simp only [Nat.toUInt8_eq]
  exact UInt8.toNat_ofNat_of_lt' h

/-- Every byte of a code point beyond ASCII has its high bit set. -/
theorem encode_ge {code : Nat} (h : 0x80 ≤ code) : ∀ b ∈ encode code, (0x80 : UInt8) ≤ b := by
  have lead (n : Nat) (h₁ : 128 ≤ n) (h₂ : n < 256) : (0x80 : UInt8) ≤ n.toUInt8 := by
    rw [UInt8.le_iff_toNat_le, toNat_toUInt8 h₂]
    exact h₁
  intro b hb
  simp only [encode] at hb
  split at hb
  · omega
  · split at hb
    · simp only [List.mem_cons, List.not_mem_nil, or_false] at hb
      rcases hb with rfl | rfl <;> exact lead _ (by omega) (by omega)
    · split at hb
      · simp only [List.mem_cons, List.not_mem_nil, or_false] at hb
        rcases hb with rfl | rfl | rfl <;> decide
      · rename_i hr
        simp only [Bool.or_eq_true, Bool.and_eq_true, decide_eq_true_eq, not_or] at hr
        split at hb <;> simp only [List.mem_cons, List.not_mem_nil, or_false] at hb
        · rcases hb with rfl | rfl | rfl <;> exact lead _ (by omega) (by omega)
        · rcases hb with rfl | rfl | rfl | rfl <;> exact lead _ (by omega) (by omega)

/-! ### Hexadecimal numbers -/

theorem hexDigit?_digitChar : ∀ d < 16, hexDigit? (Nat.digitChar d).toNat.toUInt8 = some d := by
  decide

theorem isPlain_digitChar : ∀ d < 16, IsPlain (Nat.digitChar d).toNat.toUInt8 := by
  unfold IsPlain
  decide

theorem length_hex {n : Nat} (hn : n < 0x10000) : (hex 4 n).length = 4 := by
  have hle : (Nat.toDigits 16 n).length ≤ 4 := (Nat.length_toDigits_le_iff (by decide) (by decide)).2 hn
  simp only [hex, List.length_append, List.length_replicate, List.length_map]
  omega

theorem isPlain_hex (width n : Nat) : ∀ b ∈ hex width n, IsPlain b := by
  have hdigits : ∀ c ∈ Nat.toDigits 16 n, IsPlain c.toNat.toUInt8 := by
    induction n using Nat.base_induction 16 (by decide) with
    | single m hm =>
      rw [Nat.toDigits_of_lt_base hm]
      simpa using isPlain_digitChar m hm
    | digit m k hk hm ih =>
      rw [← Nat.toDigits_append_toDigits (by decide) hm hk, Nat.toDigits_of_lt_base hk]
      intro c hc
      rcases List.mem_append.1 hc with hc | hc
      · exact ih c hc
      · rw [List.mem_singleton.1 hc]
        exact isPlain_digitChar k hk
  intro b hb
  rcases List.mem_append.1 hb with hb | hb
  · rw [(List.mem_replicate.1 hb).2]
    exact isPlain_digitChar 0 (by decide)
  · obtain ⟨c, hc, rfl⟩ := List.mem_map.1 hb
    exact hdigits c hc

/-- A number in hexadecimal is read back, whatever zeros are put before it. -/
theorem ofHex?_hex (width n : Nat) : ofHex? (hex width n) = some n := by
  -- The zeros leave the value at zero, and then each digit is taken into it.
  have hzeros (k : Nat) : (List.replicate k (0x30 : UInt8)).foldlM
      (fun n b => (hexDigit? b).map (16 * n + ·)) 0 = some 0 := by
    induction k with
    | zero => rfl
    | succ k ih => exact ih
  have hdigits : ((Nat.toDigits 16 n).map fun c => c.toNat.toUInt8).foldlM
      (fun n b => (hexDigit? b).map (16 * n + ·)) 0 = some n := by
    induction n using Nat.base_induction 16 (by decide) with
    | single m hm =>
      rw [Nat.toDigits_of_lt_base hm]
      simp [hexDigit?_digitChar m hm]
    | digit m k hk hm ih =>
      rw [← Nat.toDigits_append_toDigits (by decide) hm hk, Nat.toDigits_of_lt_base hk,
        List.map_append, List.foldlM_append, ih]
      simp [hexDigit?_digitChar k hk]
  have hne : (hex width n).isEmpty = false := by simp [hex]
  rw [ofHex?, hne, if_neg Bool.false_ne_true, hex, List.foldlM_append, hzeros]
  exact hdigits

/-- The digits of a code that has four of them. -/
theorem exists_hex {n : Nat} (hn : n < 0x10000) : ∃ a b c d, hex 4 n = [a, b, c, d] ∧
    ofHex? [a, b, c, d] = some n ∧ ∀ x ∈ [a, b, c, d], IsPlain x := by
  match hhex : hex 4 n, length_hex hn with
  | [a, b, c, d], _ => exact ⟨a, b, c, d, rfl, hhex ▸ ofHex?_hex 4 n, hhex ▸ isPlain_hex 4 n⟩

end Text

open Text

/-! ### The two passes over a written character -/

theorem unescape_plain {b : UInt8} (h : b ≠ 0x5c) (r : Text) :
    unescape (b :: r) = (unescape r).map (b :: ·) := by
  rw [unescape] <;> simp_all

theorem untilQuote?_plain {b : UInt8} (h : IsPlain b) (r : Text) :
    Token.untilQuote? (b :: r) = (Token.untilQuote? r).map (b :: ·) := by
  obtain ⟨h₁, h₂, h₃⟩ := h
  rw [Token.untilQuote?]
  · exact if_neg h₃
  all_goals simp_all

theorem unescape_append_plain {t : Text} (h : ∀ b ∈ t, IsPlain b) (r : Text) :
    unescape (t ++ r) = (unescape r).map (t ++ ·) := by
  induction t with
  | nil => rw [List.nil_append]; cases unescape r <;> rfl
  | cons b t ih =>
    rw [List.cons_append, unescape_plain (h b (by simp)).2.1, ih fun c hc => h c (by simp [hc])]
    cases unescape r <;> rfl

theorem untilQuote?_append_plain {t : Text} (h : ∀ b ∈ t, IsPlain b) (r : Text) :
    Token.untilQuote? (t ++ r) = (Token.untilQuote? r).map (t ++ ·) := by
  induction t with
  | nil => rw [List.nil_append]; cases Token.untilQuote? r <;> rfl
  | cons b t ih =>
    rw [List.cons_append, untilQuote?_plain (h b (by simp)), ih fun c hc => h c (by simp [hc])]
    cases Token.untilQuote? r <;> rfl

/-- What it takes for a written form `t` of a character to be read as `u`. -/
structure Undone (t u : Text) : Prop where
  /-- Resolving escapes gives the character. -/
  unescape (r : Text) : unescape (t ++ r) = (unescape r).map (u ++ ·)
  /-- The search for the closing quote steps over it. -/
  untilQuote (r : Text) : Token.untilQuote? (t ++ r) = (Token.untilQuote? r).map (t ++ ·)

theorem Undone.plain {t : Text} (h : ∀ b ∈ t, IsPlain b) : Undone t t :=
  ⟨unescape_append_plain h, untilQuote?_append_plain h⟩

theorem Undone.nil : Undone [] [] := .plain (by simp)

theorem Undone.append {t₁ t₂ u₁ u₂ : Text} (h₁ : Undone t₁ u₁) (h₂ : Undone t₂ u₂) :
    Undone (t₁ ++ t₂) (u₁ ++ u₂) := by
  constructor <;> intro r
  · rw [List.append_assoc, h₁.unescape, h₂.unescape]
    cases ScriptLang.unescape r <;> simp [Except.map]
  · rw [List.append_assoc, h₁.untilQuote, h₂.untilQuote]
    cases Token.untilQuote? r <;> simp

/-- An escape of one letter. -/
theorem Undone.letter {e b : UInt8} (h : escapedByte? e = some b) (hu : e ≠ 0x75) (hn : e ≠ 0x0a) :
    Undone [0x5c, e] [b] := by
  constructor <;> intro r
  · change ScriptLang.unescape (0x5c :: e :: r) = _
    rw [ScriptLang.unescape, h]
    · rfl
    all_goals simp_all
  · change Token.untilQuote? (0x5c :: e :: r) = _
    rw [Token.untilQuote?]
    exact if_neg hn

/-- An escape of four hexadecimal digits. -/
theorem Undone.code {a b c d : UInt8} {n : Nat} (h : ofHex? [a, b, c, d] = some n)
    (hp : ∀ x ∈ [a, b, c, d], IsPlain x) : Undone [0x5c, 0x75, a, b, c, d] (encode n) := by
  constructor <;> intro r
  · change ScriptLang.unescape (0x5c :: 0x75 :: a :: b :: c :: d :: r) = _
    rw [ScriptLang.unescape, h]
  · change Token.untilQuote? (0x5c :: 0x75 :: ([a, b, c, d] ++ r)) = _
    rw [Token.untilQuote?, untilQuote?_append_plain hp]
    cases Token.untilQuote? r <;> rfl

/-- The escapes of control characters, each with its digits in full. -/
theorem undone_control : ∀ c < 0x20, c ≠ 0 ∧ c ≠ 9 ∧ c ≠ 10 ∧ c ≠ 13 →
    Undone (Print.escape c) (encode c) := by
  intro c hc h
  obtain ⟨a, b, c', d, hx, hv, hp⟩ := exists_hex (n := c) (by omega)
  have he : Print.escape c = [0x5c, 0x75, a, b, c', d] := by
    rw [Print.escape, if_pos hc, hx]
    · rfl
    all_goals omega
  rw [he]
  exact .code hv hp

/-- A written character is read as its UTF-8 form. -/
theorem undone_escape (c : Nat) : Undone (Print.escape c) (encode c) := by
  by_cases h22 : c = 0x22
  · subst h22; exact .letter (e := 0x22) (b := 0x22) (by decide) (by decide) (by decide)
  by_cases h5c : c = 0x5c
  · subst h5c; exact .letter (e := 0x5c) (b := 0x5c) (by decide) (by decide) (by decide)
  by_cases h0a : c = 0x0a
  · subst h0a; exact .letter (e := 0x6e) (b := 0x0a) (by decide) (by decide) (by decide)
  by_cases h09 : c = 0x09
  · subst h09; exact .letter (e := 0x74) (b := 0x09) (by decide) (by decide) (by decide)
  by_cases h0d : c = 0x0d
  · subst h0d; exact .letter (e := 0x72) (b := 0x0d) (by decide) (by decide) (by decide)
  by_cases h00 : c = 0
  · subst h00; exact .letter (e := 0x30) (b := 0) (by decide) (by decide) (by decide)
  by_cases hc : c < 0x20
  · exact undone_control c hc ⟨h00, h09, h0a, h0d⟩
  have he : Print.escape c = encode c := by
    rw [Print.escape, if_neg hc] <;> assumption
  rw [he]
  apply Undone.plain
  by_cases hb : c < 0x80
  · have hn : c.toUInt8.toNat = c := toNat_toUInt8 (by omega)
    intro b hm
    simp only [encode, hb, if_true, List.mem_singleton] at hm
    subst hm
    refine ⟨?_, ?_, ?_⟩ <;> intro hx <;> rw [hx] at hn <;> simp at hn <;> omega
  · exact fun b hm => isPlain_of_ge (encode_ge (by omega) b hm)

/-! ### A whole literal -/

/-- The content of a string literal. -/
def Print.content (t : Text) : Text := (Text.runes t).flatMap fun r => Print.escape r.code

theorem undone_flatMap (rs : List Rune) :
    Undone (rs.flatMap fun r => Print.escape r.code) (rs.flatMap fun r => encode r.code) := by
  induction rs with
  | nil => exact .nil
  | cons r rs ih => exact .append (undone_escape r.code) ih

theorem unescape_content (t : Text) : unescape (Print.content t) = .ok (mend t) := by
  have h := (undone_flatMap (runes t)).unescape []
  rw [List.append_nil] at h
  rw [Print.content, h]
  simp [unescape, Except.map, mend]

theorem untilQuote?_content (t r : Text) :
    Token.untilQuote? (Print.content t ++ 0x22 :: r) = some (Print.content t) := by
  rw [Print.content, (undone_flatMap (runes t)).untilQuote]
  simp [Token.untilQuote?]

theorem quote_eq (t : Text) : Print.quote t = 0x22 :: (Print.content t ++ [0x22]) := rfl

/-- The content of a literal does not start with a quote: the search for the closing quote would
stop there. -/
theorem content_ne_quote (t r : Text) : Print.content t ≠ 0x22 :: r := by
  intro h
  have hq := untilQuote?_content t []
  rw [h, List.cons_append, Token.untilQuote?] at hq
  simp at hq

/-- Only the empty literal, with another quote right behind it, looks like three quotes. -/
theorem not_triple (t : Text) {r : Text} (hr : r.head? ≠ some 0x22) :
    (Text.ofString "\"\"\"").isPrefixOf (0x22 :: (Print.content t ++ 0x22 :: r)) = false := by
  have h3 : Text.ofString "\"\"\"" = [0x22, 0x22, 0x22] := by decide
  rw [h3]
  match hc : Print.content t with
  | [] =>
    match r, hr with
    | [], _ => rfl
    | b :: r, hr =>
      have hb : (0x22 : UInt8) ≠ b := fun h => hr (by rw [h]; rfl)
      simp [List.isPrefixOf, hb]
  | b :: c =>
    have hb : 0x22 ≠ b := by rintro rfl; exact content_ne_quote t c hc
    simp [List.isPrefixOf, hb]

/-- A string literal is one token whose value is the mended text. -/
theorem piece_quote (t : Text) {r : Text} (hr : r.head? ≠ some 0x22) :
    Token.piece 0x22 (Print.content t ++ 0x22 :: r) =
      .ok (.token (Print.quote t).length .string (mend t)) := by
  have hslash : (Text.ofString "//").isPrefixOf (0x22 :: (Print.content t ++ 0x22 :: r)) = false := by
    have h2 : Text.ofString "//" = [0x2f, 0x2f] := by decide
    rw [h2]
    simp [List.isPrefixOf]
  have hq : (0x22 : UInt8) = quoteMark := rfl
  simp only [Token.piece, show Token.isBlank 0x22 = false by decide, hslash, not_triple t hr,
    untilQuote?_content, Token.stringPiece, unescape_content, if_pos hq, Bool.false_eq_true,
    if_false]
  simp [quote_eq]

end ScriptLang
