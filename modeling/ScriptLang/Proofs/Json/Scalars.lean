import ScriptLang.Json.Reader
import ScriptLang.Proofs.Decimal.Layout
import ScriptLang.Proofs.Decimal.Bits
import ScriptLang.Proofs.Text.Utf8

/-!
# Numbers and strings in JSON are read back

The JSON text of a finite number is a numeral that stands for a fraction in the number's interval. The
reader finds it at the start of a text, if what follows does not go on with it (`Json.numberText_append`),
and reads it as a number that equals the given one (`Number.read?_json`). The two may differ in the sign of
zero, which is not written.

A string is written character by character: an escape for quotes, backslashes, control characters, characters
of markup and the two line separators, and the bytes of every other character. The reader takes each written
character for the character (`Json.taken_escapeRune`). No escape stands for half of a surrogate pair, so an
escape is never joined with the one after it. So a well-formed text is read back
(`Json.readString_flatMap`).
-/

namespace ScriptLang

namespace Json

/-- Whether a value may end before a text: there is nothing left, or a comma, a closing bracket or a new
line. -/
def ends (t : Text) : Bool := t.head?.all fun b => b == 0x2c || b == 0x5d || b == 0x7d || b == 0x0a

theorem ends_head {b : UInt8} {r : Text} (h : ends (b :: r) = true) :
    Text.isDigit b = false ∧ b ≠ 0x2e ∧ Text.lowerByte b ≠ 0x65 := by
  simp only [ends, List.head?_cons, Option.all_some, Bool.or_eq_true, beq_iff_eq] at h
  rcases h with ((rfl | rfl) | rfl) | rfl <;> decide

theorem digits_append {t r : Text} (ht : ∀ b ∈ t, Text.isDigit b = true)
    (hr : ∀ b r', r = b :: r' → Text.isDigit b = false) : digits (t ++ r) = (t, r) := by
  have hnone : r.takeWhile Text.isDigit = [] ∧ r.dropWhile Text.isDigit = r := by
    cases r with
    | nil => exact ⟨rfl, rfl⟩
    | cons b r =>
      have hb : ¬Text.isDigit b = true := Bool.eq_false_iff.1 (hr b r rfl)
      exact ⟨List.takeWhile_cons_of_neg hb, List.dropWhile_cons_of_neg hb⟩
  rw [digits, List.takeWhile_append_of_pos ht, List.dropWhile_append_of_pos ht, hnone.1, hnone.2,
    List.append_nil]

/-- The digits after the point are found. -/
theorem placesText_fraction {ds r : Text} (hds : ∀ b ∈ ds, Text.isDigit b = true)
    (hr : ∀ b r', r = b :: r' → Text.isDigit b = false ∧ b ≠ 0x2e) :
    placesText (Numeral.fraction ds ++ r) = some (Numeral.fraction ds, r) := by
  rw [Numeral.fraction]
  split
  · rw [List.nil_append, placesText]
    exact fun r' h => (hr _ _ h).2 rfl
  · next hne =>
    rw [List.cons_append, placesText, digits_append hds fun b r' h => (hr b r' h).1]
    dsimp only
    rw [if_neg (by simpa using hne)]
    rfl

/-- The exponent is found. -/
theorem exponentText_mark {e : Option (Bool × Text)} {rest : Text}
    (he : ∀ negative ds, e = some (negative, ds) → ds ≠ [] ∧ ∀ b ∈ ds, Text.isDigit b = true)
    (hrest : ends rest = true) : exponentText (Numeral.mark e ++ rest) = some (Numeral.mark e, rest) := by
  cases e with
  | none =>
    rw [Numeral.mark, List.nil_append]
    cases rest with
    | nil => rfl
    | cons b r => exact if_neg (by simpa using (ends_head hrest).2.2)
  | some e =>
    obtain ⟨negative, ds⟩ := e
    obtain ⟨hne, hds⟩ := he negative ds rfl
    have hdigits := digits_append hds fun b r hr => (ends_head (hr ▸ hrest : ends (b :: r) = true)).1
    have hnil : ¬ds.isEmpty = true := by simpa using hne
    have hfound (sign : Text) : (if (digits (ds ++ rest)).1.isEmpty then none
        else some (Text.ofString "e" ++ sign ++ (digits (ds ++ rest)).1, (digits (ds ++ rest)).2)) =
        some (0x65 :: (sign ++ ds), rest) := by
      rw [hdigits]
      exact if_neg hnil
    cases negative with
    | false => exact hfound [0x2b]
    | true => exact hfound [0x2d]

/-- What follows the digits of a number is neither a digit nor a point. -/
theorem mark_head {e : Option (Bool × Text)} {rest : Text} (hrest : ends rest = true) (b : UInt8) (r : Text)
    (hb : Numeral.mark e ++ rest = b :: r) : Text.isDigit b = false ∧ b ≠ 0x2e := by
  obtain hmark | ⟨u, hmark⟩ := Numeral.mark_stops e
  · rw [hmark, List.nil_append] at hb
    obtain ⟨hdigit, hpoint, -⟩ := ends_head (hb ▸ hrest)
    exact ⟨hdigit, hpoint⟩
  · rw [hmark] at hb
    cases hb
    decide

/-- The digits before the point are found. -/
theorem digits_unsigned {p : Numeral} {rest : Text} (hp : p.Proper) (hrest : ends rest = true) :
    digits (p.unsigned ++ rest) =
      (p.whole, Numeral.fraction p.places ++ (Numeral.mark p.exponent ++ rest)) := by
  rw [Numeral.unsigned, List.append_assoc, List.append_assoc]
  refine digits_append hp.whole fun b r hb => ?_
  rw [Numeral.fraction] at hb
  split at hb
  · exact (mark_head hrest b r hb).1
  · cases hb
    decide

/-- The text of a number is found at the start of a text. -/
theorem numberText_append {p : Numeral} {t rest : Text} {x : ℚ} (h : p.Writes t x)
    (hrest : ends rest = true) : numberText (t ++ rest) = some (t, rest) := by
  have hproper := h.proper
  have hplaces := placesText_fraction hproper.places (mark_head (e := p.exponent) hrest)
  have hexponent := exponentText_mark (fun negative ds he =>
    ⟨(hproper.exponent negative ds he).1, (hproper.exponent negative ds he).2.1⟩) hrest
  have hleads : ¬(p.whole.isEmpty || (p.whole.length > 1 && p.whole.head? == some 0x30)) = true := by
    have hne := hproper.whole_ne
    have hleads := h.leads
    simp only [Bool.or_eq_true, Bool.and_eq_true, List.isEmpty_iff, decide_eq_true_eq, beq_iff_eq, not_or,
      not_and]
    exact ⟨hne, fun hlength hhead => by simp [hleads hhead] at hlength⟩
  have hunsigned (sign : Text) :
      (let ds := digits (p.unsigned ++ rest)
      if ds.1.isEmpty || (ds.1.length > 1 && ds.1.head? == some 0x30) then none
      else (placesText ds.2).bind fun places => (exponentText places.2).bind fun exponent =>
        some (sign ++ ds.1 ++ places.1 ++ exponent.1, exponent.2)) = some (sign ++ p.unsigned, rest) := by
    rw [digits_unsigned hproper hrest]
    dsimp only
    rw [if_neg hleads, hplaces, Option.bind_some, hexponent, Option.bind_some, Numeral.unsigned]
    simp [List.append_assoc]
  rw [← h.text, Numeral.text]
  cases p.negative with
  | true => exact hunsigned [0x2d]
  | false =>
    obtain ⟨b, r, hstart, hb⟩ := Numeral.unsigned_start hproper
    have hminus : b ≠ 0x2d := (Number.digit_reading hb).2.2.2.2.1
    rw [if_neg Bool.false_ne_true, numberText]
    · exact hunsigned []
    · intro r' h
      rw [hstart] at h
      exact hminus (List.cons.inj h).1

end Json

namespace Number

theorem finite_of_isFinite {v : Float} (hv : isFinite v = true) :
    ∃ negative m q, Binary.ofFloat v = .finite negative m q := by
  rw [isFinite] at hv
  split at hv
  · next negative m q hfinite => exact ⟨negative, m, q, hfinite⟩
  · cases hv

/-- The JSON text of a finite number stands for a fraction in its interval; the sign of zero is lost. -/
theorem exists_json {v : Float} {negative : Bool} {m : Nat} {q : Int}
    (hv : Binary.ofFloat v = .finite negative m q) : ∃ whole places e x,
      (Numeral.mk (negative && m != 0) whole places e).Writes (json v) x ∧
      (m = 0 → x = 0) ∧ (m ≠ 0 → Decimal.Reads m q x) := by
  obtain ⟨whole, places, e, x, hwrites, hzero, hreads, -⟩ :=
    exists_numeral Layout.json (by decide : 0 < Binary.mantissaCount) hv
  exact ⟨whole, places, e, x, hwrites, hzero, hreads⟩

/-- The JSON text of a finite number is read as a finite number that equals it. -/
theorem read?_json {v : Float} (hv : isFinite v = true) :
    ∃ w, read? (json v) = some w ∧ isFinite w = true ∧ (w == v) = true := by
  obtain ⟨negative, m, q, hfinite⟩ := finite_of_isFinite hv
  obtain ⟨hc, hfloat⟩ := Binary.toFloat_of_ofFloat hfinite
  obtain ⟨whole, places, e, x, hwrites, hzero, hreads⟩ := exists_json hfinite
  by_cases hm : m = 0
  · have hsign : (negative && m != 0) = false := by simp [hm]
    rw [hsign] at hwrites
    have hdigits := Numeral.digits_eq_zero (hwrites.value.trans (hzero hm))
    have hread : read? (json v) = some (Binary.toFloat false 0 Binary.minExponent) :=
      hwrites.text ▸ Numeral.read?_of_zero hwrites.proper hdigits
    have hq : q = Binary.minExponent := hc.subnormal (by rw [hm]; decide)
    refine ⟨_, hread, rfl, ?_⟩
    rw [← hfloat, hm, hq]
    cases negative <;> rfl
  · have hsign : (negative && m != 0) = negative := by simp [hm]
    rw [hsign] at hwrites
    have hread : read? (json v) = some (Binary.toFloat negative m q) :=
      hwrites.text ▸ Numeral.read?_of_reads hwrites.proper hm hc (hwrites.value.symm ▸ hreads hm)
    rw [hfloat] at hread
    exact ⟨v, hread, hv, beq_self_iff.2 (isNaN_of_isFinite hv)⟩

/-- The JSON text of a finite number starts with a digit or a minus sign. -/
theorem json_start {v : Float} (hv : isFinite v = true) :
    ∃ b r, json v = b :: r ∧ (b = 0x2d ∨ Text.isDigit b = true) := by
  obtain ⟨negative, m, q, hfinite⟩ := finite_of_isFinite hv
  obtain ⟨whole, places, e, x, hwrites, -⟩ := exists_json hfinite
  obtain ⟨b, r, hstart, hb⟩ := Numeral.unsigned_start hwrites.proper
  rw [← hwrites.text, Numeral.text]
  split
  · exact ⟨_, _, rfl, .inl rfl⟩
  · exact ⟨b, r, hstart, .inr hb⟩

/-- The JSON text of a finite number is found at the start of a text. -/
theorem numberText_json {v : Float} (hv : isFinite v = true) {rest : Text} (hrest : Json.ends rest = true) :
    Json.numberText (json v ++ rest) = some (json v, rest) := by
  obtain ⟨negative, m, q, hfinite⟩ := finite_of_isFinite hv
  obtain ⟨whole, places, e, x, hwrites, -⟩ := exists_json hfinite
  exact Json.numberText_append hwrites hrest

end Number

end ScriptLang

namespace ScriptLang.Json

open Text

/-- Whether the reader takes `t`, wherever it stands in a string, for `u`. It needs no more steps than there
are bytes. -/
def Taken (t u : Text) : Prop :=
  ∃ steps ≤ t.length, ∀ (n : Nat) (rest : Text),
    readString (n + steps) (t ++ rest) = (readString n rest).map fun p => (u ++ p.1, p.2)

namespace Taken

variable {t t' u u' : Text} {a b c d : UInt8} {n : Nat}

theorem nil : Taken [] [] := ⟨0, Nat.le_refl _, fun n rest => by
  cases h : readString n rest <;> simp [h]⟩

theorem append (h : Taken t u) (h' : Taken t' u') : Taken (t ++ t') (u ++ u') := by
  obtain ⟨k, hk, h⟩ := h
  obtain ⟨k', hk', h'⟩ := h'
  refine ⟨k' + k, ?_, fun n rest => ?_⟩
  · rw [List.length_append]
    omega
  · rw [List.append_assoc, ← Nat.add_assoc, h, h']
    cases readString n rest <;> simp

/-- A byte that stands for itself. -/
theorem byte (hlow : ¬b < 0x20) (hquote : b ≠ 0x22) (hescape : b ≠ 0x5c) : Taken [b] [b] := by
  refine ⟨1, Nat.le_refl _, fun n rest => ?_⟩
  rw [List.cons_append, List.nil_append, readString]
  · rw [if_neg hlow]
    rfl
  · exact hquote
  · exact fun _ h => absurd h hescape
  · exact fun _ _ h => absurd h hescape

theorem bytes (h : ∀ b ∈ t, ¬b < 0x20 ∧ b ≠ 0x22 ∧ b ≠ 0x5c) : Taken t t := by
  induction t with
  | nil => exact .nil
  | cons b t ih =>
    obtain ⟨⟨hlow, hquote, hescape⟩, h⟩ := List.forall_mem_cons.1 h
    exact append (byte hlow hquote hescape) (ih h)

/-- An escape of one letter. -/
theorem letter (h : escaped? a = some b) (hu : a ≠ 0x75) : Taken [0x5c, a] [b] := by
  refine ⟨1, by simp, fun n rest => ?_⟩
  change readString (n + 1) (0x5c :: a :: rest) = _
  rw [readString, h]
  · cases readString n rest <;> rfl
  · exact hu

/-- An escape of four digits that is no half of a surrogate pair. -/
theorem code (h : ofHex? [a, b, c, d] = some n) (hhigh : isHigh n = false) :
    Taken [0x5c, 0x75, a, b, c, d] (encode n) := by
  refine ⟨1, by simp, fun k rest => ?_⟩
  change readString (k + 1) (0x5c :: 0x75 :: a :: b :: c :: d :: rest) = _
  have hread : readCode (a :: b :: c :: d :: rest) = some (n, rest) := by
    rw [readCode, h]
    rfl
  rw [readString, hread]
  dsimp only [Option.bind_eq_bind, Option.bind_some]
  split
  · rw [hhigh, Bool.false_and, if_neg Bool.false_ne_true]
    cases readString k rest <;> rfl
  · cases readString k rest <;> rfl

end Taken

/-- The characters that are escaped by number. -/
theorem taken_hex : ∀ n ∈ List.range 0x20 ++ [0x2028, 0x2029, 0x3c, 0x3e, 0x26],
    Taken ("\\u" ++ hex 4 n) (encode n) := by
  intro n hn
  have hcodes : ∀ n ∈ List.range 0x20 ++ [0x2028, 0x2029, 0x3c, 0x3e, 0x26],
      n < 0x10000 ∧ isHigh n = false := by decide
  obtain ⟨hn, hhigh⟩ := hcodes n hn
  obtain ⟨a, b, c, d, hhex, hvalue, -⟩ := exists_hex hn
  rw [hhex]
  exact .code hvalue hhigh

/-- The bytes of a character that is no control character, quote or backslash. -/
theorem encode_plain {n : Nat} (hlow : ¬n < 0x20) (hquote : n ≠ 0x22) (hescape : n ≠ 0x5c) :
    ∀ b ∈ encode n, ¬b < 0x20 ∧ b ≠ 0x22 ∧ b ≠ 0x5c := by
  intro b hb
  by_cases hascii : n < 0x80
  · rw [encode_one hascii, List.mem_singleton] at hb
    have hvalue : b.toNat = n := by rw [hb, toNat_toUInt8 (by omega)]
    refine ⟨?_, ?_, ?_⟩
    · rw [UInt8.lt_iff_toNat_lt, hvalue]
      exact hlow
    · rintro rfl
      exact hquote hvalue.symm
    · rintro rfl
      exact hescape hvalue.symm
  · have hhigh := encode_ge (Nat.le_of_not_lt hascii) b hb
    refine ⟨fun h => ?_, ?_, ?_⟩
    · rw [UInt8.le_iff_toNat_le] at hhigh
      rw [UInt8.lt_iff_toNat_lt] at h
      exact absurd (Nat.lt_of_le_of_lt hhigh h) (by decide)
    · rintro rfl
      exact absurd hhigh (by decide)
    · rintro rfl
      exact absurd hhigh (by decide)

/-- A written character is read as its UTF-8 form. -/
theorem taken_escapeRune {r : Rune} (hr : r.wellFormed = true) (hbytes : encode r.code = r.bytes) :
    Taken (escapeRune .markup r) (encode r.code) := by
  rw [escapeRune, hr]
  simp only [Bool.not_true, Bool.false_eq_true, if_false, beq_self_eq_true, Bool.true_and]
  split
  · next h => rw [h]; exact .letter (a := 0x22) (by decide) (by decide)
  · next h => rw [h]; exact .letter (a := 0x5c) (by decide) (by decide)
  · next h => rw [h]; exact .letter (a := 0x6e) (by decide) (by decide)
  · next h => rw [h]; exact .letter (a := 0x72) (by decide) (by decide)
  · next h => rw [h]; exact .letter (a := 0x74) (by decide) (by decide)
  · next hquote hescape _ _ _ =>
    split
    · next h => rw [beq_iff_eq.1 h]; exact .letter (a := 0x62) (by decide) (by decide)
    split
    · next h => rw [beq_iff_eq.1 h]; exact .letter (a := 0x66) (by decide) (by decide)
    split
    · next h =>
      simp only [Bool.or_eq_true, decide_eq_true_eq, beq_iff_eq] at h
      refine taken_hex _ ?_
      rcases h with (h | h) | h
      · exact List.mem_append_left _ (List.mem_range.2 h)
      · simp [h]
      · simp [h]
    · next hlow =>
      simp only [Bool.or_eq_true, decide_eq_true_eq, beq_iff_eq, not_or] at hlow
      split
      · next h =>
        simp only [Bool.or_eq_true, beq_iff_eq] at h
        refine taken_hex _ ?_
        rcases h with (h | h) | h <;> simp [h]
      · rw [← hbytes]
        exact .bytes (encode_plain hlow.1.1 hquote hescape)

/-- A well-formed text is read back, up to its closing quote. -/
theorem readString_flatMap {t rest : Text} {n : Nat} (ht : t.isUtf8 = true)
    (hn : ((runes t).flatMap (escapeRune .markup)).length < n) :
    readString n ((runes t).flatMap (escapeRune .markup) ++ 0x22 :: rest) = some (t, rest) := by
  have htaken : ∀ rs : List Rune, (∀ r ∈ rs, r ∈ runes t) →
      Taken (rs.flatMap (escapeRune .markup)) (rs.flatMap fun r => encode r.code) := by
    intro rs
    induction rs with
    | nil => exact fun _ => .nil
    | cons r rs ih =>
      intro h
      obtain ⟨hr, h⟩ := List.forall_mem_cons.1 h
      have hgood := List.all_eq_true.1 ht r hr
      exact .append (taken_escapeRune hgood (Text.encode_of_mem_runes r hr hgood)) (ih h)
  obtain ⟨k, hk, hread⟩ := htaken (runes t) fun _ h => h
  obtain ⟨m, rfl⟩ : ∃ m, n = m + 1 + k := ⟨n - 1 - k, by omega⟩
  rw [hread, readString]
  change some (mend t ++ [], rest) = _
  rw [mend_of_isUtf8 ht, List.append_nil]

end ScriptLang.Json
