import Mathlib.Data.Nat.Cast.Field
import ScriptLang.Decimal.Layout
import ScriptLang.Decimal.Reader
import ScriptLang.Proofs.Decimal.Shortest
import ScriptLang.Proofs.Text.Quote

/-!
# Numerals

A *numeral* is the text of a number in parts: a sign or none, digits, digits after a point or none, and an
exponent or none. Reading it gives the number nearest to the fraction that the parts stand for
(`Numeral.read?_text`), and so the number in whose interval the fraction lies (`Numeral.read?_of_reads`).
-/

namespace ScriptLang

namespace Text

/-- The value of a text of digits. -/
def digitsValue (t : Text) : Nat := t.foldl (fun v b => v * 10 + (b.toNat - 0x30)) 0

theorem digitsValue_append (s t : Text) :
    digitsValue (s ++ t) = digitsValue s * 10 ^ t.length + digitsValue t := by
  have hfold (t : Text) : ∀ v, t.foldl (fun v b => v * 10 + (b.toNat - 0x30)) v =
      v * 10 ^ t.length + digitsValue t := by
    induction t with
    | nil => simp [digitsValue]
    | cons b t ih =>
      intro v
      rw [digitsValue, List.foldl_cons, List.foldl_cons, ih, ih (0 * 10 + _), List.length_cons]
      ring
  rw [digitsValue, List.foldl_append, hfold t]
  rfl

theorem digitsValue_cons (b : UInt8) (t : Text) :
    digitsValue (b :: t) = (b.toNat - 0x30) * 10 ^ t.length + digitsValue t := by
  have := digitsValue_append [b] t
  simpa [digitsValue] using this

theorem digitsValue_zeros (n : Nat) : digitsValue (Layout.zeros n) = 0 := by
  induction n with
  | zero => rfl
  | succ n ih =>
    rw [Layout.zeros, List.replicate_succ', digitsValue_append]
    rw [Layout.zeros] at ih
    rw [ih]
    rfl

theorem isDigit_zeros (n : Nat) : ∀ b ∈ Layout.zeros n, isDigit b = true := by
  intro b hb
  rw [List.eq_of_mem_replicate hb]
  rfl

/-! ### The digits of a natural number -/

theorem digit_class {c : Char} (h : c.isDigit = true) :
    isDigit c.toNat.toUInt8 = true ∧ c.toNat.toUInt8.toNat = c.toNat := by
  obtain ⟨hlow, hhigh⟩ : 48 ≤ c.toNat ∧ c.toNat ≤ 57 := by
    simp only [Char.isDigit, Bool.and_eq_true, decide_eq_true_eq] at h
    exact h
  have hbyte : c.toNat.toUInt8.toNat = c.toNat := by
    rw [Nat.toUInt8_eq, UInt8.toNat_ofNat']
    omega
  refine ⟨?_, hbyte⟩
  rw [isDigit, Bool.and_eq_true, decide_eq_true_eq, decide_eq_true_eq, UInt8.le_iff_toNat_le,
    UInt8.le_iff_toNat_le, hbyte]
  exact ⟨hlow, hhigh⟩

theorem isDigit_ofNat (n : Nat) : ∀ b ∈ ofNat n, isDigit b = true := by
  intro b hb
  obtain ⟨c, hc, rfl⟩ := List.mem_map.1 hb
  exact (digit_class (Nat.isDigit_of_mem_toDigits (by decide) (by decide) hc)).1

theorem digitsValue_ofNat (n : Nat) : digitsValue (ofNat n) = n := by
  have hfold : ∀ (cs : List Char), (∀ c ∈ cs, c.isDigit = true) → ∀ v,
      (cs.map fun c => c.toNat.toUInt8).foldl (fun v b => v * 10 + (b.toNat - 0x30)) v =
        Nat.ofDigitChars 10 cs v := by
    intro cs
    induction cs with
    | nil => intro _ v; rfl
    | cons c cs ih =>
      intro h v
      rw [List.map_cons, List.foldl_cons, ih (fun x hx => h x (by simp [hx])),
        (digit_class (h c (by simp))).2, Nat.ofDigitChars_cons, Nat.mul_comm v 10]
      rfl
  rw [digitsValue, ofNat, hfold _ fun c hc =>
    Nat.isDigit_of_mem_toDigits (by decide) (by decide) hc, Nat.ofDigitChars_ten_toDigits]

theorem length_ofNat {n : Nat} (hn : n ≠ 0) : (ofNat n).length = digitCount n := by
  rw [ofNat, List.length_map, digitCount, if_neg (by simpa using hn)]

theorem ofNat_ne_nil (n : Nat) : ofNat n ≠ [] := by
  simp [ofNat]

end Text

namespace Number

/-! ### Reading digits -/

/-- How the reader sees a digit. -/
theorem digit_reading {b : UInt8} (h : Text.isDigit b = true) :
    b ≠ 0x5f ∧ b ≠ 0x2e ∧ Text.lowerByte b = b ∧ b ≠ 0x2b ∧ b ≠ 0x2d ∧ b ≠ 0x78 := by
  have hne {c : UInt8} (hc : Text.isDigit c = false) : b ≠ c := by
    rintro rfl
    exact absurd h (by rw [hc]; exact Bool.false_ne_true)
  have hlower : Text.lowerByte b = b := by
    rw [Text.isDigit, Bool.and_eq_true, decide_eq_true_eq, decide_eq_true_eq] at h
    refine if_neg fun hupper => ?_
    rw [Bool.and_eq_true, decide_eq_true_eq] at hupper
    exact absurd (UInt8.le_trans hupper.1 h.2) (by decide)
  exact ⟨hne rfl, hne rfl, hlower, hne rfl, hne rfl, hne rfl⟩

theorem readFraction_append {t : Text} (ht : ∀ b ∈ t, Text.isDigit b = true) (r : Text) :
    ∀ f : Fraction, readFraction .decimal f (t ++ r) =
      readFraction .decimal { f with
        value := f.value * 10 ^ t.length + Text.digitsValue t
        count := f.count + t.length
        places := if f.pointed then f.places + t.length else f.places } r := by
  induction t with
  | nil =>
    intro f
    simp [Text.digitsValue]
  | cons b t ih =>
    intro f
    obtain ⟨h₁, h₂, -⟩ := digit_reading (ht b (by simp))
    have hd : Radix.decimal.digit? b = some (b.toNat - 0x30) := if_pos (ht b (by simp))
    rw [List.cons_append, readFraction, if_neg (by simpa using h₁), if_neg (by simpa using h₂), hd]
    dsimp only
    rw [ih fun x hx => ht x (by simp [hx])]
    congr 2
    · rw [Text.digitsValue_cons, List.length_cons, pow_succ]
      change (f.value * 10 + (b.toNat - 0x30)) * 10 ^ t.length + _ = _
      ring
    · dsimp only
      rw [List.length_cons]
      omega
    · dsimp only
      split
      · rw [List.length_cons]
        omega
      · rfl

theorem nearest?_zero (negative : Bool) (den : Nat) :
    Binary.nearest? negative 0 den = some (Binary.toFloat negative 0 Binary.minExponent) := by
  simp [Binary.nearest?]

/-- Digits, and what is neither a digit nor an underscore nor a point. -/
theorem readFraction_stop {t : Text} (ht : t = [] ∨ ∃ r, t = 0x65 :: r) (f : Fraction) :
    readFraction .decimal f t = (f, t) := by
  obtain rfl | ⟨r, rfl⟩ := ht
  · rfl
  · rfl

/-- A text without underscores has none in the wrong place. -/
theorem underscoresFit_of_none {t : Text} : ∀ {s : Before}, s ≠ .underscore → (∀ b ∈ t, b ≠ 0x5f) →
    underscoresFit Text.isDigit s t = true := by
  induction t with
  | nil =>
    intro s hs _
    simpa [underscoresFit] using hs
  | cons b t ih =>
    intro s hs h
    obtain ⟨hb, ht⟩ := List.forall_mem_cons.1 h
    rw [underscoresFit]
    split
    · exact ih nofun ht
    · rw [if_neg (by simpa using hb), Bool.and_eq_true]
      exact ⟨by simpa using hs, ih nofun ht⟩

/-- The digits of an exponent that is not too great. -/
theorem readExponentDigits_digits {ds : Text} (hds : ∀ b ∈ ds, Text.isDigit b = true) :
    ∀ e, e * 10 ^ ds.length + Text.digitsValue ds < 10000 →
      readExponentDigits e ds = some (e * 10 ^ ds.length + Text.digitsValue ds) := by
  induction ds with
  | nil =>
    intro e _
    simp [readExponentDigits, Text.digitsValue]
  | cons b ds ih =>
    intro e he
    obtain ⟨hb, hds⟩ := List.forall_mem_cons.1 hds
    have hvalue : e * 10 ^ (b :: ds).length + Text.digitsValue (b :: ds) =
        (10 * e + (b.toNat - 0x30)) * 10 ^ ds.length + Text.digitsValue ds := by
      rw [Text.digitsValue_cons, List.length_cons, pow_succ]
      ring
    have hlt : e < 10000 := by
      have hpow : 0 < 10 ^ (b :: ds).length := by positivity
      have := Nat.le_mul_of_pos_right e hpow
      omega
    rw [hvalue] at he ⊢
    rw [readExponentDigits, if_neg (by simpa using (digit_reading hb).1), if_pos hb, if_pos hlt]
    exact ih hds _ he

end Number

/-! ### The parts of a number text -/

/-- The parts of a number text. -/
structure Numeral where
  /-- Whether there is a minus sign. -/
  negative : Bool := false
  /-- The digits before the point. -/
  whole : Text
  /-- The digits after the point, which is there only if there are any. -/
  places : Text := []
  /-- The exponent, if there is one: whether it is negative, and its digits. -/
  exponent : Option (Bool × Text) := none

namespace Numeral

/-- The text of what comes after the digits before the point. -/
def fraction (places : Text) : Text := if places = [] then [] else 0x2e :: places

/-- The text of an exponent, which always has a sign. -/
def mark : Option (Bool × Text) → Text
  | none => []
  | some (negative, ds) => 0x65 :: (if negative then 0x2d else 0x2b) :: ds

/-- The value of an exponent. -/
def power : Option (Bool × Text) → Int
  | none => 0
  | some (negative, ds) => if negative then -(Text.digitsValue ds : Int) else Text.digitsValue ds

/-- The text after the sign. -/
def unsigned (p : Numeral) : Text := p.whole ++ (fraction p.places ++ mark p.exponent)

/-- The text. -/
def text (p : Numeral) : Text := if p.negative then 0x2d :: p.unsigned else p.unsigned

/-- The digits before and after the point, read as a natural number. -/
def digits (p : Numeral) : Nat := Text.digitsValue (p.whole ++ p.places)

/-- The power of ten of the last digit. -/
def scale (p : Numeral) : Int := power p.exponent - p.places.length

/-- The number that the text after the sign stands for. -/
def value (p : Numeral) : ℚ := p.digits * 10 ^ p.scale

/-- Whether the parts are digits, with at least one before the point, and the exponent has at least one
digit and is not too great. -/
structure Proper (p : Numeral) : Prop where
  /-- There are digits before the point. -/
  whole_ne : p.whole ≠ []
  /-- They are digits. -/
  whole : ∀ b ∈ p.whole, Text.isDigit b = true
  /-- So are those after the point. -/
  places : ∀ b ∈ p.places, Text.isDigit b = true
  /-- So are those of the exponent. -/
  exponent : ∀ negative ds, p.exponent = some (negative, ds) →
    ds ≠ [] ∧ (∀ b ∈ ds, Text.isDigit b = true) ∧ Text.digitsValue ds < 10000

variable {p : Numeral}

/-! ### Reading -/

theorem mark_stops (e : Option (Bool × Text)) : mark e = [] ∨ ∃ r, mark e = 0x65 :: r := by
  cases e with
  | none => exact .inl rfl
  | some e => exact .inr ⟨_, rfl⟩

/-- The fraction that is read. -/
theorem readFraction_unsigned (h : p.Proper) : ∃ pointed, Number.readFraction .decimal {} p.unsigned =
    (⟨p.digits, p.whole.length + p.places.length, p.places.length, pointed⟩, mark p.exponent) := by
  have hstop := mark_stops p.exponent
  rw [unsigned, Number.readFraction_append h.whole, digits, Text.digitsValue_append]
  by_cases hnil : p.places = []
  · refine ⟨false, ?_⟩
    rw [hnil, fraction, if_pos rfl, List.nil_append, Number.readFraction_stop hstop]
    simp [Text.digitsValue]
  · refine ⟨true, ?_⟩
    rw [fraction, if_neg hnil, List.cons_append, Number.readFraction, if_neg (by decide),
      if_pos (by decide)]
    simp only [Bool.false_eq_true, if_false]
    rw [Number.readFraction_append h.places, Number.readFraction_stop hstop]
    simp

/-- The exponent that is read. -/
theorem readExponent_mark (negative : Bool) {ds : Text} (hne : ds ≠ [])
    (hds : ∀ b ∈ ds, Text.isDigit b = true) (hlt : Text.digitsValue ds < 10000) :
    Number.readExponent ((if negative then 0x2d else 0x2b) :: ds) =
      some (power (some (negative, ds))) := by
  have hdigits := Number.readExponentDigits_digits hds 0 (by simpa using hlt)
  rw [Nat.zero_mul, Nat.zero_add] at hdigits
  obtain ⟨b, r, rfl⟩ := List.exists_cons_of_ne_nil hne
  have hb : Text.isDigit b = true := hds b List.mem_cons_self
  cases negative <;> simp [Number.readExponent, hb, hdigits, power]

/-- The bytes after the sign. -/
theorem mem_unsigned (h : p.Proper) {b : UInt8} (hb : b ∈ p.unsigned) :
    Text.isDigit b = true ∨ b = 0x2e ∨ b = 0x65 ∨ b = 0x2b ∨ b = 0x2d := by
  rw [unsigned, List.mem_append, List.mem_append] at hb
  rcases hb with hb | hb | hb
  · exact .inl (h.whole b hb)
  · rw [fraction] at hb
    split at hb
    · cases hb
    · rcases List.mem_cons.1 hb with rfl | hb
      · exact .inr (.inl rfl)
      · exact .inl (h.places b hb)
  · cases he : p.exponent with
    | none =>
      rw [he] at hb
      cases hb
    | some e =>
      obtain ⟨negative, ds⟩ := e
      rw [he, mark] at hb
      rcases List.mem_cons.1 hb with rfl | hb
      · simp
      rcases List.mem_cons.1 hb with rfl | hb
      · cases negative <;> simp
      · exact .inl ((h.exponent negative ds he).2.1 b hb)

/-- What is after the sign starts with a digit. -/
theorem unsigned_start (h : p.Proper) : ∃ b r, p.unsigned = b :: r ∧ Text.isDigit b = true := by
  obtain ⟨b, w, hw⟩ := List.exists_cons_of_ne_nil h.whole_ne
  refine ⟨b, w ++ (fraction p.places ++ mark p.exponent), ?_, h.whole b (hw ▸ List.mem_cons_self)⟩
  rw [unsigned, hw]
  rfl

/-- What is after the sign is read as the number nearest to the fraction that it stands for. -/
theorem readDecimal_unsigned (h : p.Proper) (negative : Bool) : Number.readDecimal negative p.unsigned =
    Binary.nearest? negative (p.digits * 10 ^ p.scale.toNat) (10 ^ (-p.scale).toNat) := by
  obtain ⟨pointed, hfraction⟩ := readFraction_unsigned h
  have hfit : Number.underscoresFit Text.isDigit .start p.unsigned = true := by
    refine Number.underscoresFit_of_none (by decide) fun b hb => ?_
    rcases mem_unsigned h hb with hb | rfl | rfl | rfl | rfl
    · exact (Number.digit_reading hb).1
    all_goals decide
  have hcount : ¬(p.whole.length + p.places.length == 0) = true := by
    have := List.length_pos_iff.2 h.whole_ne
    simp only [beq_iff_eq]
    omega
  have hscaled : (if (p.digits == 0) = true then Binary.nearest? negative 0 1
      else Binary.nearest? negative (p.digits * Nat.pow 10 p.scale.toNat)
        (Nat.pow 10 (-p.scale).toNat)) =
      Binary.nearest? negative (p.digits * 10 ^ p.scale.toNat) (10 ^ (-p.scale).toNat) := by
    split
    · next hzero => rw [beq_iff_eq.1 hzero, Nat.zero_mul, Number.nearest?_zero, Number.nearest?_zero]
    · rfl
  rw [scale] at hscaled ⊢
  rw [Number.readDecimal, if_pos hfit, Number.readUnsigned, hfraction]
  dsimp only
  rw [if_neg hcount]
  cases he : p.exponent with
  | none =>
    rw [he] at hscaled
    exact hscaled
  | some e =>
    obtain ⟨hne, hds, hlt⟩ := h.exponent e.1 e.2 he
    have hexponent := readExponent_mark e.1 hne hds hlt
    rw [he] at hscaled
    exact (congrArg (Option.bind · _) hexponent).trans hscaled

/-- A number text is read as the number nearest to the fraction that it stands for. -/
theorem read?_text (h : p.Proper) : Number.read? p.text =
    Binary.nearest? p.negative (p.digits * 10 ^ p.scale.toNat) (10 ^ (-p.scale).toNat) := by
  obtain ⟨b, r, hstart, hb⟩ := unsigned_start h
  obtain ⟨-, -, hlower, hplus, hminus, -⟩ := Number.digit_reading hb
  have hsign : ∃ signed, Number.splitSign p.text = (signed, p.negative, p.unsigned) := by
    rw [text]
    cases p.negative with
    | true => exact ⟨true, rfl⟩
    | false =>
      refine ⟨false, ?_⟩
      rw [if_neg Bool.false_ne_true, hstart, Number.splitSign]
      · exact fun _ h => hplus (List.cons.inj h).1
      · exact fun _ h => hminus (List.cons.inj h).1
  have hname (w : Text) (hw : w.head?.any Text.isDigit = false) :
      Text.lowerAscii p.unsigned ≠ w := by
    rintro rfl
    rw [Text.lowerAscii, hstart, List.map_cons, hlower] at hw
    simp [hb] at hw
  have hdecimal := readDecimal_unsigned h p.negative
  obtain ⟨signed, hsign⟩ := hsign
  rw [Number.read?, hsign]
  dsimp only
  have hinf : ¬(decide (Text.lowerAscii p.unsigned = Text.ofString "inf") ||
      decide (Text.lowerAscii p.unsigned = Text.ofString "infinity")) = true := by
    rw [Bool.or_eq_true, decide_eq_true_eq, decide_eq_true_eq]
    exact not_or.2 ⟨hname _ rfl, hname _ rfl⟩
  rw [if_neg hinf, if_neg (hname _ rfl)]
  split
  · next x d r' heq =>
    have hx : Text.lowerByte x ≠ 0x78 := by
      rcases mem_unsigned h (b := x) (by rw [heq]; simp) with h | rfl | rfl | rfl | rfl
      · obtain ⟨-, -, hl, -, -, hne⟩ := Number.digit_reading h
        rw [hl]
        exact hne
      all_goals decide
    rw [if_neg (by simpa using hx)]
    exact hdecimal
  · exact hdecimal

theorem value_eq_div (p : Numeral) :
    p.value = ((p.digits * 10 ^ p.scale.toNat : Nat) : ℚ) / ((10 ^ (-p.scale).toNat : Nat) : ℚ) := by
  rw [value, Binary.zpow_eq_div 10 p.scale]
  push_cast
  exact mul_div_assoc' _ _ _

/-- A number text that stands for a fraction in the interval of a number is read as the number. -/
theorem read?_of_reads (h : p.Proper) {m : Nat} {q : Int} (hm : m ≠ 0) (hc : Binary.IsCanonical m q)
    (hreads : Decimal.Reads m q p.value) :
    Number.read? p.text = some (Binary.toFloat p.negative m q) := by
  rw [value_eq_div] at hreads
  rw [read?_text h]
  exact Binary.nearest?_of_reads p.negative hm hc (by positivity) hreads

theorem digits_eq_zero (h : p.value = 0) : p.digits = 0 := by
  rw [value, mul_eq_zero] at h
  exact_mod_cast h.resolve_right (by positivity)

/-- A number text without digits other than zero is read as zero. -/
theorem read?_of_zero (h : p.Proper) (hzero : p.digits = 0) :
    Number.read? p.text = some (Binary.toFloat p.negative 0 Binary.minExponent) := by
  rw [read?_text h, hzero, Nat.zero_mul, Number.nearest?_zero]

end Numeral

end ScriptLang
