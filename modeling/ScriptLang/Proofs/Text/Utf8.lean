import Mathlib.Algebra.Order.BigOperators.Group.List
import Mathlib.Algebra.Order.Group.Nat
import ScriptLang.Proofs.Text.Quote

/-!
# Well-formed texts

A text is well-formed UTF-8 if none of its characters is malformed. The bytes of a well-formed
character are the UTF-8 form of its code point, and a malformed one is a single byte, which is mended to
three. So mending leaves a text as it is just when it is well-formed (`Text.mend_eq_iff`).

The forms are those that characters of type `Char` have in strings, so a text is well-formed just when it is
made up of such forms (`Text.isUtf8_iff`).

`Text.mend` reads a text from the left, one character after another. What comes out can be said of every
byte on its own: a byte that belongs to the form of a character which stands somewhere in the text is kept,
and every other byte is replaced by the form of U+FFFD (`Text.mend_eq_flatten`). Reading from the left misses
no character. Only the first byte of a form can start a form, so that no character reaches across a point to
which reading has come (`Text.Seam`).
-/

namespace ScriptLang.Text

/-! ### The UTF-8 form of a code point -/

theorem toUInt8_eq {n : Nat} {b : UInt8} (h : n = b.toNat) : n.toUInt8 = b := by
  have := b.toNat_lt
  apply UInt8.toNat_inj.1
  rw [toNat_toUInt8 (by omega), h]

theorem encode_one {n : Nat} (h : n < 0x80) : encode n = [n.toUInt8] := by
  rw [encode, if_pos h]

theorem encode_two {n : Nat} (h : 0x80 ≤ n) (h' : n < 0x800) :
    encode n = [(0xc0 + n / 64).toUInt8, (0x80 + n % 64).toUInt8] := by
  simp only [encode]
  rw [if_neg (by omega), if_pos h']

theorem encode_three {n : Nat} (h : 0x800 ≤ n) (h' : n < 0x10000)
    (hs : n < 0xd800 ∨ 0xdfff < n) : encode n =
      [(0xe0 + n / 4096).toUInt8, (0x80 + n / 64 % 64).toUInt8, (0x80 + n % 64).toUInt8] := by
  have hgood : ¬((decide (0xd800 ≤ n) && decide (n ≤ 0xdfff)) || decide (n > 0x10ffff)) = true := by
    simp only [Bool.or_eq_true, Bool.and_eq_true, decide_eq_true_eq]
    omega
  simp only [encode]
  rw [if_neg (by omega), if_neg (by omega), if_neg hgood, if_pos h']

theorem encode_four {n : Nat} (h : 0x10000 ≤ n) (h' : n ≤ 0x10ffff) : encode n =
    [(0xf0 + n / 262144).toUInt8, (0x80 + n / 4096 % 64).toUInt8, (0x80 + n / 64 % 64).toUInt8,
      (0x80 + n % 64).toUInt8] := by
  have hgood : ¬((decide (0xd800 ≤ n) && decide (n ≤ 0xdfff)) || decide (n > 0x10ffff)) = true := by
    simp only [Bool.or_eq_true, Bool.and_eq_true, decide_eq_true_eq]
    omega
  simp only [encode]
  rw [if_neg (by omega), if_neg (by omega), if_neg hgood, if_neg (by omega)]

theorem encode_replacement : encode replacement = [0xef, 0xbf, 0xbd] := by decide

/-! ### Well-formed sequences -/

variable {a b c d : UInt8}

theorem isTail_iff : isTail b = true ↔ 0x80 ≤ b.toNat ∧ b.toNat ≤ 0xbf := by
  simp only [isTail, Bool.and_eq_true, decide_eq_true_eq, UInt8.le_iff_toNat_le]
  rfl

theorem encode_ofPair (h : isPair a b = true) : encode (Rune.ofPair a b).code = [a, b] := by
  simp only [isPair, Bool.and_eq_true, decide_eq_true_eq, UInt8.le_iff_toNat_le, isTail_iff,
    UInt8.reduceToNat] at h
  have hcode : (Rune.ofPair a b).code = a.toNat % 32 * 64 + b.toNat % 64 := rfl
  rw [encode_two (by omega) (by omega), toUInt8_eq (b := a) (by omega),
    toUInt8_eq (b := b) (by omega)]

theorem encode_ofTriple (h : isTriple a b c = true) :
    encode (Rune.ofTriple a b c).code = [a, b, c] := by
  simp only [isTriple, Bool.and_eq_true, decide_eq_true_eq, UInt8.le_iff_toNat_le, isTail_iff,
    Bool.not_eq_true', Bool.and_eq_false_iff, beq_eq_false_iff_ne, decide_eq_false_iff_not,
    UInt8.not_lt, ne_eq, ← UInt8.toNat_inj, gt_iff_lt, UInt8.reduceToNat] at h
  have hcode : (Rune.ofTriple a b c).code =
      (a.toNat % 16 * 64 + b.toNat % 64) * 64 + c.toNat % 64 := rfl
  rw [encode_three (by omega) (by omega) (by omega), toUInt8_eq (b := a) (by omega),
    toUInt8_eq (b := b) (by omega), toUInt8_eq (b := c) (by omega)]

theorem encode_ofQuad (h : isQuad a b c d = true) :
    encode (Rune.ofQuad a b c d).code = [a, b, c, d] := by
  simp only [isQuad, Bool.and_eq_true, decide_eq_true_eq, UInt8.le_iff_toNat_le, isTail_iff,
    Bool.not_eq_true', Bool.and_eq_false_iff, beq_eq_false_iff_ne, decide_eq_false_iff_not,
    UInt8.not_lt, ne_eq, ← UInt8.toNat_inj, gt_iff_lt, UInt8.reduceToNat] at h
  have hcode : (Rune.ofQuad a b c d).code =
      ((a.toNat % 8 * 64 + b.toNat % 64) * 64 + c.toNat % 64) * 64 + d.toNat % 64 := rfl
  rw [encode_four (by omega) (by omega), toUInt8_eq (b := a) (by omega),
    toUInt8_eq (b := b) (by omega), toUInt8_eq (b := c) (by omega), toUInt8_eq (b := d) (by omega)]

/-! ### The characters of a text -/

/-- A well-formed character at the start of a text, in its UTF-8 form. -/
def Rune.Leads (x : Rune) (a : UInt8) (r : Text) : Prop :=
  ∃ u t, r = u ++ t ∧ x.bytes = a :: u ∧ encode x.code = x.bytes ∧ x.wellFormed = true

/-- The first character is malformed, or it stands at the start of the text. -/
theorem firstRune_leads (a : UInt8) (r : Text) :
    firstRune a r = .malformed a ∨ (firstRune a r).Leads a r := by
  have pair (b : UInt8) (t : Text) (h : isPair a b = true) : (Rune.ofPair a b).Leads a (b :: t) :=
    ⟨[b], t, rfl, rfl, encode_ofPair h, rfl⟩
  have triple (b c : UInt8) (t : Text) (h : isTriple a b c = true) :
      (Rune.ofTriple a b c).Leads a (b :: c :: t) := ⟨[b, c], t, rfl, rfl, encode_ofTriple h, rfl⟩
  unfold firstRune
  split
  · next ha =>
    have hone := encode_one (UInt8.lt_iff_toNat_lt.1 ha)
    rw [toUInt8_eq rfl] at hone
    exact .inr ⟨[], r, rfl, rfl, hone, rfl⟩
  · match r with
    | b :: c :: d :: t =>
      dsimp only
      split
      · next h => exact .inr (pair b _ h)
      split
      · next h => exact .inr (triple b c _ h)
      split
      · next h => exact .inr ⟨[b, c, d], t, rfl, rfl, encode_ofQuad h, rfl⟩
      · exact .inl rfl
    | [b, c] =>
      dsimp only
      split
      · next h => exact .inr (pair b _ h)
      split
      · next h => exact .inr (triple b c _ h)
      · exact .inl rfl
    | [b] =>
      dsimp only
      split
      · next h => exact .inr (pair b _ h)
      · exact .inl rfl
    | [] => exact .inl rfl

/-- What holds of the first character of every text holds of all characters. -/
theorem forall_mem_runesAfter {p : Rune → Prop} (h : ∀ a r, p (firstRune a r)) (t : Text) {skip : Nat} :
    ∀ r ∈ runesAfter skip t, p r := by
  induction t generalizing skip with
  | nil => cases skip <;> exact fun r hr => absurd hr List.not_mem_nil
  | cons a t ih =>
    cases skip with
    | succ skip => exact ih
    | zero =>
      rw [runesAfter]
      exact List.forall_mem_cons.2 ⟨h a t, ih⟩

/-- The bytes of the well-formed characters of a text are their UTF-8 form. -/
theorem encode_of_mem_runes {t : Text} {skip : Nat} : ∀ r ∈ runesAfter skip t,
    r.wellFormed = true → encode r.code = r.bytes := by
  refine forall_mem_runesAfter (fun a r => ?_) t
  intro hr
  obtain hm | ⟨_, _, -, -, hcode, -⟩ := firstRune_leads a r
  · rw [hm] at hr
    cases hr
  · exact hcode

/-- The other characters are single bytes. -/
theorem malformed_of_mem_runes {t : Text} {skip : Nat} : ∀ r ∈ runesAfter skip t,
    r.wellFormed = false → ∃ b, r = .malformed b := by
  refine forall_mem_runesAfter (fun a r => ?_) t
  intro hr
  obtain hm | ⟨_, _, -, -, -, hwell⟩ := firstRune_leads a r
  · exact ⟨a, hm⟩
  · rw [hwell] at hr
    cases hr

/-- A character of a text stands there in its UTF-8 form just when it is well-formed: the form of the
others has three bytes. -/
theorem encode_eq_bytes_iff {t : Text} {skip : Nat} : ∀ r ∈ runesAfter skip t,
    (encode r.code = r.bytes ↔ r.wellFormed = true) ∧ r.bytes.length ≤ (encode r.code).length := by
  intro r hr
  cases hwell : r.wellFormed with
  | true =>
    have hcode := encode_of_mem_runes r hr hwell
    exact ⟨iff_of_true hcode rfl, (congrArg List.length hcode).ge⟩
  | false =>
    obtain ⟨b, rfl⟩ := malformed_of_mem_runes r hr hwell
    have hform : encode (Rune.malformed b).code = [0xef, 0xbf, 0xbd] := encode_replacement
    rw [hform]
    exact ⟨iff_of_false nofun nofun, Nat.le_add_left 1 2⟩

theorem flatMap_bytes_runesAfter (t : Text) {skip : Nat} (hskip : skip ≤ t.length) :
    (runesAfter skip t).flatMap Rune.bytes = t.drop skip := by
  induction t generalizing skip with
  | nil => cases skip <;> rfl
  | cons a r ih =>
    cases skip with
    | succ skip => exact ih (Nat.le_of_succ_le_succ hskip)
    | zero =>
      obtain ⟨u, t, rfl, hbytes⟩ : ∃ u t, r = u ++ t ∧ (firstRune a r).bytes = a :: u := by
        rcases firstRune_leads a r with hm | ⟨u, t, hr, hbytes, -⟩
        · exact ⟨[], r, rfl, by rw [hm]; rfl⟩
        · exact ⟨u, t, hr, hbytes⟩
      rw [runesAfter, List.flatMap_cons, hbytes, List.length_cons, Nat.add_sub_cancel,
        ih (by simp), List.drop_left]
      rfl

/-- The bytes of the characters put together are the text. -/
theorem flatMap_bytes (t : Text) : (runes t).flatMap Rune.bytes = t :=
  flatMap_bytes_runesAfter t (Nat.zero_le _)

/-- Whether a text is well-formed UTF-8. -/
def isUtf8 (t : Text) : Bool := (runes t).all Rune.wellFormed

/-- A well-formed text has nothing to mend. -/
theorem mend_of_isUtf8 {t : Text} (h : t.isUtf8 = true) : mend t = t := by
  have hall := List.all_eq_true.1 h
  calc mend t = (runes t).flatMap Rune.bytes :=
        List.flatMap_congr fun r hr => encode_of_mem_runes r hr (hall r hr)
    _ = t := flatMap_bytes t

/-- Pieces that are as long as others at least, and no longer when they are put together, are the same
pieces. -/
theorem forall_eq_of_flatMap {α : Type} {f g : α → Text} {l : List α}
    (hle : ∀ x ∈ l, (g x).length ≤ (f x).length) (h : l.flatMap f = l.flatMap g) :
    ∀ x ∈ l, f x = g x := by
  induction l with
  | nil => exact fun x hx => absurd hx List.not_mem_nil
  | cons x l ih =>
    obtain ⟨hx, hl⟩ := List.forall_mem_cons.1 hle
    have hrest : (l.flatMap g).length ≤ (l.flatMap f).length := by
      rw [List.length_flatMap, List.length_flatMap]
      exact List.sum_le_sum hl
    rw [List.flatMap_cons, List.flatMap_cons] at h
    have hlength := congrArg List.length h
    rw [List.length_append, List.length_append] at hlength
    obtain ⟨heq, htail⟩ := List.append_inj h (by omega)
    exact List.forall_mem_cons.2 ⟨heq, ih hl htail⟩

/-- A text that mending leaves as it is is well-formed. -/
theorem mend_eq_iff {t : Text} : mend t = t ↔ t.isUtf8 = true := by
  constructor
  · intro h
    have hpieces : (runes t).flatMap (fun r => encode r.code) = (runes t).flatMap Rune.bytes :=
      h.trans (flatMap_bytes t).symm
    have heq := forall_eq_of_flatMap (fun r hr => (encode_eq_bytes_iff r hr).2) hpieces
    exact List.all_eq_true.2 fun r hr => (encode_eq_bytes_iff r hr).1.1 (heq r hr)
  · exact mend_of_isUtf8

end ScriptLang.Text

namespace ScriptLang.Text

open String (utf8EncodeChar)

variable {t u v r : Text} {a b : UInt8} {c : Char}

/-! ### The forms of characters -/

theorem encode_toNat (c : Char) : encode c.toNat = utf8EncodeChar c := by
  have hvalid : c.toNat < 0xd800 ∨ 0xdfff < c.toNat ∧ c.toNat < 0x110000 := c.valid
  have hval : c.val.toNat = c.toNat := rfl
  unfold utf8EncodeChar
  dsimp only
  rw [hval]
  generalize c.toNat = n at hvalid
  have hbyte {m k : Nat} (h : m = k) : m.toUInt8 = UInt8.ofNat k := by rw [h, Nat.toUInt8_eq]
  split
  · rw [encode_one (by omega), hbyte rfl]
  split
  · rw [encode_two (by omega) (by omega), hbyte (by omega : _ = n / 64 % 32 + 0xc0),
      hbyte (by omega : _ = n % 64 + 0x80)]
  split
  · rw [encode_three (by omega) (by omega) (by omega), hbyte (by omega : _ = n / 4096 % 16 + 0xe0),
      hbyte (by omega : _ = n / 64 % 64 + 0x80), hbyte (by omega : _ = n % 64 + 0x80)]
  · rw [encode_four (by omega) (by omega), hbyte (by omega : _ = n / 262144 % 8 + 0xf0),
      hbyte (by omega : _ = n / 4096 % 64 + 0x80), hbyte (by omega : _ = n / 64 % 64 + 0x80),
      hbyte (by omega : _ = n % 64 + 0x80)]

theorem encode_replacement_char : encode replacement = utf8EncodeChar '\ufffd' := encode_toNat '\ufffd'

/-- What is written for a code point is the form of some character. -/
theorem exists_encode_eq (n : Nat) : ∃ c, encode n = utf8EncodeChar c := by
  by_cases hvalid : n.isValidChar
  · exact ⟨Char.ofNatAux n hvalid, encode_toNat (Char.ofNatAux n hvalid)⟩
  · refine ⟨'\ufffd', ?_⟩
    have hbad : n < 0xd800 ∨ 0xdfff < n ∧ n < 0x110000 → False := hvalid
    have hlost : ((decide (0xd800 ≤ n) && decide (n ≤ 0xdfff)) || decide (n > 0x10ffff)) = true := by
      simp only [Bool.or_eq_true, Bool.and_eq_true, decide_eq_true_eq]
      omega
    rw [← encode_replacement_char, encode_replacement]
    simp only [encode]
    rw [if_neg (by omega), if_neg (by omega), if_pos hlost]

/-! ### Reading a form -/

theorem firstRune_pair (h : isPair a b = true) (v : Text) : firstRune a (b :: v) = .ofPair a b := by
  have hlead : ¬a < 0x80 := by
    simp only [isPair, Bool.and_eq_true, decide_eq_true_eq, UInt8.le_iff_toNat_le] at h
    rw [UInt8.lt_iff_toNat_lt]
    have := h.1.1
    simp only [UInt8.reduceToNat] at this ⊢
    omega
  unfold firstRune
  rw [if_neg hlead]
  match v with
  | [] => exact if_pos h
  | [_] => exact if_pos h
  | _ :: _ :: _ => exact if_pos h

theorem isPair_eq_false (h : 0xe0 ≤ a) (b : UInt8) : isPair a b = false := by
  have hgreat : ¬a ≤ 0xdf := by
    rw [UInt8.le_iff_toNat_le] at h ⊢
    simp only [UInt8.reduceToNat] at h ⊢
    omega
  rw [isPair, decide_eq_false hgreat, Bool.and_false, Bool.false_and]

theorem firstRune_triple {b' : UInt8} (h : isTriple a b b' = true) (v : Text) :
    firstRune a (b :: b' :: v) = .ofTriple a b b' := by
  have hlow : 0xe0 ≤ a := by
    simp only [isTriple, Bool.and_eq_true, decide_eq_true_eq] at h
    exact h.1.1.1.1.1
  have hlead : ¬a < 0x80 := by
    rw [UInt8.le_iff_toNat_le] at hlow
    rw [UInt8.lt_iff_toNat_lt]
    simp only [UInt8.reduceToNat] at hlow ⊢
    omega
  have hpair : ¬isPair a b = true := by simp [isPair_eq_false hlow]
  unfold firstRune
  rw [if_neg hlead]
  match v with
  | [] => exact (if_neg hpair).trans (if_pos h)
  | _ :: _ => exact (if_neg hpair).trans (if_pos h)

theorem firstRune_quad {b' b'' : UInt8} (h : isQuad a b b' b'' = true) (v : Text) :
    firstRune a (b :: b' :: b'' :: v) = .ofQuad a b b' b'' := by
  have hlow : 0xf0 ≤ a := by
    simp only [isQuad, Bool.and_eq_true, decide_eq_true_eq] at h
    exact h.1.1.1.1.1.1
  rw [UInt8.le_iff_toNat_le] at hlow
  simp only [UInt8.reduceToNat] at hlow
  have hlead : ¬a < 0x80 := by
    rw [UInt8.lt_iff_toNat_lt]
    simp only [UInt8.reduceToNat]
    omega
  have hpair : ¬isPair a b = true := by
    rw [isPair_eq_false]
    · exact Bool.false_ne_true
    · rw [UInt8.le_iff_toNat_le]
      simp only [UInt8.reduceToNat]
      omega
  have htriple : ¬isTriple a b b' = true := by
    simp only [isTriple, Bool.and_eq_true, decide_eq_true_eq, UInt8.le_iff_toNat_le, UInt8.reduceToNat]
    omega
  unfold firstRune
  rw [if_neg hlead]
  exact (if_neg hpair).trans ((if_neg htriple).trans (if_pos h))

/-- A form at the start of a text is read as one character. -/
theorem firstRune_of_eq (h : a :: r = utf8EncodeChar c ++ v) :
    (firstRune a r).bytes = utf8EncodeChar c ∧ (firstRune a r).wellFormed = true := by
  have hvalid : c.toNat < 0xd800 ∨ 0xdfff < c.toNat ∧ c.toNat < 0x110000 := c.valid
  rw [← encode_toNat] at h ⊢
  generalize c.toNat = n at h hvalid
  have hnat {m : Nat} (hm : m < 256) : m.toUInt8.toNat = m := toNat_toUInt8 hm
  obtain h₁ | h₂ | h₃ | h₄ : n < 0x80 ∨ (0x80 ≤ n ∧ n < 0x800) ∨ (0x800 ≤ n ∧ n < 0x10000) ∨
      0x10000 ≤ n := by omega
  · rw [encode_one h₁] at h ⊢
    obtain ⟨rfl, rfl⟩ := List.cons.inj h
    have hlead : n.toUInt8 < 0x80 := by
      rw [UInt8.lt_iff_toNat_lt, hnat (by omega)]
      exact h₁
    unfold firstRune
    rw [if_pos hlead]
    exact ⟨rfl, rfl⟩
  · rw [encode_two h₂.1 h₂.2] at h ⊢
    simp only [List.cons_append, List.nil_append] at h
    obtain ⟨rfl, rfl⟩ := List.cons.inj h
    have hpair : isPair (0xc0 + n / 64).toUInt8 (0x80 + n % 64).toUInt8 = true := by
      simp only [isPair, Bool.and_eq_true, decide_eq_true_eq, UInt8.le_iff_toNat_le, isTail_iff,
        UInt8.reduceToNat]
      rw [hnat (by omega), hnat (by omega)]
      omega
    rw [firstRune_pair hpair]
    exact ⟨rfl, rfl⟩
  · rw [encode_three h₃.1 h₃.2 (by omega)] at h ⊢
    simp only [List.cons_append, List.nil_append] at h
    obtain ⟨rfl, rfl⟩ := List.cons.inj h
    have htriple : isTriple (0xe0 + n / 4096).toUInt8 (0x80 + n / 64 % 64).toUInt8
        (0x80 + n % 64).toUInt8 = true := by
      simp only [isTriple, Bool.and_eq_true, decide_eq_true_eq, UInt8.le_iff_toNat_le, isTail_iff,
        Bool.not_eq_true', Bool.and_eq_false_iff, beq_eq_false_iff_ne, decide_eq_false_iff_not,
        UInt8.not_lt, ne_eq, ← UInt8.toNat_inj, gt_iff_lt, UInt8.reduceToNat]
      rw [hnat (by omega), hnat (by omega), hnat (by omega)]
      omega
    rw [firstRune_triple htriple]
    exact ⟨rfl, rfl⟩
  · rw [encode_four h₄ (by omega)] at h ⊢
    simp only [List.cons_append, List.nil_append] at h
    obtain ⟨rfl, rfl⟩ := List.cons.inj h
    have hquad : isQuad (0xf0 + n / 262144).toUInt8 (0x80 + n / 4096 % 64).toUInt8
        (0x80 + n / 64 % 64).toUInt8 (0x80 + n % 64).toUInt8 = true := by
      simp only [isQuad, Bool.and_eq_true, decide_eq_true_eq, UInt8.le_iff_toNat_le, isTail_iff,
        Bool.not_eq_true', Bool.and_eq_false_iff, beq_eq_false_iff_ne, decide_eq_false_iff_not,
        UInt8.not_lt, ne_eq, ← UInt8.toNat_inj, gt_iff_lt, UInt8.reduceToNat]
      rw [hnat (by omega), hnat (by omega), hnat (by omega), hnat (by omega)]
      omega
    rw [firstRune_quad hquad]
    exact ⟨rfl, rfl⟩

/-- A first character is malformed if no form stands at the start of the text, and otherwise it is the
character of that form. -/
theorem firstRune_cases (a : UInt8) (r : Text) :
    firstRune a r = .malformed a ∧ (∀ c v, a :: r ≠ utf8EncodeChar c ++ v) ∨
      ∃ c v, a :: r = utf8EncodeChar c ++ v ∧ (firstRune a r).bytes = utf8EncodeChar c ∧
        (firstRune a r).wellFormed = true := by
  obtain hm | ⟨u, v, rfl, hbytes, hcode, hwell⟩ := firstRune_leads a r
  · refine .inl ⟨hm, ?_⟩
    intro c v h
    obtain ⟨-, hwell⟩ := firstRune_of_eq h
    rw [hm] at hwell
    cases hwell
  · obtain ⟨c, hc⟩ := exists_encode_eq (firstRune a (u ++ v)).code
    have hform : utf8EncodeChar c = a :: u := by rw [← hc, hcode, hbytes]
    refine .inr ⟨c, v, ?_, ?_, hwell⟩
    · rw [hform, List.cons_append]
    · rw [hbytes, hform]

/-- A text is empty, or it starts with a byte at which no character starts, or with the form of one. -/
@[elab_as_elim]
theorem text_induction {motive : Text → Prop} (nil : motive [])
    (byte : ∀ a r, (∀ c v, a :: r ≠ utf8EncodeChar c ++ v) → firstRune a r = .malformed a → motive r →
      motive (a :: r))
    (form : ∀ c v, motive v → motive (utf8EncodeChar c ++ v)) (t : Text) : motive t := by
  induction hn : t.length using Nat.strong_induction_on generalizing t with
  | h n ih =>
    subst hn
    cases t with
    | nil => exact nil
    | cons a r =>
      obtain ⟨hread, hno⟩ | ⟨c, v, heq, -, -⟩ := firstRune_cases a r
      · exact byte a r hno hread (ih r.length (Nat.lt_succ_self _) r rfl)
      · have hpos : 0 < (utf8EncodeChar c).length :=
          List.length_pos_iff.2 String.utf8EncodeChar_ne_nil
        have hlt : v.length < (a :: r).length := by
          rw [heq, List.length_append]
          omega
        rw [heq]
        exact form c v (ih v.length hlt v rfl)

/-! ### The characters of a text -/

theorem runesAfter_eq (k : Nat) (t : Text) : runesAfter k t = runes (t.drop k) := by
  induction k generalizing t with
  | zero => rfl
  | succ k ih =>
    cases t with
    | nil => rfl
    | cons a r => exact ih r

theorem runes_malformed (h : firstRune a r = .malformed a) : runes (a :: r) = .malformed a :: runes r := by
  have hcons : runes (a :: r) = firstRune a r :: runesAfter ((firstRune a r).bytes.length - 1) r := rfl
  rw [hcons, h]
  rfl

/-- The first character of a text that starts with a form. -/
theorem runes_form (c : Char) (v : Text) : ∃ x, runes (utf8EncodeChar c ++ v) = x :: runes v ∧
    x.bytes = utf8EncodeChar c ∧ x.wellFormed = true := by
  obtain ⟨a, u, hform⟩ := List.exists_cons_of_ne_nil (String.utf8EncodeChar_ne_nil (c := c))
  have hstart : a :: (u ++ v) = utf8EncodeChar c ++ v := by rw [hform, List.cons_append]
  obtain ⟨hbytes, hwell⟩ := firstRune_of_eq hstart
  refine ⟨firstRune a (u ++ v), ?_, hbytes, hwell⟩
  have hcons : runes (a :: (u ++ v)) =
      firstRune a (u ++ v) :: runesAfter ((firstRune a (u ++ v)).bytes.length - 1) (u ++ v) := rfl
  rw [← hstart, hcons, hbytes, hform, List.length_cons, Nat.add_sub_cancel, runesAfter_eq, List.drop_left]

/-- A text is well-formed if it is made up of forms of characters. -/
theorem isUtf8_iff : t.isUtf8 = true ↔ ∃ cs : List Char, t = cs.flatMap utf8EncodeChar := by
  constructor
  · intro h
    have hall := List.all_eq_true.1 h
    have hforms : ∀ l : List Rune, (∀ x ∈ l, ∃ c, x.bytes = utf8EncodeChar c) →
        ∃ cs : List Char, l.flatMap Rune.bytes = cs.flatMap utf8EncodeChar := by
      intro l
      induction l with
      | nil => exact fun _ => ⟨[], rfl⟩
      | cons x l ih =>
        intro hl
        obtain ⟨⟨c, hc⟩, hl⟩ := List.forall_mem_cons.1 hl
        obtain ⟨cs, hcs⟩ := ih hl
        exact ⟨c :: cs, by rw [List.flatMap_cons, List.flatMap_cons, hc, hcs]⟩
    rw [← flatMap_bytes t]
    refine hforms _ ?_
    intro x hx
    obtain ⟨c, hc⟩ := exists_encode_eq x.code
    exact ⟨c, by rw [← hc, encode_of_mem_runes x hx (hall x hx)]⟩
  · rintro ⟨cs, rfl⟩
    induction cs with
    | nil => rfl
    | cons c cs ih =>
      obtain ⟨x, hrunes, -, hwell⟩ := runes_form c (cs.flatMap utf8EncodeChar)
      rw [isUtf8, List.flatMap_cons, hrunes, List.all_cons, hwell, Bool.true_and]
      exact ih

/-! ### Points that no character reaches across -/

/-- Whether the byte at a position belongs to the form of a character that stands in the text there. -/
def InCharacter (t : Text) (i : Nat) : Prop :=
  ∃ u c v, t = u ++ (utf8EncodeChar c ++ v) ∧ u.length ≤ i ∧ i < u.length + (utf8EncodeChar c).length

/-- How many bytes the character has that starts at a position; none if no character starts there. -/
def formLength (t : Text) (j : Nat) : Nat :=
  match t.drop j with
  | [] => 0
  | a :: r => if (firstRune a r).wellFormed then (firstRune a r).bytes.length else 0

theorem inCharacter_iff {i : Nat} : t.InCharacter i ↔ ∃ j < i + 1, i < j + t.formLength j := by
  constructor
  · rintro ⟨u, c, v, rfl, hle, hlt⟩
    refine ⟨u.length, Nat.lt_succ_of_le hle, ?_⟩
    obtain ⟨a, r, hform⟩ := List.exists_cons_of_ne_nil (String.utf8EncodeChar_ne_nil (c := c))
    have hfirst : a :: (r ++ v) = utf8EncodeChar c ++ v := by rw [hform, List.cons_append]
    obtain ⟨hbytes, hwell⟩ := firstRune_of_eq hfirst
    unfold formLength
    rw [List.drop_left, ← hfirst]
    dsimp only
    rw [if_pos hwell, hbytes]
    exact hlt
  · rintro ⟨j, hj, hlt⟩
    unfold formLength at hlt
    split at hlt
    · omega
    · next a r hdrop =>
      obtain ⟨hread, -⟩ | ⟨c, v, heq, hbytes, hwell⟩ := firstRune_cases a r
      · rw [hread] at hlt
        have : i < j := hlt
        omega
      · rw [if_pos hwell, hbytes] at hlt
        have hj' : j ≤ t.length := by
          by_contra hlong
          rw [List.drop_eq_nil_of_le (by omega)] at hdrop
          cases hdrop
        refine ⟨t.take j, c, v, ?_, ?_, ?_⟩
        · rw [← heq, ← hdrop, List.take_append_drop]
        · rw [List.length_take, Nat.min_eq_left hj']
          omega
        · rw [List.length_take, Nat.min_eq_left hj']
          exact hlt

instance (t : Text) (i : Nat) : Decidable (t.InCharacter i) := decidable_of_iff _ inCharacter_iff.symm

/-- Whether every character that starts in a first part of a text ends there. -/
def Seam (u v : Text) : Prop :=
  ∀ w c x, u ++ v = w ++ (utf8EncodeChar c ++ x) → w.length < u.length →
    w.length + (utf8EncodeChar c).length ≤ u.length

theorem Seam.nil : Seam [] v := fun _ _ _ _ h => absurd h (Nat.not_lt_zero _)

/-- The text behind a point is what is left when as much is dropped. -/
theorem eq_drop_of_append {w x : Text} (h : u ++ v = w ++ x) (hle : u.length ≤ w.length) :
    x = v.drop (w.length - u.length) := by
  have hdrop := congrArg (List.drop w.length) h
  rw [List.drop_left, List.drop_append, List.drop_eq_nil_of_le hle, List.nil_append] at hdrop
  exact hdrop.symm

/-- A character that is read starts and ends at such points: no other one starts inside of it. -/
theorem Seam.form (h : Seam u (utf8EncodeChar c ++ v)) : Seam (u ++ utf8EncodeChar c) v := by
  intro w d x heq hlt
  rw [List.append_assoc] at heq
  rw [List.length_append] at hlt ⊢
  by_cases hbefore : w.length < u.length
  · have := h w d x heq hbefore
    omega
  have hrest := eq_drop_of_append heq (by omega)
  obtain ⟨k, hk⟩ : ∃ k, w.length - u.length = k := ⟨_, rfl⟩
  rw [hk, List.drop_append_of_le_length (by omega)] at hrest
  cases k with
  | zero =>
    -- both start at the same point, so they are the same
    obtain ⟨a, r, hform⟩ := List.exists_cons_of_ne_nil (String.utf8EncodeChar_ne_nil (c := c))
    have hfirst : a :: (r ++ v) = utf8EncodeChar c ++ v := by rw [hform, List.cons_append]
    rw [List.drop_zero] at hrest
    have hsame := (firstRune_of_eq (hfirst.trans hrest.symm)).1
    rw [(firstRune_of_eq hfirst).1] at hsame
    rw [hsame]
    omega
  | succ k =>
    -- a form would start with a byte inside of another one
    have hin : k + 1 < (utf8EncodeChar c).length := by omega
    obtain ⟨a, r, hform⟩ := List.exists_cons_of_ne_nil (String.utf8EncodeChar_ne_nil (c := d))
    rw [List.drop_eq_getElem_cons hin, hform, List.cons_append, List.cons_append] at hrest
    have hbyte : a = (utf8EncodeChar c)[k + 1] := (List.cons.inj hrest).1
    have hstarts : a.IsUTF8FirstByte := by
      have hzero := UInt8.isUTF8FirstByte_getElem_zero_utf8EncodeChar (c := d)
      simpa only [hform, List.getElem_cons_zero] using hzero
    rw [hbyte, UInt8.isUTF8FirstByte_getElem_utf8EncodeChar] at hstarts
    omega

/-- A byte at which no character starts. -/
theorem Seam.byte (h : Seam u (a :: r)) (hno : ∀ c v, a :: r ≠ utf8EncodeChar c ++ v) :
    Seam (u ++ [a]) r := by
  intro w c x heq hlt
  rw [List.append_assoc] at heq
  rw [List.length_append, List.length_singleton] at hlt ⊢
  by_cases hbefore : w.length < u.length
  · have := h w c x heq hbefore
    omega
  · have hrest := eq_drop_of_append heq (by omega)
    have hzero : w.length - u.length = 0 := by omega
    rw [hzero, List.drop_zero] at hrest
    exact absurd hrest.symm (hno c x)

theorem Seam.not_inCharacter (h : Seam u (a :: r)) (hno : ∀ c v, a :: r ≠ utf8EncodeChar c ++ v) :
    ¬InCharacter (u ++ a :: r) u.length := by
  rintro ⟨w, c, x, heq, hle, hlt⟩
  obtain hbefore | hhere := hle.lt_or_eq
  · have := h w c x heq hbefore
    omega
  · obtain ⟨rfl, hrest⟩ := List.append_inj heq hhere.symm
    exact hno c x hrest

/-! ### What mending does to every byte -/

theorem mend_malformed (h : firstRune a r = .malformed a) :
    mend (a :: r) = utf8EncodeChar '\ufffd' ++ mend r := by
  unfold mend
  rw [runes_malformed h, List.flatMap_cons, ← encode_replacement_char]
  rfl

theorem mend_form (c : Char) (v : Text) : mend (utf8EncodeChar c ++ v) = utf8EncodeChar c ++ mend v := by
  obtain ⟨x, hrunes, hbytes, hwell⟩ := runes_form c v
  have hx : x ∈ runes (utf8EncodeChar c ++ v) := by
    rw [hrunes]
    exact List.mem_cons_self
  unfold mend
  rw [hrunes, List.flatMap_cons, encode_of_mem_runes x hx hwell, hbytes]

/-- What is written for a byte: the byte itself if it belongs to a character, and the form of U+FFFD if it
does not. -/
def pieceAt (t : Text) (i : Nat) (b : UInt8) : Text :=
  if t.InCharacter i then [b] else utf8EncodeChar '\ufffd'

theorem mend_of_seam (h : Seam u v) :
    mend v = (v.mapIdx fun i b => (u ++ v).pieceAt (u.length + i) b).flatten := by
  induction v using text_induction generalizing u with
  | nil => rfl
  | byte a r hno hread ih =>
    have hstray : (u ++ a :: r).pieceAt (u.length + 0) a = utf8EncodeChar '\ufffd' :=
      if_neg (h.not_inCharacter hno)
    have hbehind : (fun i b => (u ++ a :: r).pieceAt (u.length + (i + 1)) b) =
        fun i b => (u ++ [a] ++ r).pieceAt ((u ++ [a]).length + i) b := by
      funext i b
      rw [List.append_assoc, List.singleton_append, List.length_append, List.length_singleton,
        Nat.add_assoc, Nat.add_comm 1]
    rw [mend_malformed hread, ih (h.byte hno), List.mapIdx_cons, List.flatten_cons, hstray, hbehind]
  | form c v ih =>
    have hkept : (utf8EncodeChar c).mapIdx
        (fun i b => (u ++ (utf8EncodeChar c ++ v)).pieceAt (u.length + i) b) =
        (utf8EncodeChar c).map ([·]) := by
      refine List.ext_getElem (by simp) ?_
      intro i hi _
      rw [List.length_mapIdx] at hi
      rw [List.getElem_mapIdx, List.getElem_map]
      exact if_pos ⟨u, c, v, rfl, by omega, by omega⟩
    have hbytes : ((utf8EncodeChar c).map ([·])).flatten = utf8EncodeChar c := by
      rw [← List.flatMap_def, List.flatMap_singleton']
    have hbehind : (fun i b => (u ++ (utf8EncodeChar c ++ v)).pieceAt
          (u.length + (i + (utf8EncodeChar c).length)) b) =
        fun i b => (u ++ utf8EncodeChar c ++ v).pieceAt ((u ++ utf8EncodeChar c).length + i) b := by
      funext i b
      rw [List.append_assoc, List.length_append, Nat.add_assoc, Nat.add_comm i]
    rw [mend_form, ih h.form, List.mapIdx_append, List.flatten_append, hkept, hbytes, hbehind]

/-- Mending keeps the bytes that belong to characters and replaces the others. -/
theorem mend_eq_flatten (t : Text) : mend t = (t.mapIdx t.pieceAt).flatten := by
  have h := mend_of_seam (Seam.nil (v := t))
  simpa only [List.nil_append, List.length_nil, Nat.zero_add] using h

end ScriptLang.Text
