import ScriptLang.Proofs.Text.Utf8
import ScriptLang.Proofs.Token.Places
import ScriptLang.Proofs.Token.Sequel

/-!
# String literals are scanned back

The literal that is written for a text is scanned as one token, which takes up the whole literal, and nothing
is behind it (`Token.scan_quote`). The value of the token is the text with every byte that belongs to no
character replaced by U+FFFD, so it is the text itself if and only if the text is well-formed.

The literal stands on one line whatever the text is, as its line breaks are escaped.
-/

namespace ScriptLang

open Text (newline)

/-! ### The line of a literal -/

/-- The closing quote is looked for on the same line. -/
theorem Token.newline_not_mem_of_untilQuote? {r body : Text} (h : untilQuote? r = some body) :
    newline ∉ body := by
  fun_induction untilQuote? r generalizing body with
  | case1 | case3 | case5 | case6 => cases h
  | case2 =>
    cases h
    exact List.not_mem_nil
  | case4 b r hb ih =>
    obtain ⟨body, hbody, rfl⟩ := Option.map_eq_some_iff.1 h
    have hslash : newline ≠ 0x5c := by decide
    simp only [List.mem_cons, not_or]
    exact ⟨hslash, Ne.symm hb, ih hbody⟩
  | case7 b r _ _ _ hb ih =>
    obtain ⟨body, hbody, rfl⟩ := Option.map_eq_some_iff.1 h
    simp only [List.mem_cons, not_or]
    exact ⟨Ne.symm hb, ih hbody⟩

theorem Print.newline_not_mem_quote (t : Text) : newline ∉ quote t := by
  have hcontent := Token.newline_not_mem_of_untilQuote? (untilQuote?_content t [])
  have hmark : newline ≠ 0x22 := by decide
  rw [quote_eq]
  simp only [List.mem_cons, List.mem_append, List.not_mem_nil, or_false, not_or]
  exact ⟨hmark, hcontent, hmark⟩

/-- The point after a text without line breaks. -/
theorem Cursor.past_of_not_mem {t : Text} (h : newline ∉ t) (c : Cursor) :
    c.past t = { c with offset := c.offset + t.length } := by
  induction t generalizing c with
  | nil => rfl
  | cons b r ih =>
    simp only [List.mem_cons, not_or] at h
    have hafter : c.after b = { c with offset := c.offset + 1 } := if_neg (Ne.symm h.1)
    show (c.after b).past r = _
    rw [ih h.2, hafter, List.length_cons]
    simp only [Cursor.mk.injEq, and_true]
    omega

/-! ### Scanning a literal -/

namespace Token

variable {file : Text}

/-- A text that is one token is scanned as that token and the end behind it. -/
theorem scanFrom_one {c : Cursor} {b : UInt8} {r v : Text} {k : Kind}
    (h : piece b r = .ok (.token (b :: r).length k v)) :
    scanFrom file 0 c (b :: r) = .ok [⟨k, v, c.span file (b :: r).length⟩,
      ⟨.eof, [], (c.past (b :: r)).span file 0⟩] := by
  have hend := Spelled.scanFrom_append file r (c.after b) []
  rw [List.append_nil] at hend
  rw [scanFrom_token h, List.length_cons, Nat.add_sub_cancel, hend]
  rfl

theorem scanFrom_quote (t : Text) (c : Cursor) : scanFrom file 0 c (Print.quote t) =
    .ok [⟨.string, t.mend, c.span file (Print.quote t).length⟩,
      ⟨.eof, [], (c.past (Print.quote t)).span file 0⟩] := by
  have hpiece := piece_quote t (r := []) nofun
  rw [quote_eq] at hpiece ⊢
  exact scanFrom_one hpiece

/-- The literal of a text is one token from its first to its last byte, and the end of the text comes next.
The value of the token is the text with the bytes that belong to no character replaced; it is the text if and
only if that is made up of characters. -/
theorem scan_quote (t file : Text) : ∃ value,
    scan (Print.quote t) file = .ok [
      ⟨.string, value, ⟨file, 1, 1, 0, (Print.quote t).length⟩⟩,
      ⟨.eof, [], ⟨file, 1, (Print.quote t).length + 1, (Print.quote t).length,
        (Print.quote t).length⟩⟩] ∧
    value = (t.mapIdx t.pieceAt).flatten ∧
    (value = t ↔ ∃ cs : List Char, t = cs.flatMap String.utf8EncodeChar) := by
  refine ⟨t.mend, ?_, t.mend_eq_flatten, ?_⟩
  · rw [scan, scanFrom_quote, Cursor.past_of_not_mem (Print.newline_not_mem_quote t)]
    simp [Cursor.span]
  · rw [Text.mend_eq_iff, Text.isUtf8_iff]

/-- A quote, a zero byte, a character of two bytes, a line break and a byte that belongs to no character. -/
example : scan (Print.quote [0x22, 0x00, 0xc3, 0xa9, 0x0a, 0xff]) "main" = .ok [
    ⟨.string, [0x22, 0x00, 0xc3, 0xa9, 0x0a, 0xef, 0xbf, 0xbd], ⟨"main", 1, 1, 0, 13⟩⟩,
    ⟨.eof, [], ⟨"main", 1, 14, 13, 13⟩⟩] := rfl

end Token

end ScriptLang
