import ScriptLang.Text.Utf8

/-!
# White space

White space is the Unicode property of that name: the ASCII blanks, next line, the no-break space
and the spaces of the general punctuation and CJK blocks.
-/

namespace ScriptLang.Text

/-- Whether a code point is white space. -/
def isBlank (code : Nat) : Bool :=
  (0x09 ≤ code && code ≤ 0x0d) || code == 0x20 || code == 0x85 || code == 0xa0 ||
    code == 0x1680 || (0x2000 ≤ code && code ≤ 0x200a) || code == 0x2028 || code == 0x2029 ||
    code == 0x202f || code == 0x205f || code == 0x3000

/-- The text without the white space at its ends. -/
def trim (t : Text) : Text :=
  let kept := (runes t).dropWhile fun r => isBlank r.code
  (kept.reverse.dropWhile fun r => isBlank r.code).reverse.flatMap Rune.bytes

/-- Whether a text is white space only. -/
def isAllBlank (t : Text) : Bool := (trim t).isEmpty

/-- The text without the bytes of `set` at its right end. -/
def trimRight (set : List UInt8) (t : Text) : Text :=
  (t.reverse.dropWhile set.contains).reverse

end ScriptLang.Text
