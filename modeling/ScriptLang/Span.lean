import ScriptLang.Text.Basic

/-!
# Places in a source text

A span names a stretch of a source text by byte offsets, together with the file it stands in and the
line and column of its first byte, both counted from one.
-/

namespace ScriptLang

/-- A stretch of a source text. -/
structure Span where
  /-- The name of the file. -/
  file : Text := []
  /-- The line of the first byte, from one. -/
  line : Nat := 0
  /-- The column of the first byte, from one, in bytes. -/
  col : Nat := 0
  /-- The offset of the first byte. -/
  start : Nat := 0
  /-- The offset after the last byte. -/
  stop : Nat := 0
deriving DecidableEq, Repr, Inhabited

/-- The stretch from the start of one span to the end of another. -/
def Span.upTo (first last : Span) : Span := { first with stop := last.stop }

end ScriptLang
