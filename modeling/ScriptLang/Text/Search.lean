import ScriptLang.Text.Utf8

/-!
# Searching in texts

Occurrences are taken from the left and do not overlap. The empty pattern occurs before every
character and at the end.
-/

namespace ScriptLang.Text

/-- Whether `part` occurs in a text. -/
def contains (part : Text) : Text → Bool
  | [] => part.isEmpty
  | b :: r => part.isPrefixOf (b :: r) || contains part r

/-- The pieces between the occurrences of `sep`. The first argument counts the bytes of an
occurrence that are still to be passed over, the second holds the current piece in reverse. -/
def splitFrom (sep : Text) : Nat → Text → Text → List Text
  | _, piece, [] => [piece.reverse]
  | n + 1, piece, _ :: r => splitFrom sep n piece r
  | 0, piece, b :: r =>
    if sep.isPrefixOf (b :: r) then piece.reverse :: splitFrom sep (sep.length - 1) [] r
    else splitFrom sep 0 (b :: piece) r

/-- The pieces between the occurrences of `sep`; an empty `sep` splits into characters. -/
def splitOn (sep t : Text) : List Text :=
  if sep.isEmpty then (runes t).map Rune.bytes else splitFrom sep 0 [] t

/-- The text with every occurrence of `old` replaced by `new`. -/
def replaceAll (old new t : Text) : Text :=
  if old.isEmpty then new ++ (runes t).flatMap fun r => r.bytes ++ new
  else join new (splitFrom old 0 [] t)

/-- The text up to the first occurrence of `sep`, and what follows that occurrence. -/
def cut? (sep : Text) : Text → Option (Text × Text)
  | [] => if sep.isEmpty then some ([], []) else none
  | b :: r =>
    if sep.isPrefixOf (b :: r) then some ([], (b :: r).drop sep.length)
    else (cut? sep r).map fun (before, after) => (b :: before, after)

end ScriptLang.Text
