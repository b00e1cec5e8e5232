import ScriptLang.Syntax.Error

/-!
# Reading tokens

The parser reads a list of tokens from the left and never passes its last token. A failure is about
the token that stands next.
-/

namespace ScriptLang

/-- A list of tokens with a point in it. -/
structure Stream where
  /-- The token that stands next. -/
  current : Token
  /-- The tokens after it. -/
  rest : List Token
  /-- The number of tokens passed. -/
  index : Nat := 0
  /-- The token that was passed last. -/
  last : Token := default

namespace Stream

/-- The stream of a list of tokens. A list that does not end with the token for the end of the text
gets one. -/
def ofTokens (tokens : List Token) : Stream :=
  let closed : List Token :=
    if (tokens.getLast?.map Token.kind) = some .eof then tokens else tokens ++ [⟨.eof, [], {}⟩]
  match closed with
  | t :: ts => { current := t, rest := ts }
  | [] => { current := ⟨.eof, [], {}⟩, rest := [] }

/-- The stream after the token that stands next; the last token is not passed. -/
def next (s : Stream) : Stream :=
  match s.rest with
  | [] => { s with last := s.current }
  | t :: ts => { current := t, rest := ts, index := s.index + 1, last := s.current }

/-- The kind of the token after the one that stands next. -/
def second (s : Stream) : Kind :=
  match s.rest with
  | t :: _ => t.kind
  | [] => .eof

/-- A bound on the depth of the tree and the length of its lists that no list of tokens exceeds. -/
def depth (s : Stream) : Nat := 4 * (s.rest.length + 2)

end Stream

/-- A reader of tokens. -/
abbrev Parser := StateT Stream (Except SyntaxError)

namespace Parser

variable {α : Type}

/-- Fail at the token that stands next. -/
def fail (fault : Token → ParseFault) : Parser α := fun s =>
  .error (.parse (fault s.current) s.current s.index)

/-- The token that stands next. -/
def peek : Parser Token := fun s => .ok (s.current, s)

/-- Whether the token that stands next has the given kind. -/
def sees (kind : Kind) : Parser Bool := fun s => .ok (s.current.kind == kind, s)

/-- Pass the token that stands next. -/
def advance : Parser Token := fun s => .ok (s.current, s.next)

/-- Pass the token that stands next if it has the given kind; say whether it did. -/
def skip (kind : Kind) : Parser Bool := do
  if ← sees kind then
    let _ ← advance
    return true
  else return false

/-- Pass a token of the given kind. -/
def expect (kind : Kind) : Parser Token := do
  if ← sees kind then advance else fail (.expected kind)

/-- Pass a name. -/
def expectName : Parser Text := do
  let t ← peek
  if t.kind.isKeyword then fail fun t => .reserved t.value
  else if t.kind == .ident then
    let _ ← advance
    return t.value
  else fail .expectedName

/-- The span from `first` to the token that was passed last. -/
def spanFrom (first : Span) : Parser Span := fun s => .ok (first.upTo s.last.span, s)

/-- The items before a token of kind `close`, separated by commas. A comma may follow the last. -/
def commaList (close : Kind) (item : Parser α) : Nat → Parser (List α)
  | 0 => fail fun _ => .tooDeep
  | n + 1 => do
    if ← sees close then return []
    let x ← item
    if ← skip .comma then
      let xs ← commaList close item n
      return x :: xs
    else return [x]

end Parser

end ScriptLang
