import ScriptLang.Token.Scan

/-!
# Syntax errors

Why a text is no program. An error of the parser is about the token at which parsing stopped. It is
*incomplete* when that token is the end of the text, so that more text could still help; so is a
string that the text leaves open.
-/

namespace ScriptLang

/-- Why parsing stopped at a token. -/
inductive ParseFault where
  /-- Another kind of token has to stand here. -/
  | expected (kind : Kind) (found : Token)
  /-- A name has to stand here. -/
  | expectedName (found : Token)
  /-- A reserved word stands where a name is declared. -/
  | reserved (word : Text)
  /-- The text has to end here. -/
  | expectedEnd (found : Token)
  /-- A property has to follow the dot. -/
  | expectedProperty (found : Token)
  /-- A key has to stand here. -/
  | expectedKey (found : Token)
  /-- A path has to follow an import of everything. -/
  | expectedFrom (found : Token)
  /-- A type has to stand here. -/
  | expectedType (found : Token)
  /-- An expression has to start here. -/
  | expectedOperand (found : Token)
  /-- A struct has to follow `new`. -/
  | expectedStruct (found : Token)
  /-- Arguments have to follow the struct after `new`. -/
  | expectedArguments (found : Token)
  /-- A number token whose value is no number. -/
  | badNumber (value : Text)
  /-- The bound on the depth of the tree was reached. -/
  | tooDeep
deriving DecidableEq, Repr

namespace ParseFault

/-- The code of a fault. -/
def code : ParseFault → Code
  | .reserved _ => .reservedIdentifier
  | .expectedType _ | .expectedOperand _ | .expectedStruct _ | .tooDeep => .expectedOperand
  | .expectedArguments _ => .invalidConstructor
  | .badNumber _ => .parseFailure
  | _ => .expectedKind

/-- The message of a fault. -/
def message : ParseFault → Text
  | .expected kind found => "expected '" ++ kind.name ++ "', found " ++ found.describe
  | .expectedName found => "expected identifier, found " ++ found.describe
  | .reserved word => "'" ++ word ++ "' is a reserved word and cannot be used as a name"
  | .expectedEnd found => "expected end of input, found " ++ found.describe
  | .expectedProperty found => "expected property name after '.', found " ++ found.describe
  | .expectedKey found => "expected object key, found " ++ found.describe
  | .expectedFrom found => "expected 'from' after 'import *', found " ++ found.describe
  | .expectedType found => "expected type, found " ++ found.describe
  | .expectedOperand found => "unexpected " ++ found.describe ++ " at start of expression"
  | .expectedStruct found => "unexpected " ++ found.describe ++ " after 'new'"
  | .expectedArguments found =>
    "'new' must be followed by a call such as new Name(args), found " ++ found.describe
  | .badNumber value => "invalid number literal '" ++ value ++ "'"
  | .tooDeep => "program is nested too deeply"

end ParseFault

/-- Why a text is no program. -/
inductive SyntaxError where
  /-- The text has no tokens; `openEnded` says whether more text could help. -/
  | scan (error : ScanError) (openEnded : Bool)
  /-- Parsing stopped at the token with the given index. -/
  | parse (fault : ParseFault) (token : Token) (index : Nat)
deriving DecidableEq, Repr

namespace SyntaxError

/-- The diagnostic of an error. -/
def diagnostic : SyntaxError → Diagnostic
  | .scan e _ => e.diagnostic
  | .parse fault token index =>
    { code := fault.code
      message := fault.message
      location := some token.span.location
      hint := "at token " ++ Text.ofNat index }

/-- The message of an error. -/
def message (e : SyntaxError) : Text := e.diagnostic.message

/-- The index of the token at which parsing stopped; a text without tokens has none. -/
def index? : SyntaxError → Option Nat
  | .scan .. => none
  | .parse _ _ index => some index

/-- Whether more text could still complete the program. -/
def incomplete : SyntaxError → Bool
  | .scan _ openEnded => openEnded
  | .parse _ token _ => token.kind == .eof

end SyntaxError

end ScriptLang
