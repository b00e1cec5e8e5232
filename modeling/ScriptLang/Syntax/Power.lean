import ScriptLang.Token.Basic

/-!
# Binding powers

A token that continues an expression has a left and a right power. An expression that is read with
a least power goes on as long as the left power of the next token reaches it, and the right operand
is read with the right power as its least. So equal powers on both sides group to the right, and a
right power one above the left groups to the left.
-/

namespace ScriptLang

/-- The power on each side of a token. -/
structure Power where
  /-- How strongly the token holds what stands on its left. -/
  left : Nat
  /-- The least power of what stands on its right. -/
  right : Nat
deriving DecidableEq, Repr

/-- The power of operators that group to the left. -/
def Power.leftward (p : Nat) : Power := ⟨p, p + 1⟩

/-- The power of operators that group to the right. -/
def Power.rightward (p : Nat) : Power := ⟨p, p⟩

/-- The power of an operator before its operand. -/
def Power.unary : Nat := 60

/-- Whether a kind is an assignment. -/
def Kind.isAssignment : Kind → Bool
  | .assign | .plusAssign | .minusAssign | .starAssign | .slashAssign | .percentAssign
  | .nilAssign => true
  | _ => false

/-- The power of the tokens that continue an expression. -/
def Kind.power? : Kind → Option Power
  | .assign | .plusAssign | .minusAssign | .starAssign | .slashAssign | .percentAssign
  | .nilAssign => some (.rightward 10)
  | .orOr | .nilCoalesce => some (.leftward 20)
  | .andAnd => some (.leftward 22)
  | .dotDot => some (.leftward 24)
  | .pipe => some (.leftward 26)
  | .caret => some (.leftward 27)
  | .amp => some (.leftward 28)
  | .eq | .notEq | .lt | .ltEq | .gt | .gtEq => some (.leftward 30)
  | .plus | .minus => some (.leftward 40)
  | .star | .slash | .percent => some (.leftward 50)
  | .starStar => some (.rightward 55)
  | .lparen | .lbracket | .dot | .plusPlus | .minusMinus => some (.leftward 70)
  | _ => none

end ScriptLang
