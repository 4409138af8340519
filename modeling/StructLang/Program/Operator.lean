import StructLang.Token

/-!
# Operators

The operators that tokens stand for.
-/

namespace StructLang

/-- An operator with one operand. -/
inductive UnaryOperator where
  | plus
  | minus
  | not
  | increment
  | decrement
  deriving DecidableEq

/-- The operator that a kind of token stands for before an operand. -/
def UnaryOperator.ofKind? : TokenKind → Option UnaryOperator
  | .plus => some plus
  | .minus => some minus
  | .not => some not
  | .plusPlus => some increment
  | .minusMinus => some decrement
  | _ => none

/-- An operator with two operands. -/
inductive BinaryOperator where
  | add | sub | mul | div | mod
  | lt | le | gt | ge | eq | ne
  | and | or
  deriving DecidableEq

/-- The operator that a kind of token stands for between two operands. -/
def BinaryOperator.ofKind? : TokenKind → Option BinaryOperator
  | .plus => some add
  | .minus => some sub
  | .star => some mul
  | .slash => some div
  | .percent => some mod
  | .lt => some lt
  | .le => some le
  | .gt => some gt
  | .ge => some ge
  | .eqEq => some eq
  | .ne => some ne
  | .andAnd => some and
  | .orOr => some or
  | _ => none

end StructLang
