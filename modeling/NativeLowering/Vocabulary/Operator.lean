/-!
# Operators

Binary and unary operators with their spellings. An operator is written out with the spelling it
was read with, so the tables here are the whole lowering of operators. Two unary operators share
their spelling with a binary one; a spelling alone is looked up among the binary operators.
-/

set_option autoImplicit false

namespace NativeLowering.Vocabulary

/-- An operator between two operands. -/
inductive BinaryOp where
  | add | sub | mul | div | rem | pow
  | eq | notEq | strictEq | strictNotEq | lt | ltEq | gt | gtEq
  | and | or | bitAnd | bitOr | bitXor | shl | shr | ushr
  | assign | addAssign | subAssign | mulAssign | divAssign | remAssign
  | shlAssign | shrAssign | bitAndAssign | bitOrAssign | bitXorAssign
  deriving DecidableEq

namespace BinaryOp

/-- Every binary operator, in table order. -/
def all : List BinaryOp :=
  [.add, .sub, .mul, .div, .rem, .pow, .eq, .notEq, .strictEq, .strictNotEq, .lt, .ltEq, .gt,
   .gtEq, .and, .or, .bitAnd, .bitOr, .bitXor, .shl, .shr, .ushr, .assign, .addAssign,
   .subAssign, .mulAssign, .divAssign, .remAssign, .shlAssign, .shrAssign, .bitAndAssign,
   .bitOrAssign, .bitXorAssign]

/-- How the operator is written. -/
def spelling : BinaryOp → String
  | .add => "+"
  | .sub => "-"
  | .mul => "*"
  | .div => "/"
  | .rem => "%"
  | .pow => "**"
  | .eq => "=="
  | .notEq => "!="
  | .strictEq => "==="
  | .strictNotEq => "!=="
  | .lt => "<"
  | .ltEq => "<="
  | .gt => ">"
  | .gtEq => ">="
  | .and => "&&"
  | .or => "||"
  | .bitAnd => "&"
  | .bitOr => "|"
  | .bitXor => "^"
  | .shl => "<<"
  | .shr => ">>"
  | .ushr => ">>>"
  | .assign => "="
  | .addAssign => "+="
  | .subAssign => "-="
  | .mulAssign => "*="
  | .divAssign => "/="
  | .remAssign => "%="
  | .shlAssign => "<<="
  | .shrAssign => ">>="
  | .bitAndAssign => "&="
  | .bitOrAssign => "|="
  | .bitXorAssign => "^="

/-- The binary operator a spelling stands for. -/
def ofString? (spelling : String) : Option BinaryOp :=
  all.find? fun op => op.spelling == spelling

/-- No two binary operators share a spelling. -/
theorem ofString?_spelling (op : BinaryOp) : ofString? op.spelling = some op := by
  cases op <;> rfl

/-- Whether the operator assigns to its left operand, which is then also its value. -/
def isAssignment : BinaryOp → Bool
  | .assign | .addAssign | .subAssign | .mulAssign | .divAssign | .remAssign | .shlAssign
  | .shrAssign | .bitAndAssign | .bitOrAssign | .bitXorAssign => true
  | _ => false

/-- Whether the value of the operator is a truth value, whatever its operands are. -/
def isPredicate : BinaryOp → Bool
  | .eq | .notEq | .strictEq | .strictNotEq | .lt | .ltEq | .gt | .gtEq | .and | .or => true
  | _ => false

end BinaryOp

/-- An operator in front of one operand. -/
inductive UnaryOp where
  | neg | plus | not | bitNot
  deriving DecidableEq

namespace UnaryOp

/-- Every unary operator, in table order. -/
def all : List UnaryOp := [.neg, .plus, .not, .bitNot]

/-- How the operator is written. -/
def spelling : UnaryOp → String
  | .neg => "-"
  | .plus => "+"
  | .not => "!"
  | .bitNot => "~"

/-- The unary operator a spelling stands for. -/
def ofString? (spelling : String) : Option UnaryOp :=
  all.find? fun op => op.spelling == spelling

/-- No two unary operators share a spelling. -/
theorem ofString?_spelling (op : UnaryOp) : ofString? op.spelling = some op := by
  cases op <;> rfl

end UnaryOp

/-- An operator of either kind. -/
inductive Operator where
  | binary (op : BinaryOp)
  | unary (op : UnaryOp)
  deriving DecidableEq

namespace Operator

/-- The whole operator table: the binary operators, then the unary ones. -/
def table : List Operator := BinaryOp.all.map .binary ++ UnaryOp.all.map .unary

/-- How the operator is written. -/
def spelling : Operator → String
  | .binary op => op.spelling
  | .unary op => op.spelling

/-- Whether the operator assigns to its left operand. -/
def isAssignment : Operator → Bool
  | .binary op => op.isAssignment
  | .unary _ => false

end Operator

end NativeLowering.Vocabulary
