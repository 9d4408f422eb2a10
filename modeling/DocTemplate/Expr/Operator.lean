import DocTemplate.Number.Operation
import DocTemplate.Token.Basic

namespace DocTemplate

inductive BinaryOp where
  | arith (op : ArithOp)
  | order (op : OrderOp)
  | eq
  | ne
  deriving DecidableEq, Repr, Inhabited

namespace BinaryOp

def all : List BinaryOp :=
  [arith .add, arith .sub, arith .mul, arith .div, arith .rem, eq, ne,
    order .lt, order .le, order .gt, order .ge]

def symbol : BinaryOp → String
  | arith op => op.symbol
  | order op => op.symbol
  | eq => "=="
  | ne => "!="

def ofSymbol? (s : String) : Option BinaryOp := all.find? (·.symbol == s)

theorem mem_all (op : BinaryOp) : op ∈ all := by
  cases op with
  | arith op => cases op <;> decide
  | order op => cases op <;> decide
  | eq => decide
  | ne => decide

def isArithmetic : BinaryOp → Bool
  | arith _ => true
  | _ => false

def isOrdering : BinaryOp → Bool
  | order _ => true
  | _ => false

end BinaryOp

inductive Operator where
  /-- The left operand becomes the first argument of the right one. -/
  | pipe
  /-- The right operand counts when the left one is null. -/
  | coalesce
  | or
  | and
  | binary (op : BinaryOp)
  deriving DecidableEq, Repr, Inhabited

namespace Operator

/-- How tightly an operator binds; all operators group to the left. -/
def level : Operator → Nat
  | pipe => 0
  | coalesce => 1
  | or => 2
  | and => 3
  | binary .eq | binary .ne => 4
  | binary (.order _) => 5
  | binary (.arith .add) | binary (.arith .sub) => 6
  | binary (.arith _) => 7

def ofToken? : TokenKind → Option Operator
  | .pipe => some pipe
  | .coalesce => some coalesce
  | .keyword .or => some or
  | .keyword .and => some and
  | .equalEqual => some (binary .eq)
  | .bangEqual => some (binary .ne)
  | .less => some (binary (.order .lt))
  | .lessEqual => some (binary (.order .le))
  | .greater => some (binary (.order .gt))
  | .greaterEqual => some (binary (.order .ge))
  | .plus => some (binary (.arith .add))
  | .minus => some (binary (.arith .sub))
  | .star => some (binary (.arith .mul))
  | .slash => some (binary (.arith .div))
  | .percent => some (binary (.arith .rem))
  | _ => none

def symbol : Operator → String
  | pipe => "|"
  | coalesce => "??"
  | or => "or"
  | and => "and"
  | binary op => op.symbol

end Operator

inductive UnaryOp where
  | neg
  | not
  deriving DecidableEq, Repr, Inhabited

def UnaryOp.ofToken? : TokenKind → Option UnaryOp
  | .minus => some neg
  | .bang | .keyword .not => some not
  | _ => none

end DocTemplate
