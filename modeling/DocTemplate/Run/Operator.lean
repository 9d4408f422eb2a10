import DocTemplate.Run.Basic
import DocTemplate.Value.Equality

namespace DocTemplate

def Number.ArithmeticFault.operandCause : Number.ArithmeticFault → OperandCause
  | noDecimal => .notDecimals
  | zeroDivisor op => .zeroDivisor op

namespace Value

def arithmetic (op : ArithOp) (a b : Number) : Except RunCause Value :=
  match a.arithmetic op b with
  | .ok n => .ok (number n)
  | .error f => .error (.operand f.operandCause)

def compare (left right : Value) : Except RunCause Ordering :=
  match left.compare? right with
  | some o => .ok o
  | none =>
    if left.isOrderable && !right.isNull then
      .error (.operand (.incomparable left.typeName right.typeName))
    else .error (.operand .unordered)

def negate : Value → Except RunCause Value
  | number n => .ok (number n.neg)
  | _ => .error (.operand .notNegatable)

end Value

namespace Run

def concat (left right : Value) : Run Value :=
  observe fun s => do
    let l ← s.text? left
    let r ← s.text? right
    return .str (l ++ r)

/-- Arithmetic on numbers. `+` also joins a text with any value but a decimal, which asks for
numbers on both sides unless the other side is null. -/
def arithmetic (op : ArithOp) (left right : Value) : Run Value :=
  match left, right with
  | .number a, .number b => ofExcept (Value.arithmetic op a b)
  | _, _ =>
    if (left.isDecimal && !right.isNull) || (right.isDecimal && !left.isNull) then
      raise (.operand .notDecimals)
    else if op = .add ∧ (left.str?.isSome ∨ right.str?.isSome) then concat left right
    else raise (.operand (.notNumbers op))

def equals (left right : Value) : Run Bool := observe fun s => s.equals? left right

def binary (op : BinaryOp) (left right : Value) : Run Value :=
  match op with
  | .arith op => arithmetic op left right
  | .order op => do return .bool (op.holds (← ofExcept (left.compare right)))
  | .eq => do return .bool (← equals left right)
  | .ne => do return .bool (!(← equals left right))

end Run

end DocTemplate
