import DocTemplate.Number.Basic
import DocTemplate.Number.Operation

namespace DocTemplate

namespace ArithOp

def onInt32 : ArithOp → Int32 → Int32 → Int32
  | add, a, b => a + b
  | sub, a, b => a - b
  | mul, a, b => a * b
  | div, a, b => a / b
  | rem, a, b => a % b

def onInt64 : ArithOp → Int64 → Int64 → Int64
  | add, a, b => a + b
  | sub, a, b => a - b
  | mul, a, b => a * b
  | div, a, b => a / b
  | rem, a, b => a % b

def onBinary {f : Binary.Format} : ArithOp → Binary f → Binary f → Binary f
  | add, a, b => a.add b
  | sub, a, b => a.sub b
  | mul, a, b => a.mul b
  | div, a, b => a.div b
  | rem, a, b => a.rem b

def onDecimal : ArithOp → Decimal → Decimal → Decimal
  | add, a, b => a.add b
  | sub, a, b => a.sub b
  | mul, a, b => a.mul b
  | div, a, b => a.div b
  | rem, a, b => a.rem b

end ArithOp

namespace Number

inductive ArithmeticFault where
  /-- The other operand is a decimal, and this one is not finite. -/
  | noDecimal
  | zeroDivisor (op : ArithOp)
  deriving DecidableEq, Repr

def fixedArithmetic (tier : Tier) (op : ArithOp) (a b : Number) : Number :=
  match tier with
  | .int => int (op.onInt32 a.toInt32 b.toInt32)
  | .long => long (op.onInt64 a.toLong b.toLong)
  | .float => float (op.onBinary a.toSingle b.toSingle)
  | _ => double (op.onBinary a.toDouble b.toDouble)

def arithmetic (op : ArithOp) (a b : Number) : Except ArithmeticFault Number :=
  match a.tier.join b.tier with
  | .decimal =>
    match a.toDecimal?, b.toDecimal? with
    | some x, some y =>
      if op.divides && y.isZero then .error (.zeroDivisor op)
      else .ok (decimal (op.onDecimal x y))
    | _, _ => .error .noDecimal
  | tier =>
    if op.divides && b.isZero then .error (.zeroDivisor op)
    else .ok (fixedArithmetic tier op a b)

/-- Narrow integers widen; the least integer of a width is its own negative. -/
def neg : Number → Number
  | byte n => int (-Int32.ofInt n.toInt)
  | short n => int (-Int32.ofInt n.toInt)
  | int n => int (-n)
  | long n => long (-n)
  | float x => float x.neg
  | double x => double x.neg
  | decimal d => decimal d.neg

/-- Numbers are equal as decimals. Those that are none are compared as floating-point numbers. -/
def equals (a b : Number) : Bool :=
  match a.toDecimal?, b.toDecimal? with
  | some x, some y => x.equals y
  | _, _ => a.toDouble.equals b.toDouble

/-- The order on floating-point numbers is total, and negative zero lies below zero in it. -/
def compareFixed (a b : Number) : Ordering :=
  if a.isFloating || b.isFloating || a.isDecimal || b.isDecimal then
    a.toDouble.totalOrder b.toDouble
  else Ord.compare a.toLong.toInt b.toLong.toInt

def compare (a b : Number) : Ordering :=
  match a.isDecimal || b.isDecimal, a.toDecimal?, b.toDecimal? with
  | true, some x, some y => x.compare y
  | _, _, _ => a.compareFixed b

end Number

end DocTemplate
