import DocTemplate.Number.Shortest

namespace DocTemplate

inductive Number where
  | byte (n : Int8)
  | short (n : Int16)
  | int (n : Int32)
  | long (n : Int64)
  | float (x : Single)
  | double (x : Double)
  | decimal (d : Decimal)
  deriving DecidableEq, Repr, Inhabited

inductive NumberType where
  | byte
  | short
  | int
  | long
  | float
  | double
  | decimal
  deriving DecidableEq, Repr, Inhabited

def NumberType.name : NumberType → String
  | byte => "byte"
  | short => "short"
  | int => "int"
  | long => "long"
  | float => "float"
  | double => "double"
  | decimal => "decimal"

/-- How templates show floating-point numbers: positionally from a thousandth up to ten million. -/
def shownFloat : FloatLayout := ⟨-3, 6, 'E', true, "Infinity"⟩

/-- Where arithmetic takes place, lowest first. -/
inductive Tier where
  | int
  | long
  | float
  | double
  | decimal
  deriving DecidableEq, Repr, Inhabited

namespace Tier

def level : Tier → Nat
  | int => 0
  | long => 1
  | float => 2
  | double => 3
  | decimal => 4

def join (s t : Tier) : Tier := if s.level < t.level then t else s

end Tier

namespace Number

def tier : Number → Tier
  | byte _ | short _ | int _ => .int
  | long _ => .long
  | float _ => .float
  | double _ => .double
  | decimal _ => .decimal

def type : Number → NumberType
  | byte _ => .byte
  | short _ => .short
  | int _ => .int
  | long _ => .long
  | float _ => .float
  | double _ => .double
  | decimal _ => .decimal

def toText : Number → String
  | byte n => toString n.toInt
  | short n => toString n.toInt
  | int n => toString n.toInt
  | long n => toString n.toInt
  | float x => shownFloat.toText x
  | double x => shownFloat.toText x
  | decimal d => d.toText

def minLong : Int := -(Int.pow 2 63)

def maxLong : Int := Int.pow 2 63 - 1

/-- The most digits of an integer within the bounds. -/
def longDigits : Int := 19

/-- The integer part. Floating-point numbers stop at the bounds of 64 bits; a decimal outside of
them has none. -/
def toInt? : Number → Option Int
  | byte n => some n.toInt
  | short n => some n.toInt
  | int n => some n.toInt
  | long n => some n.toInt
  | float x => some (x.toIntWithin minLong maxLong)
  | double x => some (x.toIntWithin minLong maxLong)
  | decimal d =>
    if longDigits < d.magnitude then none
    else if minLong ≤ d.truncate ∧ d.truncate ≤ maxLong then some d.truncate
    else none

def toLong (n : Number) : Int64 := Int64.ofInt (n.toInt?.getD 0)

/-- The integer of a number on the lowest tier. -/
def toInt32 : Number → Int32
  | byte n => Int32.ofInt n.toInt
  | short n => Int32.ofInt n.toInt
  | int n => n
  | _ => 0

def toDouble : Number → Double
  | float x => x.convert .double
  | double x => x
  | decimal d => .ofDecimal .double d
  | byte n => .ofInt .double n.toInt
  | short n => .ofInt .double n.toInt
  | int n => .ofInt .double n.toInt
  | long n => .ofInt .double n.toInt

def toSingle : Number → Single
  | float x => x
  | long n => .ofInt .single n.toInt
  | n => .ofInt .single n.toInt32.toInt

/-- The number as a decimal. A floating-point number is the decimal that its shortest digits
write, and has none when it is not finite. -/
def toDecimal? : Number → Option Decimal
  | byte n => some (.ofInt n.toInt)
  | short n => some (.ofInt n.toInt)
  | int n => some (.ofInt n.toInt)
  | long n => some (.ofInt n.toInt)
  | float x => x.toDecimal?
  | double x => x.toDecimal?
  | decimal d => some d

def isDecimal (n : Number) : Bool := n.tier == .decimal

def isFloating (n : Number) : Bool := n.tier == .float || n.tier == .double

/-- Every zero, also a negative one. -/
def isZero : Number → Bool
  | byte n => n == 0
  | short n => n == 0
  | int n => n == 0
  | long n => n == 0
  | float x => x.isZero
  | double x => x.isZero
  | decimal d => d.isZero

/-- The number in another type. Integers keep their low bits; only what is not finite is no
decimal. -/
def convert? (target : NumberType) (n : Number) : Option Number :=
  match target with
  | .byte => some (byte n.toLong.toInt8)
  | .short => some (short n.toLong.toInt16)
  | .int => some (int n.toLong.toInt32)
  | .long => some (long n.toLong)
  | .float => some (float (n.toDouble.convert .single))
  | .double => some (double n.toDouble)
  | .decimal => n.toDecimal?.map decimal

end Number

end DocTemplate
