import DocTemplate.Number.Decimal

namespace DocTemplate

namespace Binary

/-- A finite number counts units of `2 ^ -fractionBits`, in at most `precision` significant bits,
and stays below `2 ^ integerBits`. -/
structure Format where
  precision : Nat
  fractionBits : Nat
  integerBits : Nat
  deriving DecidableEq, Repr

def Format.single : Format := ⟨24, 149, 128⟩

def Format.double : Format := ⟨53, 1074, 1024⟩

def Format.one (f : Format) : Nat := Nat.pow 2 f.fractionBits

def Format.bound (f : Format) : Nat := Nat.pow 2 (f.integerBits + f.fractionBits)

end Binary

-- The sign of what is not a number shows in `totalOrder` alone.
inductive Binary (f : Binary.Format) where
  | nan (negative : Bool)
  | infinity (negative : Bool)
  | finite (negative : Bool) (units : Nat)
  deriving DecidableEq, Repr, Inhabited

abbrev Single := Binary .single

abbrev Double := Binary .double

namespace Binary

variable {f g : Format}

/-- The spacing, as a power of two of units, of the numbers about `units`. -/
def spacing (f : Format) (units : Nat) : Nat := units.log2 + 1 - f.precision

/-- The number nearest to `num / den` units, for a positive `den`. -/
def ofUnits (f : Format) (negative : Bool) (num den : Nat) : Binary f :=
  let step := Nat.pow 2 (spacing f (num / den))
  let units := roundRatio .even num (den * step) * step
  if units < f.bound then finite negative units else infinity negative

def ofSignedUnits (f : Format) (n : Int) : Binary f := ofUnits f (n < 0) n.natAbs 1

/-- What an operation without a result gives. -/
def invalid : Binary f := nan true

def isNaN : Binary f → Bool
  | nan _ => true
  | _ => false

def isFinite : Binary f → Bool
  | finite _ _ => true
  | _ => false

def isZero : Binary f → Bool
  | finite _ 0 => true
  | _ => false

/-- The signed count of units; of no use at infinity. -/
def signedUnits : Binary f → Int
  | finite true n => -(n : Int)
  | finite false n => n
  | _ => 0

def zero : Binary f := finite false 0

def ofInt (f : Format) (n : Int) : Binary f := ofSignedUnits f (n * f.one)

def neg : Binary f → Binary f
  | nan s => nan !s
  | infinity s => infinity !s
  | finite s n => finite (!s) n

def convert (g : Format) : Binary f → Binary g
  | nan s => nan s
  | infinity s => infinity s
  | finite s n => ofUnits g s (n * g.one) f.one

/-- A sum of opposite numbers is positive zero; a sum of zeros is negative when both are. -/
def add : Binary f → Binary f → Binary f
  | nan s, _ => nan s
  | _, nan s => nan s
  | infinity s, infinity t => if s = t then infinity s else invalid
  | infinity s, _ => infinity s
  | _, infinity t => infinity t
  | finite s m, finite t n =>
    if m = 0 ∧ n = 0 then finite (s && t) 0
    else ofSignedUnits f (signedUnits (f := f) (finite s m) + signedUnits (f := f) (finite t n))

/-- A difference keeps the sign of a right operand that is not a number. -/
def sub : Binary f → Binary f → Binary f
  | nan s, _ => nan s
  | _, nan s => nan s
  | x, y => add x y.neg

def mul : Binary f → Binary f → Binary f
  | nan s, _ => nan s
  | _, nan s => nan s
  | infinity s, infinity t => infinity (s != t)
  | infinity s, finite t n => if n = 0 then invalid else infinity (s != t)
  | finite s m, infinity t => if m = 0 then invalid else infinity (s != t)
  | finite s m, finite t n => ofUnits f (s != t) (m * n) f.one

def div : Binary f → Binary f → Binary f
  | nan s, _ => nan s
  | _, nan s => nan s
  | infinity _, infinity _ => invalid
  | infinity s, finite t _ => infinity (s != t)
  | finite s _, infinity t => finite (s != t) 0
  | finite s m, finite t n =>
    if n = 0 then (if m = 0 then invalid else infinity (s != t))
    else ofUnits f (s != t) (m * f.one) n

/-- The exact remainder of the quotient cut toward zero; it has the sign of the dividend. -/
def rem : Binary f → Binary f → Binary f
  | nan s, _ => nan s
  | _, nan s => nan s
  | infinity _, _ => invalid
  | x, infinity _ => x
  | finite s m, finite _ n => if n = 0 then invalid else finite s (m % n)

/-- Equality of values: zeros are equal, and what is not a number equals nothing. -/
def equals : Binary f → Binary f → Bool
  | nan _, _ => false
  | _, nan _ => false
  | infinity s, infinity t => s == t
  | finite s m, finite t n => signedUnits (f := f) (finite s m) == signedUnits (f := f) (finite t n)
  | _, _ => false

/-- A place on the line of all numbers of the format. -/
def rank : Binary f → Int
  | nan false => f.bound + 2
  | nan true => -(f.bound + 3 : Int)
  | infinity false => f.bound + 1
  | infinity true => -(f.bound + 2 : Int)
  | finite false n => n
  | finite true n => -(n : Int) - 1

/-- A linear order of all numbers: negative zero is below zero, and what is not a number stands at
the two ends. -/
def totalOrder (x y : Binary f) : Ordering := compare x.rank y.rank

/-- The integer part, cut to the given bounds; zero for what is not a number. -/
def toIntWithin (lo hi : Int) : Binary f → Int
  | nan _ => 0
  | infinity true => lo
  | infinity false => hi
  | finite s n =>
    let whole : Int := (n / f.one : Nat)
    max lo (min hi (if s then -whole else whole))

/-- The decimal exponents past which every format is at zero or at infinity. -/
def decimalReach : Int := 400

/-- The number nearest to `digits * 10 ^ exponent`. -/
def ofScientific (f : Format) (negative : Bool) (digits : Nat) (exponent : Int) : Binary f :=
  let top := exponent + (natDigits digits).length
  if digits = 0 ∨ top < -decimalReach then finite negative 0
  else if decimalReach < top then infinity negative
  else
    ofUnits f negative (digits * Nat.pow 10 exponent.toNat * f.one) (Nat.pow 10 (-exponent).toNat)

/-- `r` times the power `a ^ k`, which is the product of repeated squares of `a`; every product is
rounded. -/
def timesPower (r a : Binary f) (k : Nat) : Binary f :=
  if h : k = 0 then r
  else timesPower (if k % 2 = 1 then r.mul a else r) (a.mul a) (k / 2)
termination_by k
decreasing_by omega

def ofNat (f : Format) (negative : Bool) (n : Nat) : Binary f := ofUnits f negative (n * f.one) 1

/-- Digits of a decimal that count for its conversion. -/
def countedDigits : Nat := 25

/-- Digits that are dropped at once. -/
def droppedDigits : Nat := 19

/-- About how many digits a number has, told by its length in bits; at most one too few. -/
def approximateDigits (n : Nat) : Nat := (n.log2 + 2) * 30102999566398 / Nat.pow 10 14

/-- Drops low digits, `droppedDigits` at a time, while about `countedDigits` stay. -/
def shorten (n : Nat) (scale : Int) : Nat × Int :=
  let dropped := (approximateDigits n - countedDigits) / droppedDigits * droppedDigits
  (n / Nat.pow 10 dropped, scale - dropped)

/-- Scales from here on, in both directions, are out of reach. -/
def scaleReach : Int := Int.pow 2 31

/-- A decimal with a scale as a binary number, through its leading digits. They are read together
with a positive scale, and multiplied by the power of ten of a negative one. A number out of reach,
however small, is infinite. -/
def ofScaled (f : Format) (negative : Bool) (n : Nat) (scale : Int) : Binary f :=
  let (n, scale) := shorten n scale
  if scale ≤ -scaleReach ∨ scaleReach ≤ scale then infinity negative
  else if 0 < scale then ofScientific f negative n (-scale)
  else (ofNat f negative n).mul (timesPower (ofNat f false 1) (ofNat f false 10) (-scale).toNat)

/-- A decimal as a binary number. A whole number without a scale is read exactly, and a zero has no
sign, whatever its scale is. -/
def ofDecimal (f : Format) (d : Decimal) : Binary f :=
  let negative : Bool := d.unscaled < 0
  if d.unscaled = 0 then zero
  else if d.scale = 0 then ofNat f negative d.unscaled.natAbs
  else ofScaled f negative d.unscaled.natAbs d.scale

/-- The names of the numbers that have no digits, in any case. -/
def ofName? (negative : Bool) (cs : List Char) : Option (Binary f) :=
  let name := String.ofList (cs.map Char.toLower)
  if name = "nan" then some (nan negative)
  else if name = "inf" ∨ name = "infinity" then some (infinity negative)
  else none

/-- Digits with an optional point and exponent, as their integer and power of ten. -/
def readScientific? (cs : List Char) : Option (Nat × Int) := do
  let (base, exponentChars) := splitAtFirst (fun c => c == 'e' || c == 'E') cs
  let exponent ← match exponentChars with
    | none => some 0
    | some e => readInt? e
  let (lead, trail) := splitAtFirst (· == '.') base
  let trail := trail.getD []
  let digits ← readNat? (lead ++ trail)
  some (digits, exponent - trail.length)

/-- The number nearest to what is written. -/
def ofChars? (f : Format) (cs : List Char) : Option (Binary f) :=
  let (negative, cs) :=
    match cs with
    | '-' :: rest => (true, rest)
    | '+' :: rest => (false, rest)
    | _ => (false, cs)
  (ofName? negative cs) <|>
    (readScientific? cs).map fun (digits, exponent) => ofScientific f negative digits exponent

end Binary

end DocTemplate
