import DocTemplate.Number.Numeral
import DocTemplate.Number.Round

namespace DocTemplate

/-- The number `unscaled / 10 ^ scale`. -/
structure Decimal where
  unscaled : Int
  scale : Int
  deriving DecidableEq, Repr, Inhabited

namespace Decimal

def ofInt (n : Int) : Decimal := ⟨n, 0⟩

/-- The bounds of a scale. -/
def scaleFits (scale : Int) : Bool := -(Int.pow 2 63) ≤ scale && scale < Int.pow 2 63

/-- The scale within the bounds that is congruent modulo `2 ^ 64`. -/
def wrapScale (scale : Int) : Int := scale.bmod (Nat.pow 2 64)

def isZero (d : Decimal) : Bool := d.unscaled == 0

def digitCount (d : Decimal) : Nat := (natDigits d.unscaled.natAbs).length

/-- The least power of ten above the size of a number, by its exponent; that of zero is zero. -/
def magnitude (d : Decimal) : Int := if d.isZero then 0 else d.digitCount - d.scale

/-- The unscaled integer of the same value at a scale that is not below its own. -/
def unscaledAt (d : Decimal) (scale : Int) : Int :=
  if d.isZero then 0 else d.unscaled * Int.pow 10 (scale - d.scale).toNat

/-- The same value, written with at least the given scale. -/
def raise (d : Decimal) (scale : Int) : Decimal :=
  if d.scale < scale then ⟨d.unscaledAt scale, scale⟩ else d

def compareAligned (a b : Decimal) : Ordering :=
  let s := max a.scale b.scale
  Ord.compare (a.unscaledAt s) (b.unscaledAt s)

/-- The order by value. Only numbers of one sign and magnitude are brought to one scale, so that
no more zeros are added than there are digits. -/
def compare (a b : Decimal) : Ordering :=
  match Ord.compare a.unscaled.sign b.unscaled.sign, Ord.compare a.magnitude b.magnitude with
  | .eq, .eq => a.compareAligned b
  | .eq, o => if a.unscaled < 0 then o.swap else o
  | o, _ => o

/-- The radix of the words of a number. -/
def word : Nat := Nat.pow 2 32

/-- Two decimals at different scales are equal when the integer of the smaller scale, times a power
of ten, is the other one. The powers of ten below this exponent fit into 64 bits, and by them the
product is made and compared word by word; larger distances are left to the order by value. -/
def wordwiseLimit : Nat := 20

/-- Whether `a = b * power + carry`, told word by word from the lowest. The product of a word has
two words, so that its sum with the carry wraps around there. A product that does not fit leaves
the question open. -/
def equalWords? (power a b carry : Nat) : Option Bool :=
  if h : b = 0 then some (a == carry)
  else
    let product := b % word * power
    if a = 0 then some false
    else if word * word ≤ product then none
    else
      let sum := (product + carry) % (word * word)
      if a % word = sum % word then equalWords? power (a / word) (b / word) (sum / word)
      else some false
termination_by b
decreasing_by exact Nat.div_lt_self (Nat.pos_of_ne_zero h) (by decide)

/-- Whether `a = b * 10 ^ distance`, for positive numbers and a distance below `wordwiseLimit`. -/
def equalScaled (a b distance : Nat) : Bool :=
  let power := Nat.pow 10 distance
  if a.log2 < b.log2 + power.log2 then false
  else (equalWords? power a b 0).getD (a == b * power)

/-- Equality by value. It parts from `compare` where a carry between words is lost: then numbers
at scales ten apart may be held unequal though they are equal, and the other way round. -/
def equals (a b : Decimal) : Bool :=
  let distance := (a.scale - b.scale).natAbs
  if a.unscaled.sign ≠ b.unscaled.sign then false
  else if a.isZero || distance = 0 || wordwiseLimit ≤ distance then a.compare b == .eq
  else if b.scale < a.scale then equalScaled a.unscaled.natAbs b.unscaled.natAbs distance
  else equalScaled b.unscaled.natAbs a.unscaled.natAbs distance

def neg (a : Decimal) : Decimal := ⟨-a.unscaled, a.scale⟩

def add (a b : Decimal) : Decimal :=
  if b.isZero then a.raise b.scale
  else if a.isZero then b.raise a.scale
  else
    let s := max a.scale b.scale
    ⟨a.unscaledAt s + b.unscaledAt s, s⟩

def sub (a b : Decimal) : Decimal :=
  if b.isZero then a
  else if a.isZero then b.neg
  else
    let s := max a.scale b.scale
    ⟨a.unscaledAt s - b.unscaledAt s, s⟩

/-- A product or quotient with one is the other operand as it is written. The powers of ten up to
this exponent fit into 128 bits, and a one with more zeros after its point is not looked for. -/
def oneScaleLimit : Int := 38

def isOne (a : Decimal) : Bool :=
  0 ≤ a.scale && a.scale ≤ oneScaleLimit && a.unscaled == Int.pow 10 a.scale.toNat

def mul (a b : Decimal) : Decimal :=
  if a.isOne then b
  else if b.isOne then a
  else ⟨a.unscaled * b.unscaled, wrapScale (a.scale + b.scale)⟩

/-- The remainder of the quotient cut toward zero; it has the sign of `a`. -/
def rem (a b : Decimal) : Decimal :=
  let s := max a.scale b.scale
  ⟨(a.unscaledAt s).tmod (b.unscaledAt s), s⟩

/-- Digits after the point are cut off, or zeros added, to reach the scale. -/
def withScale (d : Decimal) (scale : Int) : Decimal :=
  if d.scale ≤ scale then ⟨d.unscaledAt scale, scale⟩
  else if d.isZero || d.magnitude + scale ≤ 0 then ⟨0, scale⟩
  else ⟨d.unscaled.tdiv (Int.pow 10 (d.scale - scale).toNat), scale⟩

def roundTo (d : Decimal) (scale : Int) (tie : TieRule) : Decimal :=
  if d.scale ≤ scale then ⟨d.unscaledAt scale, scale⟩
  else if d.isZero || d.magnitude + scale < 0 then ⟨0, scale⟩
  else ⟨roundQuotient tie d.unscaled (Nat.pow 10 (d.scale - scale).toNat), scale⟩

def truncate (d : Decimal) : Int := (d.withScale 0).unscaled

/-- Decimals have a precision of this many significant digits by default: a quotient whose expansion
does not end before is cut there and rounded. -/
def quotientDigits : Nat := 100

/-- The least power of ten, of at most `fuel`, that makes `num` reach `den`. -/
def shiftToReach (num den : Nat) : Nat → Nat
  | 0 => 0
  | fuel + 1 => if den ≤ num then 0 else shiftToReach (num * 10) den fuel + 1

/-- Appends digits of the expansion of `rem / den` to `q` until it ends or `room` digits are
added. Gives the digits, the remainder times ten, and the count of digits added. -/
def longDivision (den : Nat) : Nat → Nat → Nat → Nat × Nat × Nat
  | 0, q, rem => (q, rem, 0)
  | room + 1, q, rem =>
    if rem = 0 then (q, rem, 0)
    else
      let (q', rem', added) := longDivision den room (q * 10 + rem / den) (rem % den * 10)
      (q', rem', added + 1)

/-- `num / den` for positive numbers, as an integer and a scale: exact when the expansion ends
within `quotientDigits` significant digits, else rounded there. -/
def divideNat (num den : Nat) : Nat × Nat :=
  let shift := shiftToReach num den (natDigits den).length
  let num := num * Nat.pow 10 shift
  let q := num / den
  let room := quotientDigits - (natDigits q).length
  let (q, rem, added) := longDivision den room q (num % den * 10)
  (if 5 ≤ rem / den then q + 1 else q, shift + added)

/-- The quotient by a number other than zero. -/
def quotient (a b : Decimal) : Decimal :=
  if a.isZero || b.isOne then a
  else if a.unscaled = b.unscaled then ⟨1, wrapScale (a.scale - b.scale)⟩
  else
    let (q, shift) := divideNat a.unscaled.natAbs b.unscaled.natAbs
    ⟨a.unscaled.sign * b.unscaled.sign * q, wrapScale (a.scale - b.scale + shift)⟩

/-- Digits after the point that a quotient is rounded to. -/
def divisionScale : Int := 10

def div (a b : Decimal) : Decimal := (a.quotient b).roundTo divisionScale .away

/-- Leading zeros after the point up to which a small number is written positionally; with more of
them it is written with an exponent. It is the default for texts of decimals. -/
def leadingZeroLimit : Int := 5

/-- Zeros up to which a number with a negative scale is written out; with more of them it is written
with an exponent. It is the default for texts of decimals. -/
def trailingZeroLimit : Int := 15

/-- Puts a point before the last `places` digits. -/
def withPoint (digits : List Char) (places : Nat) : List Char :=
  let digits := List.replicate (places + 1 - digits.length) '0' ++ digits
  digits.take (digits.length - places) ++ '.' :: digits.drop (digits.length - places)

def magnitudeText (digits : List Char) (scale : Int) : List Char :=
  if leadingZeroLimit < scale - digits.length then
    let fraction := if digits.tail = [] then [] else '.' :: digits.tail
    digits.take 1 ++ fraction ++ ['E', '-'] ++ natDigits (scale + 1 - digits.length).toNat
  else if trailingZeroLimit < -scale then digits ++ ['e', '+'] ++ natDigits (-scale).toNat
  else if 0 < scale then withPoint digits scale.toNat
  else digits ++ List.replicate (-scale).toNat '0'

def toChars (d : Decimal) : List Char :=
  if d.isZero then ['0']
  else
    (if d.unscaled < 0 then ['-'] else []) ++ magnitudeText (natDigits d.unscaled.natAbs) d.scale

def toText (d : Decimal) : String := String.ofList d.toChars

/-- Digits with an optional sign. Underscores between and after them are skipped. -/
def readUnscaled? (cs : List Char) : Option Int :=
  let (negative, cs) :=
    match cs with
    | '-' :: '+' :: _ => (true, cs)
    | '-' :: rest => (true, rest)
    | _ => (false, cs)
  let cs :=
    match cs with
    | '+' :: '+' :: _ => cs
    | '+' :: rest => rest
    | _ => cs
  if cs.head? = some '_' then none
  else
    (readNat? (cs.filter (· ≠ '_'))).map fun n => if negative then -(n : Int) else n

/-- An exponent; its digits may be any number, within 128 bits. -/
def readExponent? (cs : List Char) : Option Int :=
  (readInt? cs).bind fun e => if -(Int.pow 2 127) ≤ e ∧ e < Int.pow 2 127 then some e else none

/-- A number in decimal notation, with an optional point and an optional exponent. -/
def ofChars? (cs : List Char) : Option Decimal := do
  let (base, exponentChars) := splitAtFirst (fun c => c == 'e' || c == 'E') cs
  let exponent ← match exponentChars with
    | none => some 0
    | some e => readExponent? e
  let (lead, trail) := splitAtFirst (· == '.') base
  let trail := trail.getD []
  let scale : Int := (trail.filter (· ≠ '_')).length - exponent
  if scaleFits scale then (readUnscaled? (lead ++ trail)).map (⟨·, scale⟩) else none

end Decimal

end DocTemplate
