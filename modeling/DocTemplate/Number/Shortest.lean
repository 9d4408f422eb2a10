import DocTemplate.Number.Binary

namespace DocTemplate

namespace Binary

variable {f : Format}

/-- The reals that round to a positive number, in quarters of a unit. -/
structure Interval where
  low : Nat
  high : Nat
  closed : Bool
  deriving DecidableEq, Repr

/-- Half of the way to both neighbours. Below a power of two numbers lie twice as dense. -/
def interval (f : Format) (units : Nat) : Interval :=
  let step := Nat.pow 2 (spacing f units)
  let below := if units = step * Nat.pow 2 (f.precision - 1) ∧ 1 < step then step else 2 * step
  ⟨4 * units - below, 4 * units + 2 * step, units / step % 2 == 0⟩

/-- Of the two neighbours of `units` on the grid of the given power of ten, the nearer one inside
the interval; the upper one when both are as near. -/
def gridPoint? (f : Format) (units : Nat) (exponent : Int) : Option Nat :=
  let i := interval f units
  let scale := Nat.pow 10 (-exponent).toNat
  let grid := 4 * f.one * Nat.pow 10 exponent.toNat
  let inside (n : Nat) : Bool :=
    if i.closed then i.low * scale ≤ n && n ≤ i.high * scale
    else i.low * scale < n && n < i.high * scale
  let value := 4 * units * scale
  let c := value / grid
  let down := inside (c * grid)
  let up := inside ((c + 1) * grid)
  if up && (!down || (c + 1) * grid - value ≤ value - c * grid) then some (c + 1)
  else if down then some c
  else none

/-- Goes to finer and finer grids until one has a point. -/
def firstGrid (f : Format) (units : Nat) : Nat → Int → Nat × Int
  | 0, exponent => (units, exponent)
  | fuel + 1, exponent =>
    match gridPoint? f units exponent with
    | some n => (n, exponent)
    | none => firstGrid f units fuel (exponent - 1)

/-- A power of ten above the number. -/
def topExponent (f : Format) (units : Nat) : Int :=
  ((units.log2 : Int) + 1 - f.fractionBits) * 30103 / 100000 + 2

/-- Grids from the top one down to one on which every number has a point of its own. -/
def gridCount : Nat := 40

/-- Digits and a power of ten; `units` is positive. -/
def shortest (f : Format) (units : Nat) : Nat × Int :=
  firstGrid f units gridCount (topExponent f units)

end Binary

/-- How a number is written: positionally when its first digit stands for a power of ten from
`least` to `most`, else with an exponent after `mark`. -/
structure FloatLayout where
  least : Int
  most : Int
  mark : Char
  pointBeforeMark : Bool
  infinity : String
  deriving DecidableEq, Repr

namespace FloatLayout

def scientific (layout : FloatLayout) (digits : List Char) (exponent : Int) : List Char :=
  let fraction :=
    if digits.tail ≠ [] then '.' :: digits.tail
    else if layout.pointBeforeMark then ['.', '0'] else []
  digits.take 1 ++ fraction ++ layout.mark :: (toString exponent).toList

/-- At least one digit stands after the point. -/
def positional (digits : List Char) (exponent : Int) : List Char :=
  if exponent < 0 then Decimal.withPoint digits (-exponent).toNat
  else digits ++ List.replicate exponent.toNat '0' ++ ['.', '0']

def magnitude (layout : FloatLayout) (f : Binary.Format) (units : Nat) : List Char :=
  if units = 0 then ['0', '.', '0']
  else
    let (n, exponent) := Binary.shortest f units
    let digits := natDigits n
    let first := exponent + digits.length - 1
    if layout.least ≤ first ∧ first ≤ layout.most then positional digits exponent
    else layout.scientific digits first

def toText {f : Binary.Format} (layout : FloatLayout) : Binary f → String
  | .nan _ => "NaN"
  | .infinity s => if s then "-" ++ layout.infinity else layout.infinity
  | .finite s n => String.ofList ((if s then ['-'] else []) ++ layout.magnitude f n)

end FloatLayout

namespace Binary

/-- A finite number through its shortest digits. -/
def toDecimal? {f : Format} : Binary f → Option Decimal
  | finite s n =>
    if n = 0 then some (Decimal.ofInt 0)
    else
      let (digits, exponent) := shortest f n
      let sign : Int := if s then -1 else 1
      some ⟨sign * digits * Int.pow 10 exponent.toNat, (-exponent).toNat⟩
  | _ => none

end Binary

end DocTemplate
