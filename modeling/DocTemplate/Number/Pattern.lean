import DocTemplate.Number.Decimal

namespace DocTemplate

structure NumberSymbols where
  decimal : Char
  grouping : Char
  deriving DecidableEq, Repr, Inhabited

def NumberSymbols.standard : NumberSymbols := ⟨'.', ','⟩

structure NumberPattern where
  before : List Char
  after : List Char
  minInteger : Nat
  minFraction : Nat
  maxFraction : Nat
  grouping : Option Nat
  multiplier : Nat
  deriving DecidableEq, Repr

namespace NumberPattern

inductive Fault where
  | unterminatedQuote (pattern : String)
  | malformed (pattern : String)
  deriving DecidableEq, Repr

def Fault.message : Fault → String
  | unterminatedQuote p => s!"Unterminated quote in number pattern \"{p}\"."
  | malformed p => s!"Malformed number pattern \"{p}\"."

inductive Section where
  | before
  | number
  | after
  deriving DecidableEq, Repr

structure Reading where
  before : List Char
  places : List Char
  after : List Char
  multiplier : Nat
  part : Section
  quoted : Bool
  deriving DecidableEq, Repr

namespace Reading

def start : Reading := ⟨[], [], [], 1, .before, false⟩

def leaveNumber (r : Reading) : Reading :=
  if r.part = .number then { r with part := .after } else r

def literal (r : Reading) (c : Char) : Reading :=
  let r := r.leaveNumber
  if r.part = .before then { r with before := r.before ++ [c] }
  else { r with after := r.after ++ [c] }

def place (r : Reading) (c : Char) : Reading :=
  { r with part := .number, places := r.places ++ [c] }

def isPlace (c : Char) : Bool := c == '#' || c == '0' || c == ',' || c == '.'

/-- The factor that a sign in the pattern brings. -/
def scaled (r : Reading) : Char → Reading
  | '%' => { r with multiplier := 100 }
  | '‰' => { r with multiplier := 1000 }
  | _ => r

def read (r : Reading) : List Char → Reading
  | [] => r
  | '\x27' :: '\x27' :: cs => read (r.literal '\x27') cs
  | '\x27' :: cs => read { r.leaveNumber with quoted := !r.quoted } cs
  | c :: cs =>
    if r.quoted then read (r.literal c) cs
    else if isPlace c ∧ r.part ≠ .after then read (r.place c) cs
    else if c = ';' then r
    else read ((r.scaled c).literal c) cs

end Reading

/-- How many places stand after the last comma. -/
def groupSize? (integerPlaces : List Char) : Option Nat :=
  let tail := integerPlaces.reverse.takeWhile (· ≠ ',')
  if tail.length = integerPlaces.length ∨ tail = [] then none else some tail.length

def parse (pattern : String) : Except Fault NumberPattern :=
  let r := Reading.start.read pattern.toList
  if r.quoted then .error (.unterminatedQuote pattern)
  else if r.places = [] then .error (.malformed pattern)
  else
    let (integerPlaces, fraction) := splitAtFirst (· == '.') r.places
    let fractionPlaces := fraction.getD []
    if fractionPlaces.any (fun c => c == '.' || c == ',') then .error (.malformed pattern)
    else
      .ok
        { before := r.before
          after := r.after
          minInteger := integerPlaces.count '0'
          minFraction := fractionPlaces.count '0'
          maxFraction := fractionPlaces.length
          grouping := groupSize? integerPlaces
          multiplier := r.multiplier }

/-- Separators stand at the multiples of the group size, counted from the right. -/
def group (size? : Option Nat) (separator : Char) (digits : List Char) : List Char :=
  match size? with
  | none => digits
  | some size =>
    (digits.zipIdx.map fun (c, i) =>
      if 0 < i ∧ (digits.length - i) % size = 0 then [separator, c] else [c]).flatten

/-- Drops trailing zeros, but leaves `least` digits. -/
def trimFraction (least : Nat) (digits : List Char) : List Char :=
  digits.take least ++ ((digits.drop least).reverse.dropWhile (· == '0')).reverse

/-- Leading zeros are dropped, and added again up to `least` digits. -/
def fitInteger (least : Nat) (digits : List Char) : List Char :=
  let digits := digits.dropWhile (· == '0')
  List.replicate (least - digits.length) '0' ++ digits

/-- The scaled number at the pattern's precision, halves to the even neighbour. -/
def rounded (p : NumberPattern) (value : Decimal) : Decimal :=
  let scaled := if p.multiplier = 1 then value else value.mul (Decimal.ofInt p.multiplier)
  scaled.roundTo p.maxFraction .even

def format (p : NumberPattern) (value : Decimal) (symbols : NumberSymbols) : String :=
  let n := (p.rounded value).unscaled
  let digits := padDigits (p.maxFraction + 1) n.natAbs
  let split := digits.length - p.maxFraction
  let integer := fitInteger p.minInteger (digits.take split)
  let fraction := trimFraction p.minFraction (digits.drop split)
  let integer := if integer = [] ∧ fraction = [] then ['0'] else integer
  let point := if fraction = [] then [] else symbols.decimal :: fraction
  String.ofList ((if n < 0 then ['-'] else []) ++ p.before ++
    group p.grouping symbols.grouping integer ++ point ++ p.after)

end NumberPattern

end DocTemplate
