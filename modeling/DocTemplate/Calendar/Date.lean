import DocTemplate.Number.Numeral

namespace DocTemplate

structure Date where
  year : Int
  month : Nat
  day : Nat
  deriving DecidableEq, Repr, Inhabited

structure Time where
  hour : Nat
  minute : Nat
  second : Nat
  -- a billion and more on top of the second stand for a leap second
  nano : Nat
  deriving DecidableEq, Repr, Inhabited

structure DateTime where
  date : Date
  time : Time
  deriving DecidableEq, Repr, Inhabited

/-- A local time and its distance from universal time, in seconds. -/
structure ZonedDateTime where
  local_ : DateTime
  offset : Int
  deriving DecidableEq, Repr, Inhabited

def isLeapYear (year : Int) : Bool :=
  year % 4 == 0 && (year % 100 != 0 || year % 400 == 0)

def monthLengths (leap : Bool) : List Nat :=
  [31, if leap then 29 else 28, 31, 30, 31, 30, 31, 31, 30, 31, 30, 31]

namespace Date

/-- The day of the year, from one. -/
def ordinal (d : Date) : Nat :=
  ((monthLengths (isLeapYear d.year)).take (d.month - 1)).foldl (· + ·) 0 + d.day

/-- Days since the last day of the year before year one. -/
def dayNumber (d : Date) : Int :=
  let y := d.year - 1
  365 * y + y / 4 - y / 100 + y / 400 + d.ordinal

/-- Days since Monday. -/
def weekday (d : Date) : Nat := ((d.dayNumber - 1) % 7).toNat

def compare (a b : Date) : Ordering :=
  (Ord.compare a.year b.year).then ((Ord.compare a.month b.month).then (Ord.compare a.day b.day))

end Date

namespace Time

def secondOfDay (t : Time) : Nat := t.hour * 3600 + t.minute * 60 + t.second

def compare (a b : Time) : Ordering :=
  (Ord.compare a.secondOfDay b.secondOfDay).then (Ord.compare a.nano b.nano)

end Time

def DateTime.compare (a b : DateTime) : Ordering :=
  (Date.compare a.date b.date).then (Time.compare a.time b.time)

namespace ZonedDateTime

/-- Seconds of universal time. -/
def instant (z : ZonedDateTime) : Int :=
  z.local_.date.dayNumber * 86400 + z.local_.time.secondOfDay - z.offset

def compare (a b : ZonedDateTime) : Ordering :=
  (Ord.compare a.instant b.instant).then (Ord.compare a.local_.time.nano b.local_.time.nano)

end ZonedDateTime

def padText (width n : Nat) : String := String.ofList (padDigits width n)

/-- Four digits; a sign stands before years outside of them. -/
def yearText (year : Int) : String :=
  if year < 0 then "-" ++ padText 4 year.natAbs
  else if year ≤ 9999 then padText 4 year.natAbs
  else "+" ++ padText 4 year.natAbs

def trimZeros (cs : List Char) : List Char := (cs.reverse.dropWhile (· == '0')).reverse

/-- Hours and minutes of an offset in minutes. -/
def offsetText (negative : Bool) (minutes : Nat) : String :=
  (if negative then "-" else "+") ++ padText 2 (minutes / 60) ++ ":" ++ padText 2 (minutes % 60)

def Date.toText (d : Date) : String :=
  yearText d.year ++ "-" ++ padText 2 d.month ++ "-" ++ padText 2 d.day

namespace Time

def hourMinute (t : Time) : String := padText 2 t.hour ++ ":" ++ padText 2 t.minute

/-- A leap second is shown as the sixtieth. -/
def shownSecond (t : Time) : Nat := t.second + t.nano / 1000000000

/-- Seconds are written when there are any, and a fraction when there is one. -/
def brief (t : Time) : String :=
  if t.second = 0 ∧ t.nano = 0 then t.hourMinute
  else
    t.hourMinute ++ ":" ++ padText 2 t.second ++
      (if t.nano = 0 then "" else "." ++ String.ofList (trimZeros (padDigits 9 t.nano)))

/-- All seconds, and a fraction of three, six or nine digits. -/
def full (t : Time) : String :=
  let nano := t.nano % 1000000000
  let fraction :=
    if nano = 0 then ""
    else if nano % 1000000 = 0 then "." ++ padText 3 (nano / 1000000)
    else if nano % 1000 = 0 then "." ++ padText 6 (nano / 1000)
    else "." ++ padText 9 nano
  t.hourMinute ++ ":" ++ padText 2 t.shownSecond ++ fraction

end Time

def DateTime.toText (d : DateTime) : String := d.date.toText ++ "T" ++ d.time.brief

def DateTime.fullText (d : DateTime) : String := d.date.toText ++ " " ++ d.time.full

namespace ZonedDateTime

/-- To the second, with the offset to the nearest minute. -/
def toText (z : ZonedDateTime) : String :=
  z.local_.date.toText ++ "T" ++ z.local_.time.hourMinute ++ ":" ++
    padText 2 z.local_.time.shownSecond ++ offsetText (z.offset < 0) ((z.offset.natAbs + 30) / 60)

def fullText (z : ZonedDateTime) : String :=
  let seconds := z.offset.natAbs % 60
  z.local_.fullText ++ " " ++ offsetText (z.offset < 0) (z.offset.natAbs / 60) ++
    (if seconds = 0 then "" else ":" ++ padText 2 seconds)

end ZonedDateTime

end DocTemplate
