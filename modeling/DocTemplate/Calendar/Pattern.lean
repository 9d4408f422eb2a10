import DocTemplate.Calendar.Date

namespace DocTemplate

/-- What a pattern can draw from. -/
structure DateFields where
  date : Date
  time : Option Time
  offset : Option Int
  deriving DecidableEq, Repr

namespace DatePattern

inductive Fault where
  | unterminatedQuote (pattern : String)
  | needsTime (letter : Char)
  | needsOffset (letter : Char)
  | unknownLetter (letter : Char)
  deriving DecidableEq, Repr

def Fault.message : Fault → String
  | unterminatedQuote p => s!"Unterminated quote in date pattern \"{p}\"."
  | needsTime c => s!"Pattern letter '{c}' needs a time of day."
  | needsOffset c => s!"Pattern letter '{c}' needs a zone offset."
  | unknownLetter c => s!"Unknown pattern letter '{c}'."

inductive Piece where
  | literal (c : Char)
  | field (letter : Char) (count : Nat)
  | unclosed
  deriving DecidableEq, Repr

/-- One more letter in front: it widens the field that follows if that is of the same letter. -/
def consLetter (c : Char) : List Piece → List Piece
  | .field c' n :: rest =>
    if c = c' then .field c (n + 1) :: rest else .field c 1 :: .field c' n :: rest
  | rest => .field c 1 :: rest

mutual

def pieces : List Char → List Piece
  | [] => []
  | '\x27' :: '\x27' :: cs => .literal '\x27' :: pieces cs
  | '\x27' :: cs => quoted cs
  | c :: cs => if c.isAlpha then consLetter c (pieces cs) else .literal c :: pieces cs

/-- The pieces of a pattern from inside a quoted text on. -/
def quoted : List Char → List Piece
  | [] => [.unclosed]
  | '\x27' :: cs => pieces cs
  | c :: cs => .literal c :: quoted cs

end

def months : List String :=
  ["January", "February", "March", "April", "May", "June", "July", "August", "September",
    "October", "November", "December"]

def weekdays : List String :=
  ["Monday", "Tuesday", "Wednesday", "Thursday", "Friday", "Saturday", "Sunday"]

/-- The first three characters of a name. -/
def abbreviate (name : String) : List Char := name.toList.take 3

/-- A number with zeros in front; the sign does not count for the width. -/
def padInt (width : Nat) (n : Int) : List Char :=
  (if n < 0 then ['-'] else []) ++ padDigits width n.natAbs

def offsetField (letter : Char) (count : Nat) (offset : Int) : List Char :=
  if offset = 0 ∧ letter = 'X' then ['Z']
  else
    let sign := if offset < 0 then '-' else '+'
    let hours := padDigits 2 (offset.natAbs / 3600)
    let minutes := padDigits 2 (offset.natAbs % 3600 / 60)
    if letter = 'Z' ∨ count = 2 then sign :: hours ++ minutes
    else if count = 1 then
      sign :: hours ++ (if offset.natAbs % 3600 / 60 = 0 then [] else minutes)
    else sign :: hours ++ ':' :: minutes

/-- The digits of a fraction of a second; zeros follow the ninth. -/
def fractionField (count nano : Nat) : List Char :=
  (padDigits 9 (nano % 1000000000)).take count ++ List.replicate (count - 9) '0'

def monthField (count month : Nat) : List Char :=
  let name := months.getD (month - 1) ""
  if count ≤ 2 then padDigits count month
  else if count = 3 then abbreviate name
  else name.toList

def dayField (count weekday : Nat) : List Char :=
  let name := weekdays.getD weekday ""
  if 4 ≤ count then name.toList else abbreviate name

/-- A number from one to twelve, or to twenty-four, for a clock whose hours start at zero. -/
def clockHour (hour size : Nat) : Nat := if hour % size = 0 then size else hour % size

/-- The fields that a time of day has. -/
def timeField? (letter : Char) (count : Nat) (t : Time) : Option (List Char) :=
  match letter with
  | 'a' => some (if t.hour < 12 then ['A', 'M'] else ['P', 'M'])
  | 'H' => some (padDigits count t.hour)
  | 'k' => some (padDigits count (clockHour t.hour 24))
  | 'h' => some (padDigits count (clockHour t.hour 12))
  | 'K' => some (padDigits count (t.hour % 12))
  | 'm' => some (padDigits count t.minute)
  | 's' => some (padDigits count t.second)
  | 'S' => some (fractionField count t.nano)
  | _ => none

def timeLetters : List Char := ['a', 'H', 'k', 'h', 'K', 'm', 's', 'S']

def dateField? (letter : Char) (count : Nat) (d : Date) : Option (List Char) :=
  match letter with
  | 'y' | 'u' =>
    some (if count = 2 then padInt 2 (d.year % 100) else padInt count d.year)
  | 'M' | 'L' => some (monthField count d.month)
  | 'd' => some (padDigits count d.day)
  | 'D' => some (padDigits count d.ordinal)
  | 'E' => some (dayField count d.weekday)
  | _ => none

def field (fields : DateFields) (letter : Char) (count : Nat) : Except Fault (List Char) :=
  match dateField? letter count fields.date with
  | some text => .ok text
  | none =>
    if letter ∈ timeLetters then
      match fields.time.bind (timeField? letter count) with
      | some text => .ok text
      | none => .error (.needsTime letter)
    else if letter = 'X' ∨ letter = 'x' ∨ letter = 'Z' then
      match fields.offset with
      | some offset => .ok (offsetField letter count offset)
      | none => .error (.needsOffset letter)
    else .error (.unknownLetter letter)

def pieceText (pattern : String) (fields : DateFields) : Piece → Except Fault (List Char)
  | .literal c => .ok [c]
  | .field letter count => field fields letter count
  | .unclosed => .error (.unterminatedQuote pattern)

/-- The first piece that cannot be written decides the fault. -/
def format (fields : DateFields) (pattern : String) : Except Fault String :=
  ((pieces pattern.toList).mapM (pieceText pattern fields)).map fun texts =>
    String.ofList texts.flatten

end DatePattern

end DocTemplate
