namespace DocTemplate

/-- The bytes from `start` up to, but not including, `stop`. -/
structure Span where
  start : Nat
  stop : Nat
  deriving DecidableEq, Repr, Inhabited

namespace Span

/-- The last offset that a span can name. -/
def limit : Nat := 4294967295

def clamp (offset : Nat) : Nat := min offset limit

theorem clamp_le (offset : Nat) : clamp offset ≤ limit := Nat.min_le_right _ _

theorem clamp_of_le {offset : Nat} (h : offset ≤ limit) : clamp offset = offset :=
  Nat.min_eq_left h

/-- The offset modulo the number of all offsets. -/
def wrap (offset : Nat) : Nat := offset % (limit + 1)

theorem wrap_of_le {offset : Nat} (h : offset ≤ limit) : wrap offset = offset :=
  Nat.mod_eq_of_lt (Nat.lt_succ_of_le h)

inductive RangeError where
  | startTooLarge (offset : Nat)
  | stopTooLarge (offset : Nat)
  deriving DecidableEq, Repr

def RangeError.message : RangeError → String
  | startTooLarge n => s!"span start {n} exceeds u32::MAX"
  | stopTooLarge n => s!"span end {n} exceeds u32::MAX"

def ofRange? (start stop : Nat) : Except RangeError Span :=
  if limit < start then .error (.startTooLarge start)
  else if limit < stop then .error (.stopTooLarge stop)
  else .ok ⟨start, stop⟩

def ofRange (start stop : Nat) : Span := ⟨clamp start, clamp stop⟩

def point (offset : Nat) : Span := ⟨offset, offset⟩

def length (s : Span) : Nat := s.stop - s.start

def isEmpty (s : Span) : Bool := s.start == s.stop

def shift (s : Span) (n : Nat) : Span := ⟨wrap (s.start + n), wrap (s.stop + n)⟩

/-- The least span that covers both. -/
def merge (s t : Span) : Span := ⟨min s.start t.start, max s.stop t.stop⟩

def toText (s : Span) : String := s!"{s.start}..{s.stop}"

end Span

end DocTemplate
