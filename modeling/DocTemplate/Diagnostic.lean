import DocTemplate.Span
import DocTemplate.Text.Bytes

namespace DocTemplate

/-- The stage family of an error. An `internal` one shows a broken promise between two stages. -/
inductive ErrorKind where
  | grammar
  | structural
  | runtime
  | internal
  deriving DecidableEq, Repr

def ErrorKind.name : ErrorKind → String
  | grammar => "syntax"
  | structural => "structural"
  | runtime => "runtime"
  | internal => "internal"

/-- A cause bound to the bytes and the text that it speaks of. -/
structure Fault (κ : Type) where
  cause : κ
  span : Span
  lexeme : String
  deriving DecidableEq, Repr

structure TemplateError where
  kind : ErrorKind
  message : String
  span : Span
  lexeme : String
  deriving DecidableEq, Repr

def Fault.report {κ : Type} (f : Fault κ) (kind : ErrorKind) (message : κ → String) :
    TemplateError :=
  ⟨kind, message f.cause, f.span, f.lexeme⟩

/-- Byte offsets at which a line starts: the first byte, and each one after a line feed. -/
def lineStarts (text : String) : List Nat :=
  go 0 text.toList [0]
where
  go (offset : Nat) : List Char → List Nat → List Nat
    | [], starts => starts.reverse
    | c :: rest, starts =>
      let next := offset + c.utf8Size
      go next rest (if c = '\n' then Span.clamp next :: starts else starts)

/-- Where a sorted table has an entry, or else where the entry would belong. -/
inductive Slot where
  | found (index : Nat)
  | missing (index : Nat)
  deriving DecidableEq, Repr

/-- Looks for an offset among the entries from `lo` up to, but not including, `hi`. -/
def bisect (starts : Array Nat) (offset lo hi : Nat) : Slot :=
  if lo < hi then
    let mid := lo + (hi - lo) / 2
    match Ord.compare (starts.getD mid 0) offset with
    | .lt => bisect starts offset (mid + 1) hi
    | .eq => .found mid
    | .gt => bisect starts offset lo mid
  else .missing lo
termination_by hi - lo

/-- What an index is when it is counted from one. An index past the last offset is taken for the one
before that; the last offset itself has no successor, and wraps around to zero. -/
def ordinal (index : Nat) : Nat :=
  Span.wrap ((if index ≤ Span.limit then index else Span.limit - 1) + 1)

/-- The index that `ordinal` counts from one. -/
def indexOf (ordinal : Nat) : Nat := Span.wrap (ordinal + Span.limit)

/-- The line of `offset`: that of the last start that does not lie behind it. -/
def lineOf (starts : List Nat) (offset : Nat) : Nat :=
  match bisect starts.toArray offset 0 starts.length with
  | .found index => ordinal index
  | .missing index => ordinal (index - 1)

/-- Line and column of a byte offset. A column counts characters; an offset inside a character
has column one. -/
def linePosition (text : String) (offset : Nat) : Nat × Nat :=
  let starts := lineStarts text
  let line := lineOf starts offset
  let start := (starts[indexOf line]?).getD 0
  let stop := min offset text.utf8ByteSize
  (line, ordinal (((sliceBytes? text.toList start stop).map List.length).getD 0))

namespace TemplateError

def isFatal (e : TemplateError) : Bool := e.kind == .internal

def toText (e : TemplateError) : String :=
  s!"{e.kind.name} error at '{e.lexeme}': {e.message}"

def describe (e : TemplateError) (document : String) : String :=
  let (line, column) := linePosition document e.span.start
  s!"{line}:{column}: {e.toText}"

end TemplateError

end DocTemplate
