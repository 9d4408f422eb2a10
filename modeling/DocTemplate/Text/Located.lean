import DocTemplate.Span

namespace DocTemplate

structure LocatedText where
  text : String
  offsets : Array Nat
  deriving DecidableEq, Repr, Inhabited

namespace LocatedText

def empty : LocatedText := ⟨"", #[]⟩

/-- Appends text that stands in the document from `base` on, byte for byte. -/
def append (t : LocatedText) (text : String) (base : Nat) : LocatedText :=
  ⟨t.text ++ text,
    t.offsets ++ ((List.range text.utf8ByteSize).map fun i => Span.clamp (base + i)).toArray⟩

/-- Appends one character that the document writes in another way, such as an entity: all its
bytes come from `origin`. -/
def appendAt (t : LocatedText) (c : Char) (origin : Nat) : LocatedText :=
  ⟨t.text.push c, t.offsets ++ Array.replicate c.utf8Size origin⟩

def finish (t : LocatedText) (stop : Nat) : LocatedText := { t with offsets := t.offsets.push stop }

/-- A text that stands in one piece from `base` on. -/
def contiguous (text : String) (base : Nat) : LocatedText :=
  (empty.append text base).finish (Span.clamp (base + text.utf8ByteSize))

/-- The document offset of a byte of the text; bytes past the end stand where the text ends. -/
def offset (t : LocatedText) (pos : Nat) : Nat :=
  (t.offsets[pos]? <|> t.offsets.back?).getD 0

/-- The document bytes behind the text bytes from `start` up to `stop`. Nothing follows the last
offset, so a span whose last byte stands there is empty. -/
def span (t : LocatedText) (start stop : Nat) : Span :=
  let first := t.offset start
  let last := if start < stop then Span.wrap (t.offset (stop - 1) + 1) else first
  ⟨first, max last first⟩

def fullSpan (t : LocatedText) : Span := t.span 0 t.text.utf8ByteSize

end LocatedText

end DocTemplate
