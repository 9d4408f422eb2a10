import DocTemplate.Group.Classify
import DocTemplate.Markup.Token

namespace DocTemplate

/-- A character of eligible text, with the bytes and the place it is written with. -/
structure DecodedChar where
  char : Char
  source : List Char
  start : Nat
  deriving DecidableEq, Repr

/-- Digits of base sixteen, with an optional plus sign. -/
def readHex? (cs : List Char) : Option Nat :=
  let digits := if cs.head? = some '+' then cs.tail else cs
  if digits = [] then none
  else
    digits.foldl (fun n c => n.bind fun n => (hexDigit? c).map (16 * n + ·)) (some 0)
where
  hexDigit? (c : Char) : Option Nat :=
    if c.isDigit then some (c.toNat - '0'.toNat)
    else if 'a' ≤ c ∧ c ≤ 'f' then some (c.toNat - 'a'.toNat + 10)
    else if 'A' ≤ c ∧ c ≤ 'F' then some (c.toNat - 'A'.toNat + 10)
    else none

/-- Decimal digits, with an optional plus sign. -/
def readCode? (cs : List Char) : Option Nat :=
  readNat? (if cs.head? = some '+' then cs.tail else cs)

def charOfCode? (n : Nat) : Option Char := if n.isValidChar then some (Char.ofNat n) else none

/-- The character that an entity of this name stands for. -/
def entityChar? (name : List Char) : Option Char :=
  match name with
  | ['a', 'm', 'p'] => some '&'
  | ['l', 't'] => some '<'
  | ['g', 't'] => some '>'
  | ['q', 'u', 'o', 't'] => some '"'
  | ['a', 'p', 'o', 's'] => some '\x27'
  | '#' :: 'x' :: digits => (readHex? digits).bind charOfCode?
  | '#' :: 'X' :: digits => (readHex? digits).bind charOfCode?
  | '#' :: digits => (readCode? digits).bind charOfCode?
  | _ => none

/-- The longest name that an entity can have. -/
def entityNameLimit : Nat := 10

/-- The entity that a text starts with after its `&`, and the characters it takes there. -/
def entity? (cs : List Char) : Option (Char × Nat) :=
  let name := cs.takeWhile (· ≠ ';')
  if name.length = cs.length ∨ entityNameLimit < name.length then none
  else (entityChar? name).map (·, name.length + 1)

/-- The characters that a text writes, from byte `pos` on, after `skip` characters of the entity
before. -/
def decodeFrom (pos : Nat) : Nat → List Char → List DecodedChar
  | _, [] => []
  | skip + 1, c :: cs => decodeFrom (pos + c.utf8Size) skip cs
  | 0, c :: cs =>
    match if c = '&' then entity? cs else none with
    | some (d, more) => ⟨d, c :: cs.take more, pos⟩ :: decodeFrom (pos + c.utf8Size) more cs
    | none => ⟨c, [c], pos⟩ :: decodeFrom (pos + c.utf8Size) 0 cs

/-- A group that has started. `held` has what followed it in the stream, last item first. -/
structure PendingGroup where
  source : LocatedText
  start : Nat
  quote : Option Quote
  escaped : Bool
  held : List StreamItem
  deriving Repr

/-- The stream so far, last item first, and the plain text of the current run that is not yet in
it, last character first. -/
structure Extraction where
  items : List StreamItem
  groups : Groups
  pending : Option PendingGroup
  run : List Char
  runStart : Nat
  deriving Repr

/-- What does not change while one run of text is read. -/
structure TextRun where
  delimiters : Delimiters
  nicknames : Nicknames
  offset : Nat
  insideText : Bool

namespace Extraction

def start : Extraction := ⟨[], #[], none, [], 0⟩

def push (x : Extraction) (item : StreamItem) : Extraction :=
  match x.pending with
  | some p => { x with pending := some { p with held := item :: p.held } }
  | none => { x with items := item :: x.items }

def flush (x : Extraction) (run : TextRun) : Extraction :=
  if x.run = [] then x
  else
    let text := String.ofList x.run.reverse
    let token := RawToken.content text (Span.clamp (run.offset + x.runStart)) run.insideText
    { x with items := .raw token :: x.items, run := [] }

def keep (x : Extraction) (c : DecodedChar) : Extraction :=
  { x with
    run := c.source.reverse ++ x.run
    runStart := if x.run = [] then c.start else x.runStart }

def gather (run : TextRun) (source : LocatedText) (cs : List DecodedChar) : LocatedText :=
  cs.foldl (fun s c => s.appendAt c.char (Span.clamp (run.offset + c.start))) source

def openGroup (x : Extraction) (run : TextRun) (c : DecodedChar) (delimiter : List DecodedChar) :
    Extraction :=
  { x.flush run with
    pending :=
      some ⟨gather run .empty delimiter, Span.clamp (run.offset + c.start), none, false, []⟩ }

/-- The state of the quotes after one more character. -/
def PendingGroup.track (p : PendingGroup) (c : Char) : PendingGroup :=
  match p.quote with
  | none => { p with quote := Quote.of? c }
  | some q =>
    if p.escaped then { p with escaped := false }
    else if c = '\\' then { p with escaped := true }
    else if q.includes c then { p with quote := none }
    else p

def closeGroup (x : Extraction) (run : TextRun) (p : PendingGroup)
    (delimiter : List DecodedChar) : Except GroupFault Extraction := do
  let source := gather run p.source delimiter
  let stop := (delimiter.getLast?.map fun c => c.start + byteLength c.source).getD 0
  let source := source.finish (Span.clamp (run.offset + stop))
  let tokens ← (scanGroup source run.delimiters).mapError fun f => ⟨.scan f.cause, f.span, f.lexeme⟩
  let group ← Group.ofTokens tokens source.fullSpan run.nicknames
  return { x with
    items := p.held ++ .group x.groups.size :: x.items
    groups := x.groups.push group
    pending := none }

/-- Whether the characters start with a delimiter that is not empty. -/
def startsWith (delimiter : List Char) (cs : List DecodedChar) : Bool :=
  delimiter ≠ [] && delimiter.isPrefixOf ((cs.take delimiter.length).map DecodedChar.char)

/-- Reads the characters of a run, after `skip` of them that belong to a delimiter. -/
def read (run : TextRun) (opening closing : List Char) :
    Extraction → Nat → List DecodedChar → Except GroupFault Extraction
  | x, _, [] => .ok x
  | x, skip + 1, _ :: cs => read run opening closing x skip cs
  | x, 0, c :: cs =>
    match x.pending with
    | none =>
      if startsWith opening (c :: cs) then
        read run opening closing (x.openGroup run c ((c :: cs).take opening.length))
          (opening.length - 1) cs
      else read run opening closing (x.keep c) 0 cs
    | some p =>
      if p.quote = none ∧ startsWith closing (c :: cs) then
        match x.closeGroup run p ((c :: cs).take closing.length) with
        | .ok x => read run opening closing x (closing.length - 1) cs
        | .error f => .error f
      else
        let p := { PendingGroup.track p c.char with source := gather run p.source [c] }
        read run opening closing { x with pending := some p } 0 cs

def content (x : Extraction) (run : TextRun) (text : String) : Except GroupFault Extraction :=
  (read run run.delimiters.opening.toList run.delimiters.closing.toList x 0
    (decodeFrom 0 0 text.toList)).map (·.flush run)

end Extraction

def elementDepthAfter (depth : Nat) : RawToken → Nat
  | .tag _ part _ _ _ => part.depthAfter depth
  | _ => depth

/-- Reads the pieces that stand inside `depth` elements. -/
def extractFrom (delimiters : Delimiters) (nicknames : Nicknames) :
    Extraction → Nat → List RawToken → Except GroupFault Extraction
  | x, _, [] => .ok x
  | x, depth, token :: tokens =>
    match token with
    | .content text offset insideText =>
      -- between elements, groups are looked for only where no element is open at all
      if insideText || depth == 0 then
        match x.content ⟨delimiters, nicknames, offset, insideText⟩ text with
        | .ok x => extractFrom delimiters nicknames x depth tokens
        | .error f => .error f
      else extractFrom delimiters nicknames (x.push (.raw token)) depth tokens
    | token =>
      extractFrom delimiters nicknames (x.push (.raw token)) (elementDepthAfter depth token) tokens

def extractGroups (delimiters : Delimiters) (nicknames : Nicknames) (tokens : List RawToken) :
    Except GroupFault TemplateStream := do
  let x ← extractFrom delimiters nicknames .start 0 tokens
  match x.pending with
  | some p =>
    throw ⟨.unclosed delimiters.closing, ⟨p.start, Span.clamp (p.start + 1)⟩, p.source.text⟩
  | none => return ⟨x.items.reverse, x.groups⟩

end DocTemplate
