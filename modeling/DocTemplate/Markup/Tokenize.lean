import DocTemplate.Markup.Token

namespace DocTemplate

/-- What stands at a `<`, with the number of characters after it. -/
inductive Markup where
  | verbatim (more : Nat)
  | tag (name : List Char) (part : TagPart) (more : Nat)
  | unnamed (more : Nat)
  | unterminated
  deriving DecidableEq, Repr

namespace Markup

/-- The characters up to the end of the first place where `pattern` occurs. -/
def lengthThrough? (pattern : List Char) : List Char → Option Nat
  | [] => if pattern = [] then some 0 else none
  | c :: cs =>
    if pattern.isPrefixOf (c :: cs) then some pattern.length
    else (lengthThrough? pattern cs).map (· + 1)

/-- The openers of verbatim pieces, each with what ends it. An opener that starts another comes
after it. -/
def verbatimForms : List (List Char × List Char) :=
  [("<!--".toList, "-->".toList), ("<![CDATA[".toList, "]]>".toList), ("<?".toList, "?>".toList),
    ("<!".toList, ">".toList)]

def terminator? (cs : List Char) : Option (List Char) :=
  (verbatimForms.find? fun form => form.1.isPrefixOf cs).map Prod.snd

def endsName (c : Char) : Bool :=
  c == ' ' || c == '\t' || c == '\n' || c == '\r' || c == '/' || c == '>'

/-- The characters up to and with the first `>` outside of quotes, and the character before it. -/
def tagRest? (quote : Option Char) (last : Char) : List Char → Option (Nat × Char)
  | [] => none
  | c :: cs =>
    match quote with
    | some q => (tagRest? (if c = q then none else some q) c cs).map fun (n, l) => (n + 1, l)
    | none =>
      if c = '>' then some (1, last)
      else
        (tagRest? (if c = '"' ∨ c = '\x27' then some c else none) c cs).map fun (n, l) => (n + 1, l)

def tagAt (cs : List Char) : Markup :=
  let closing := cs.head? = some '/'
  let slash := if closing then 1 else 0
  let name := (cs.drop slash).takeWhile (!endsName ·)
  if name = [] then unnamed slash
  else
    match tagRest? none (name.getLastD '<') (cs.drop (slash + name.length)) with
    | none => unterminated
    | some (n, last) =>
      let part :=
        if closing then TagPart.closing
        else if last = '/' then .selfClosing else .opening
      tag name part (slash + name.length + n)

/-- What the text `<` followed by `cs` starts with. -/
def read (cs : List Char) : Markup :=
  match terminator? ('<' :: cs) with
  | some terminator =>
    match lengthThrough? terminator ('<' :: cs) with
    | some length => verbatim (length - 1)
    | none => unterminated
  | none => tagAt cs

end Markup

/-- The most characters that an unterminated piece is reported with. -/
def reportedLength : Nat := 32

/-- The pieces of the text that starts at byte `pos`, inside `depth` text elements, after `skip`
characters that belong to the piece before. -/
def tokenizeFrom (textTags : List String) (pos depth : Nat) :
    Nat → List Char → Except MarkupFault (List RawToken)
  | _, [] => .ok []
  | skip + 1, c :: cs => tokenizeFrom textTags (pos + c.utf8Size) depth skip cs
  | 0, c :: cs =>
    let next := pos + c.utf8Size
    let offset := Span.clamp pos
    if c ≠ '<' then
      let tail := cs.takeWhile (· ≠ '<')
      (tokenizeFrom textTags next depth tail.length cs).map
        (.content (String.ofList (c :: tail)) offset (0 < depth) :: ·)
    else
      match Markup.read cs with
      | .verbatim more =>
        (tokenizeFrom textTags next depth more cs).map
          (.verbatim (String.ofList (c :: cs.take more)) offset :: ·)
      | .tag name part more =>
        let name := String.ofList name
        let isText := textTags.contains name
        let depth := if isText then part.depthAfter depth else depth
        (tokenizeFrom textTags next depth more cs).map
          (.tag name part (String.ofList (c :: cs.take more)) offset isText :: ·)
      | .unnamed more =>
        let text := c :: cs.take more
        .error ⟨.missingTagName, Span.ofRange pos (pos + byteLength text), String.ofList text⟩
      | .unterminated =>
        let text := c :: cs
        .error ⟨.unterminated, Span.ofRange pos (pos + byteLength text),
          String.ofList (text.take reportedLength)⟩

/-- The pieces of a document. Elements named in `textTags` hold text. -/
def tokenize (textTags : List String) (document : String) : Except MarkupFault (List RawToken) :=
  tokenizeFrom textTags 0 0 0 document.toList

end DocTemplate
