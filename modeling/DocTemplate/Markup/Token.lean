import DocTemplate.Diagnostic

namespace DocTemplate

inductive TagPart where
  | opening
  | closing
  | selfClosing
  deriving DecidableEq, Repr, Inhabited

def TagPart.depthAfter (depth : Nat) : TagPart → Nat
  | opening => depth + 1
  | closing => depth - 1
  | selfClosing => depth

/-- A piece of a document. Content keeps its entities; comments, declarations, character data
sections and processing instructions are verbatim pieces. -/
inductive RawToken where
  | tag (name : String) (part : TagPart) (text : String) (offset : Nat) (isText : Bool)
  | content (text : String) (offset : Nat) (insideText : Bool)
  | verbatim (text : String) (offset : Nat)
  deriving DecidableEq, Repr, Inhabited

namespace RawToken

def text : RawToken → String
  | tag _ _ text _ _ => text
  | content text _ _ => text
  | verbatim text _ => text

def offset : RawToken → Nat
  | tag _ _ _ offset _ => offset
  | content _ offset _ => offset
  | verbatim _ offset => offset

def tag? : RawToken → Option (String × TagPart)
  | tag name part _ _ _ => some (name, part)
  | _ => none

end RawToken

inductive MarkupCause where
  | missingTagName
  | unterminated
  deriving DecidableEq, Repr

def MarkupCause.message : MarkupCause → String
  | missingTagName => "Expected a tag name after '<'."
  | unterminated => "Unterminated markup."

abbrev MarkupFault := Fault MarkupCause

end DocTemplate
