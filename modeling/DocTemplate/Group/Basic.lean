import DocTemplate.Markup.Token
import DocTemplate.Token.Scan

namespace DocTemplate

abbrev GroupId := Nat

/-- Where a group goes before the template is read. -/
inductive ExpansionTarget where
  /-- It stays. -/
  | stay
  /-- The rules of the file type decide. -/
  | auto
  /-- Outside the nearest element of this name around it. -/
  | tag (name : String)
  /-- As far as the stream lets it. -/
  | outermost
  deriving DecidableEq, Repr, Inhabited

def ExpansionTarget.toText : ExpansionTarget → String
  | stay => "none"
  | auto => "auto"
  | tag name => "<" ++ name ++ ">"
  | outermost => "outermost"

inductive Direction where
  | left
  | right
  | both
  deriving DecidableEq, Repr, Inhabited

inductive GroupKind where
  | forEach
  | ifTrue
  | insert
  | rewrite
  | finish
  | run
  | placeholder
  deriving DecidableEq, Repr, Inhabited

namespace GroupKind

def isOpener : GroupKind → Bool
  | forEach | ifTrue | insert | rewrite => true
  | _ => false

def isCloser : GroupKind → Bool
  | finish => true
  | _ => false

/-- The kind that the token after the opening delimiter decides. -/
def ofToken : Option TokenKind → GroupKind
  | some (.keyword .forEach) => forEach
  | some (.keyword .ifTrue) => ifTrue
  | some (.keyword .insert) => insert
  | some (.keyword .rewrite) => rewrite
  | some (.keyword .finish) => finish
  | some (.keyword .run) => run
  | _ => placeholder

end GroupKind

/-- The tokens of a group have its delimiters and lack its target. -/
structure Group where
  tokens : List Token
  kind : GroupKind
  span : Span
  target : ExpansionTarget
  direction : Direction
  requiresPartner : Bool
  partner : Option GroupId
  deriving DecidableEq, Repr, Inhabited

def Group.head? (g : Group) : Option Token := g.tokens[1]? <|> g.tokens[0]?

def Group.keyword (g : Group) : String := (g.head?.map Token.lexeme).getD ""

abbrev Groups := Array Group

namespace Groups

def lookup (groups : Groups) (id : GroupId) : Group := groups[id]?.getD default

/-- Makes two groups each other's partner. -/
def link (groups : Groups) (a b : GroupId) : Groups :=
  (groups.modify a fun g => { g with partner := some b }).modify b fun g =>
    { g with partner := some a }

def setTarget (groups : Groups) (id : GroupId) (target : ExpansionTarget) : Groups :=
  groups.modify id fun g => { g with target := target }

end Groups

inductive StreamItem where
  | raw (token : RawToken)
  | group (id : GroupId)
  | sentinel
  deriving DecidableEq, Repr, Inhabited

namespace StreamItem

def group? : StreamItem → Option GroupId
  | group id => some id
  | _ => none

def tag? : StreamItem → Option (String × TagPart)
  | raw token => token.tag?
  | _ => none

end StreamItem

/-- A document whose groups are lifted out. -/
structure TemplateStream where
  items : List StreamItem
  groups : Groups
  deriving DecidableEq, Repr, Inhabited

def groupIds (items : List StreamItem) : List GroupId := items.filterMap StreamItem.group?

end DocTemplate
