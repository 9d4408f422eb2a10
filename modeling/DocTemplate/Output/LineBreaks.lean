import DocTemplate.Output.Token

namespace DocTemplate

/-- The element for a break, and the elements to close before it and to open again after it,
outermost first. -/
structure LineBreaks where
  tag : String
  enclosing : List String
  deriving DecidableEq, Repr, Inhabited

namespace LineBreaks

def markup (b : LineBreaks) : String :=
  String.join (b.enclosing.reverse.map fun tag => "</" ++ tag ++ ">") ++
    "<" ++ b.tag ++ "/>" ++ String.join (b.enclosing.map fun tag => "<" ++ tag ++ ">")

/-- The lines of a text; there is one more than there are newlines. -/
def splitLines : List Char → List (List Char)
  | [] => [[]]
  | '\n' :: cs => [] :: splitLines cs
  | c :: cs =>
    match splitLines cs with
    | line :: lines => (c :: line) :: lines
    | [] => [[c]]

def dropReturn (line : List Char) : List Char :=
  if line.getLast? = some '\r' then line.dropLast else line

-- A carriage return belongs to the break, and a last one does even when no newline follows it.
def lineTokens (line : List Char) : List OutputToken :=
  let line := dropReturn line
  if line = [] then [] else [.text (String.ofList line)]

def splitText (b : LineBreaks) (cs : List Char) : List OutputToken :=
  [OutputToken.markup b.markup].intercalate ((splitLines cs).map lineTokens)

def rewriteToken (b : LineBreaks) : OutputToken → List OutputToken
  | .text s => if '\n' ∈ s.toList then b.splitText s.toList else [.text s]
  | token => [token]

def rewrite (b : LineBreaks) (tokens : List OutputToken) : List OutputToken :=
  tokens.flatMap b.rewriteToken

end LineBreaks

end DocTemplate
