import DocTemplate.Markup.Tokenize
import DocTemplate.Text.Escape

namespace DocTemplate

inductive OutputToken where
  /-- Text that the template made; it is escaped when it is written. -/
  | text (s : String)
  /-- Markup that the template made; it is written as it is. -/
  | markup (s : String)
  /-- A piece of the document. -/
  | raw (token : RawToken)
  /-- A place where markup can be spliced in; it has no text. -/
  | sentinel
  deriving DecidableEq, Repr, Inhabited

def OutputToken.write : OutputToken → String
  | text s => escapeText s
  | markup s => s
  | raw token => token.text
  | sentinel => ""

def serialize (tokens : List OutputToken) : String := String.join (tokens.map OutputToken.write)

abbrev StreamRewriter := List OutputToken → Except String (List OutputToken)

/-- Puts a piece of markup in place of a whole block. -/
def replaceWith (xml : String) (_ : List OutputToken) : List OutputToken :=
  if xml = "" then [] else [.markup xml]

end DocTemplate
