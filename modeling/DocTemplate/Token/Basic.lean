import DocTemplate.Diagnostic
import DocTemplate.Number.Binary

namespace DocTemplate

structure Delimiters where
  opening : String
  closing : String
  deriving DecidableEq, Repr, Inhabited

def Delimiters.standard : Delimiters := ⟨"\x7b", "\x7d"⟩

inductive Keyword where
  | and | or | not | true | false | null
  | forEach | inside | ifTrue | finish | run | declare | insert | rewrite
  | choose | upon | give | otherwise
  deriving DecidableEq, Repr, Inhabited

namespace Keyword

def all : List Keyword :=
  [and, or, not, true, false, null, forEach, inside, ifTrue, finish, run, declare, insert, rewrite,
    choose, upon, give, otherwise]

def text : Keyword → String
  | and => "and"
  | or => "or"
  | not => "not"
  | true => "true"
  | false => "false"
  | null => "null"
  | forEach => "for"
  | inside => "in"
  | ifTrue => "if"
  | finish => "end"
  | run => "do"
  | declare => "var"
  | insert => "insert"
  | rewrite => "rewrite"
  | choose => "case"
  | upon => "when"
  | give => "then"
  | otherwise => "else"

def ofText? (text : String) : Option Keyword := all.find? (·.text == text)

theorem mem_all (k : Keyword) : k ∈ all := by cases k <;> decide

theorem ofText?_text (k : Keyword) : ofText? k.text = some k := by cases k <;> decide

end Keyword

inductive TokenKind where
  | opening | closing
  | leftParen | rightParen | leftBracket | rightBracket
  | comma | dot | dotQuestion | arrow | pipe
  | minus | plus | slash | star | percent
  | bang | bangEqual | equal | equalEqual
  | greater | greaterEqual | less | lessEqual | coalesce
  | identifier | string | number
  | target
  | keyword (k : Keyword)
  | endOfGroup
  deriving DecidableEq, Repr, Inhabited

/-- The text of a token that has only one. -/
def TokenKind.symbol? : TokenKind → Option String
  | leftParen => some "("
  | rightParen => some ")"
  | leftBracket => some "["
  | rightBracket => some "]"
  | comma => some ","
  | dot => some "."
  | dotQuestion => some ".?"
  | arrow => some "->"
  | pipe => some "|"
  | minus => some "-"
  | plus => some "+"
  | slash => some "/"
  | star => some "*"
  | percent => some "%"
  | bang => some "!"
  | bangEqual => some "!="
  | equal => some "="
  | equalEqual => some "=="
  | greater => some ">"
  | greaterEqual => some ">="
  | less => some "<"
  | lessEqual => some "<="
  | coalesce => some "??"
  | keyword k => some k.text
  | _ => none

/-- What a reader calls a token of this kind. -/
def TokenKind.describe (kind : TokenKind) : String :=
  match kind with
  | opening => "opening delimiter"
  | closing => "closing delimiter"
  | identifier => "identifier"
  | string => "string"
  | number => "number"
  | target => "expansion target"
  | endOfGroup => "end of template"
  | _ => "'" ++ kind.symbol?.getD "" ++ "'"

inductive Literal where
  | str (s : String)
  | int (n : Int32)
  | long (n : Int64)
  | float (x : Single)
  | double (x : Double)
  | decimal (d : Decimal)
  deriving DecidableEq, Repr, Inhabited

/-- The lexeme of a target is the name alone, while its span covers the `@` too. -/
structure Token where
  kind : TokenKind
  lexeme : String
  span : Span
  literal : Option Literal := none
  deriving DecidableEq, Repr, Inhabited

def Token.fault {κ : Type} (t : Token) (cause : κ) : Fault κ := ⟨cause, t.span, t.lexeme⟩

def Token.describe (t : Token) : String :=
  if t.kind = .endOfGroup then "end of template" else "'" ++ t.lexeme ++ "'"

end DocTemplate
