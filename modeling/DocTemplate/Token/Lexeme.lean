import DocTemplate.Text.Letter
import DocTemplate.Token.Basic

namespace DocTemplate

inductive ScanCause where
  | groupStart (opening : String)
  | groupEnd (closing : String)
  | halfCoalesce
  | invalidEscape (c : Char)
  | unterminatedString
  | missingTagName
  | invalidNumber
  | numberRange
  | unexpected (c : Char)
  deriving DecidableEq, Repr

def ScanCause.message : ScanCause → String
  | groupStart opening => s!"Template group must start with '{opening}'."
  | groupEnd closing => s!"Unclosed template group, expected '{closing}'."
  | halfCoalesce => "Expected '??'."
  | invalidEscape c => s!"Invalid escape sequence '\\{c}'."
  | unterminatedString => "Unterminated string."
  | missingTagName => "Expected a tag name after '@'."
  | invalidNumber => "Invalid number literal."
  | numberRange => "Number literal out of range."
  | unexpected c => s!"Unexpected character '{c}'."

/-- Either a token with `more` characters after its first one, or a fault: `skip` characters lie
before the place that it speaks of, and `length` characters are at fault. -/
inductive Lexed where
  | token (kind : TokenKind) (literal : Option Literal) (more : Nat)
  | fault (cause : ScanCause) (skip length : Nat)
  deriving DecidableEq, Repr

namespace Lexed

def isNameStart (c : Char) : Bool := isLetter c || c == '_' || c == '$'

def isNamePart (c : Char) : Bool := isLetterOrDigit c || c == '_' || c == '$'

def isTagPart (c : Char) : Bool :=
  isLetterOrDigit c || c == '_' || c == ':' || c == '-' || c == '.'

/-- `both` when the next character is `second`, else `one`. -/
def either (second : Char) (both one : TokenKind) (cs : List Char) : Lexed :=
  if cs.head? = some second then .token both none 1 else .token one none 0

def unescape? : Char → Option Char
  | 'n' => some '\n'
  | 't' => some '\t'
  | 'r' => some '\r'
  | '\\' => some '\\'
  | '"' => some '"'
  | '\x27' => some '\x27'
  | _ => none

/-- Reads a string from inside its quotes; `value` is what came before, last character first, and
`seen` counts the characters after the opening quote. -/
def stringBody (q : Quote) (value : List Char) (seen : Nat) : List Char → Lexed
  | [] => .fault .unterminatedString 0 (seen + 1)
  | '\\' :: cs =>
    match cs with
    | [] => .fault (.invalidEscape '\x00') (seen + 1) 1
    | c :: rest =>
      match unescape? c with
      | some d => stringBody q (d :: value) (seen + 2) rest
      | none => .fault (.invalidEscape c) (seen + 1) 2
  | c :: cs =>
    if q.includes c then
      .token .string (some (.str (String.ofList value.reverse))) (seen + 1)
    else stringBody q (c :: value) (seen + 1) cs

def targetMark (cs : List Char) : Lexed :=
  match (cs.takeWhile isTagPart).length with
  | 0 => .fault .missingTagName 0 1
  | n => .token .target none n

def int32? (n : Nat) : Option Literal :=
  if n < Nat.pow 2 31 then some (.int (Int32.ofNat n)) else none

def int64? (n : Nat) : Option Literal :=
  if n < Nat.pow 2 63 then some (.long (Int64.ofNat n)) else none

/-- The number written by `whole` and, after a point, `fraction`, in the type that the suffix
names. The flag tells whether there was a suffix. -/
def numberLiteral (whole fraction : List Char) (suffix : Option Char) : Option Literal × Bool :=
  let n := digitsValue (whole ++ fraction)
  let scale := fraction.length
  match suffix with
  | some 'f' | some 'F' => (some (.float (Binary.ofScientific .single false n (-scale))), true)
  | some 'd' | some 'D' => (some (.double (Binary.ofScientific .double false n (-scale))), true)
  | some 'm' | some 'M' => (some (.decimal ⟨n, scale⟩), true)
  | some 'l' | some 'L' =>
    if fraction = [] then (int64? n, true)
    else (some (.double (Binary.ofScientific .double false n (-scale))), false)
  | _ =>
    if fraction = [] then (int32? n <|> int64? n, false)
    else (some (.double (Binary.ofScientific .double false n (-scale))), false)

/-- The digits after a point; the point belongs to the number when a digit follows it. -/
def fractionDigits : List Char → List Char
  | '.' :: cs => cs.takeWhile Char.isDigit
  | _ => []

def number (c : Char) (cs : List Char) : Lexed :=
  let whole := c :: cs.takeWhile Char.isDigit
  let rest := cs.dropWhile Char.isDigit
  let fraction := fractionDigits rest
  let rest := if fraction = [] then rest else rest.drop (fraction.length + 1)
  let (literal, suffixed) := numberLiteral whole fraction rest.head?
  let rest := if suffixed then rest.drop 1 else rest
  let tail := (rest.takeWhile isNamePart).length
  let more := cs.length - rest.length + tail
  if 0 < tail then .fault .invalidNumber 0 (more + 1)
  else
    match literal with
    | some literal => .token .number (some literal) more
    | none => .fault .numberRange 0 (more + 1)

def name (c : Char) (cs : List Char) : Lexed :=
  let tail := cs.takeWhile isNamePart
  let kind :=
    match Keyword.ofText? (String.ofList (c :: tail)) with
    | some k => .keyword k
    | none => .identifier
  .token kind none tail.length

def lex (c : Char) (cs : List Char) : Lexed :=
  match c with
  | '(' => .token .leftParen none 0
  | ')' => .token .rightParen none 0
  | '[' => .token .leftBracket none 0
  | ']' => .token .rightBracket none 0
  | ',' => .token .comma none 0
  | '+' => .token .plus none 0
  | '*' => .token .star none 0
  | '/' => .token .slash none 0
  | '%' => .token .percent none 0
  | '|' => .token .pipe none 0
  | '-' => either '>' .arrow .minus cs
  | '.' => either '?' .dotQuestion .dot cs
  | '!' => either '=' .bangEqual .bang cs
  | '=' => either '=' .equalEqual .equal cs
  | '>' => either '=' .greaterEqual .greater cs
  | '<' => either '=' .lessEqual .less cs
  | '?' => if cs.head? = some '?' then .token .coalesce none 1 else .fault .halfCoalesce 0 1
  | '@' => targetMark cs
  | c =>
    match Quote.of? c with
    | some q => stringBody q [] 0 cs
    | none =>
      if c.isDigit then number c cs
      else if isNameStart c then name c cs
      else .fault (.unexpected c) 0 1

end Lexed

end DocTemplate
