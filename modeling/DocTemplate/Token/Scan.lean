import DocTemplate.Diagnostic
import DocTemplate.Text.Located
import DocTemplate.Token.Lexeme

namespace DocTemplate

abbrev ScanFault := Fault ScanCause

/-- The text of a token without the `@` of a target. -/
def TokenKind.lexemeOf (kind : TokenKind) (cs : List Char) : String :=
  String.ofList (if kind = .target then cs.drop 1 else cs)

/-- The tokens of the text that starts at byte `pos`, after `skip` characters that belong to the
lexeme before. -/
def scanFrom (source : LocatedText) (pos : Nat) : Nat → List Char → Except ScanFault (List Token)
  | _, [] => .ok []
  | skip + 1, c :: cs => scanFrom source (pos + c.utf8Size) skip cs
  | 0, c :: cs =>
    if isBlank c then scanFrom source (pos + c.utf8Size) 0 cs
    else
      match Lexed.lex c cs with
      | .token kind literal more =>
        let text := c :: cs.take more
        let token : Token :=
          ⟨kind, kind.lexemeOf text, source.span pos (pos + byteLength text), literal⟩
        (scanFrom source (pos + c.utf8Size) more cs).map (token :: ·)
      | .fault cause skip length =>
        let start := pos + byteLength ((c :: cs).take skip)
        let text := ((c :: cs).drop skip).take length
        .error ⟨cause, source.span start (start + byteLength text), String.ofList text⟩

/-- The tokens of a group, its two delimiters included. -/
def scanGroup (source : LocatedText) (delimiters : Delimiters) :
    Except ScanFault (List Token) := do
  let text := source.text.toList
  let opening := delimiters.opening.toList
  let closing := delimiters.closing.toList
  let size := byteLength text
  if !opening.isPrefixOf text then
    throw ⟨.groupStart delimiters.opening, source.span 0 (min size 1), source.text⟩
  if text.length < opening.length + closing.length || !closing.isSuffixOf text then
    throw ⟨.groupEnd delimiters.closing, source.fullSpan, source.text⟩
  let start := byteLength opening
  let stop := size - byteLength closing
  let inner := (text.drop opening.length).take (text.length - opening.length - closing.length)
  let tokens ← scanFrom source start 0 inner
  return ⟨.opening, delimiters.opening, source.span 0 start, none⟩ :: tokens ++
    [⟨.closing, delimiters.closing, source.span stop size, none⟩]

end DocTemplate
