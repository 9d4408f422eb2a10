import DocTemplate.Proofs.Outcome
import DocTemplate.Proofs.Text.Decoding
import DocTemplate.Token.Scan

namespace DocTemplate

structure Lexeme where
  kind : TokenKind
  literal : Option Literal
  start : Nat
  text : List Char
  deriving DecidableEq, Repr

def Lexeme.stop (l : Lexeme) : Nat := l.start + l.text.length

def Lexeme.range (l : Lexeme) : Nat × Nat := (l.start, l.stop)

structure LexemeFault where
  cause : ScanCause
  start : Nat
  text : List Char
  deriving DecidableEq, Repr

/-- The lexemes of what follows the first `i` characters of a text, after `skip` characters that
belong to the lexeme before. -/
def lexemesFrom (i : Nat) : Nat → List Char → Except LexemeFault (List Lexeme)
  | _, [] => .ok []
  | skip + 1, _ :: cs => lexemesFrom (i + 1) skip cs
  | 0, c :: cs =>
    if isBlank c then lexemesFrom (i + 1) 0 cs
    else
      match Lexed.lex c cs with
      | .token kind literal more =>
        (lexemesFrom (i + 1) more cs).map (⟨kind, literal, i, c :: cs.take more⟩ :: ·)
      | .fault cause skip length => .error ⟨cause, i + skip, ((c :: cs).drop skip).take length⟩

def lexemes (text : List Char) : Except LexemeFault (List Lexeme) := lexemesFrom 0 0 text

def Lexeme.token (source : LocatedText) (base : Nat) (text : List Char) (l : Lexeme) : Token :=
  let start := base + byteLength (text.take l.start)
  ⟨l.kind, l.kind.lexemeOf l.text, source.span start (start + byteLength l.text), l.literal⟩

def LexemeFault.fault (source : LocatedText) (base : Nat) (text : List Char) (f : LexemeFault) :
    ScanFault :=
  let start := base + byteLength (text.take f.start)
  ⟨f.cause, source.span start (start + byteLength f.text), String.ofList f.text⟩

section

theorem lexemesFrom_skip (i more : Nat) (cs : List Char) :
    lexemesFrom i more cs = lexemesFrom (i + min more cs.length) 0 (cs.drop more) := by
  induction cs generalizing i more with
  | nil => cases more <;> rfl
  | cons c cs ih =>
    cases more with
    | zero => simp
    | succ more =>
      rw [lexemesFrom, ih, List.drop_succ_cons, List.length_cons]
      congr 1
      omega

theorem scanFrom_eq (source : LocatedText) (base skip : Nat) (seen cs : List Char) :
    scanFrom source (base + byteLength seen) skip cs =
      ((lexemesFrom seen.length skip cs).mapError
        (LexemeFault.fault source base (seen ++ cs))).map
          (List.map (Lexeme.token source base (seen ++ cs))) := by
  induction cs generalizing seen skip with
  | nil => cases skip <;> rfl
  | cons c cs ih =>
    have hpos : base + byteLength seen + c.utf8Size = base + byteLength (seen ++ [c]) := by
      rw [byteLength_append, Nat.add_assoc]
      rfl
    have hlen : seen.length + 1 = (seen ++ [c]).length := by simp
    have htext : seen ++ c :: cs = (seen ++ [c]) ++ cs := by simp
    have hnext (skip : Nat) := ih skip (seen ++ [c])
    rw [← hpos, ← hlen, ← htext] at hnext
    cases skip with
    | succ skip => exact hnext skip
    | zero =>
      rw [scanFrom, lexemesFrom]
      split
      · exact hnext 0
      · cases hlex : Lexed.lex c cs with
        | token kind literal more =>
          dsimp only
          rw [hnext more]
          cases lexemesFrom (seen.length + 1) more cs with
          | error f => rfl
          | ok ls => simp [Except.map, Lexeme.token]
        | fault cause skip length =>
          simp [Except.map, LexemeFault.fault, List.take_length_add_append, byteLength_append,
            Nat.add_assoc]

end

theorem scanFrom_lexemes (source : LocatedText) (base : Nat) (text : List Char) :
    scanFrom source base 0 text =
      ((lexemes text).mapError (LexemeFault.fault source base text)).map
        (List.map (Lexeme.token source base text)) :=
  scanFrom_eq source base 0 [] text

section

variable {source source' : LocatedText} {delimiters : Delimiters} {inner : List Char}

def groupTokens (source : LocatedText) (delimiters : Delimiters) (inner : List Char)
    (ls : List Lexeme) : List Token :=
  let start := byteLength delimiters.opening.toList
  let size := byteLength source.text.toList
  ⟨.opening, delimiters.opening, source.span 0 start, none⟩ ::
    ls.map (Lexeme.token source start inner) ++
      [⟨.closing, delimiters.closing,
        source.span (size - byteLength delimiters.closing.toList) size, none⟩]

/-- A text between delimiters has the tokens of its lexemes, and no other faults. -/
theorem scanGroup_eq (h : source.text.toList =
      delimiters.opening.toList ++ inner ++ delimiters.closing.toList) :
    scanGroup source delimiters =
      ((lexemes inner).mapError
        (LexemeFault.fault source (byteLength delimiters.opening.toList) inner)).map
          (groupTokens source delimiters inner) := by
  have hopens : delimiters.opening.toList.isPrefixOf source.text.toList = true := by
    rw [h, List.append_assoc, List.isPrefixOf_iff_prefix]
    exact List.prefix_append _ _
  have hcloses : delimiters.closing.toList.isSuffixOf source.text.toList = true := by
    rw [h, List.isSuffixOf_iff_suffix]
    exact List.suffix_append _ _
  have hlong : ¬ source.text.toList.length <
      delimiters.opening.toList.length + delimiters.closing.toList.length := by
    rw [h]
    simp
  have hinner : (source.text.toList.drop delimiters.opening.toList.length).take
      (source.text.toList.length - delimiters.opening.toList.length -
        delimiters.closing.toList.length) = inner := by
    rw [h, List.append_assoc, List.drop_left]
    simp
  rw [scanGroup]
  simp only [hopens, hcloses, hlong, hinner, scanFrom_lexemes]
  cases lexemes inner <;> rfl

end

end DocTemplate
