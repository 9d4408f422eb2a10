import DocTemplate.Expr.Basic

namespace DocTemplate

inductive ParseCause where
  | groupStart
  | endKeyword
  | closing (text context : String)
  | strayEnd
  | missingEnd (keyword : String)
  | loopVariable
  | insideKeyword
  | variableName
  | argumentsEnd
  | memberName
  | literal
  | groupingEnd
  | expression
  | listEnd
  | thenKeyword
  | whenKeyword
  | chooseEnd
  | assignmentTarget
  | tooDeep
  deriving DecidableEq, Repr

def ParseCause.message : ParseCause → String
  | groupStart => "Expected the start of a template group."
  | endKeyword => "Expected 'end'."
  | closing text context => s!"Expected '{text}' {context}."
  | strayEnd => "Unexpected 'end' without an open block."
  | missingEnd keyword => s!"Missing 'end' for '{keyword}' block."
  | loopVariable => "Expected a loop variable name after 'for'."
  | insideKeyword => "Expected 'in' after the loop variable."
  | variableName => "Expected a variable name after 'var'."
  | argumentsEnd => "Expected ')' after arguments."
  | memberName => "Expected a property name after '.'."
  | literal => "Invalid literal."
  | groupingEnd => "Expected ')' after expression."
  | expression => "Expected an expression."
  | listEnd => "Expected ']' after list elements."
  | thenKeyword => "Expected 'then' after 'when' condition."
  | whenKeyword => "Expected 'when' after 'case'."
  | chooseEnd => "Expected 'end' after 'case' branches."
  | assignmentTarget => "Invalid assignment target."
  | tooDeep => "Expression is nested too deeply."

abbrev ParseFault := Fault ParseCause

/-- The tokens left of a group and the number of the next node. `last` stands for what follows the
last token, and `closer` is the text of the delimiter that the group ends with. -/
structure ParseState where
  rest : List Token
  nextId : Nat
  last : Token
  closer : String
  deriving Repr

namespace ParseState

def enter (tokens : List Token) (nextId : Nat) : ParseState :=
  let stop := (tokens.getLast?.map (·.span.stop)).getD 0
  let closer := (tokens.getLast?.filter (·.kind = .closing)).map Token.lexeme
  ⟨tokens, nextId, ⟨.endOfGroup, "", .point stop, none⟩,
    closer.getD Delimiters.standard.closing⟩

def current (s : ParseState) : Token := s.rest.head?.getD s.last

def kind (s : ParseState) : TokenKind := s.current.kind

def advance (s : ParseState) : ParseState := { s with rest := s.rest.tail }

def fail {α : Type} (s : ParseState) (cause : ParseCause) : Except ParseFault (α × ParseState) :=
  .error (s.current.fault cause)

def expect (s : ParseState) (kind : TokenKind) (cause : ParseCause) :
    Except ParseFault (Token × ParseState) :=
  if s.kind = kind then .ok (s.current, s.advance) else s.fail cause

def number (s : ParseState) (span : Span) (node : Site → Expr) : Expr × ParseState :=
  (node ⟨s.nextId, span⟩, { s with nextId := s.nextId + 1 })

end ParseState

/-- What follows the `(` of a parameter list: names with commas between them, and `)`. -/
def closedParams? : List Token → Option (List Token × List Token)
  | name :: mark :: rest =>
    if name.kind ≠ .identifier then none
    else if mark.kind = .rightParen then some ([name], rest)
    else if mark.kind = .comma then
      (closedParams? rest).map fun (names, rest) => (name :: names, rest)
    else none
  | _ => none

/-- The parameters of a function whose text starts here, and what follows its arrow. -/
def functionHead? (tokens : List Token) : Option (List Token × List Token) :=
  let beforeArrow : Option (List Token × List Token) :=
    match tokens with
    | t :: rest =>
      if t.kind = .identifier then some ([t], rest)
      else if t.kind = .leftParen then
        match rest with
        | c :: rest' => if c.kind = .rightParen then some ([], rest') else closedParams? rest
        | [] => none
      else none
    | [] => none
  match beforeArrow with
  | some (params, arrow :: rest) => if arrow.kind = .arrow then some (params, rest) else none
  | _ => none

def Token.constant? (t : Token) : Option Constant :=
  match t.kind with
  | .number | .string => t.literal.map .literal
  | .keyword .true => some (.bool true)
  | .keyword .false => some (.bool false)
  | .keyword .null => some .null
  | _ => none

/-- Property names can be keywords. -/
def Token.isMemberName (t : Token) : Bool :=
  t.kind == .identifier || (Keyword.ofText? t.lexeme).isSome

mutual

/-- An assignment, or what can stand left of one. -/
def parseExpr : Nat → ParseState → Except ParseFault (Expr × ParseState)
  | 0, s => s.fail .tooDeep
  | n + 1, s => do
    let (target, s) ← parseBinary n 0 s
    if s.kind = .equal then
      let equals := s.current
      let (value, s) ← parseExpr n s.advance
      match target.assignTo? value with
      | some e => return (e, s)
      | none => throw (equals.fault .assignmentTarget)
    else return (target, s)

-- Operands joined by operators of at least the level `least`.
def parseBinary : Nat → Nat → ParseState → Except ParseFault (Expr × ParseState)
  | 0, _, s => s.fail .tooDeep
  | n + 1, least, s => do
    let (left, s) ← parseUnary n s
    parseOperators n least left s

/-- Joins an operand with the operators and operands that follow. -/
def parseOperators : Nat → Nat → Expr → ParseState → Except ParseFault (Expr × ParseState)
  | 0, _, _, s => s.fail .tooDeep
  | n + 1, least, left, s =>
    match Operator.ofToken? s.kind with
    | none => .ok (left, s)
    | some op =>
      if op.level < least then .ok (left, s)
      else do
        let token := s.current
        let (right, s) ← parseBinary n (op.level + 1) s.advance
        let (node, s) := s.number (left.span.merge right.span) (.binary · op token left right)
        parseOperators n least node s

def parseUnary : Nat → ParseState → Except ParseFault (Expr × ParseState)
  | 0, s => s.fail .tooDeep
  | n + 1, s =>
    match UnaryOp.ofToken? s.kind with
    | some op => do
      let token := s.current
      let (operand, s) ← parseUnary n s.advance
      return s.number (token.span.merge operand.span) (.unary · op token operand)
    | none => do
      let (e, s) ← parsePrimary n s
      parsePostfix n e s

/-- Calls and accesses that follow an operand. -/
def parsePostfix : Nat → Expr → ParseState → Except ParseFault (Expr × ParseState)
  | 0, _, s => s.fail .tooDeep
  | n + 1, e, s =>
    match s.kind with
    | .leftParen => do
      let (args, s) ← parseItems n .rightParen s.advance
      let (paren, s) ← s.expect .rightParen .argumentsEnd
      let (node, s) := s.number (e.span.merge paren.span) (.call · e paren args)
      parsePostfix n node s
    | .dot | .dotQuestion => do
      let optional : Bool := s.kind = .dotQuestion
      let s := s.advance
      if !s.current.isMemberName then s.fail .memberName
      else
        let name := s.current
        let (node, s) := s.advance.number (e.span.merge name.span) (.get · e name optional)
        parsePostfix n node s
    | _ => .ok (e, s)

/-- Expressions with commas between them, up to a token that ends them. -/
def parseItems : Nat → TokenKind → ParseState → Except ParseFault (List Expr × ParseState)
  | 0, _, s => s.fail .tooDeep
  | n + 1, stop, s => if s.kind = stop then .ok ([], s) else parseSomeItems n s

def parseSomeItems : Nat → ParseState → Except ParseFault (List Expr × ParseState)
  | 0, s => s.fail .tooDeep
  | n + 1, s => do
    let (e, s) ← parseExpr n s
    if s.kind = .comma then
      let (es, s) ← parseSomeItems n s.advance
      return (e :: es, s)
    else return ([e], s)

def parsePrimary : Nat → ParseState → Except ParseFault (Expr × ParseState)
  | 0, s => s.fail .tooDeep
  | n + 1, s =>
    match functionHead? s.rest with
    | some (params, rest) => do
      let start := s.current.span
      let (body, s) ← parseExpr n { s with rest }
      return s.number (start.merge body.span) (.lambda · params body)
    | none =>
      let token := s.current
      match token.kind with
      | .identifier => .ok (s.advance.number token.span (.name · token))
      | .leftParen => do
        let (inner, s) ← parseExpr n s.advance
        let (close, s) ← s.expect .rightParen .groupingEnd
        return s.number (token.span.merge close.span) (.group · inner)
      | .leftBracket => do
        let (items, s) ← parseItems n .rightBracket s.advance
        let (close, s) ← s.expect .rightBracket .listEnd
        return s.number (token.span.merge close.span) (.list · items)
      | .keyword .choose => do
        let (branches, s) ← parseBranches n s.advance
        if branches.isEmpty then s.fail .whenKeyword
        else
          let (otherwise, s) ← parseOtherwise n s
          let (close, s) ← s.expect (.keyword .finish) .chooseEnd
          return s.number (token.span.merge close.span) (.choose · branches otherwise)
      | _ =>
        match token.constant? with
        | some value => .ok (s.advance.number token.span (.constant · value))
        | none =>
          s.fail (if token.kind = .number ∨ token.kind = .string then .literal else .expression)

def parseBranches : Nat → ParseState → Except ParseFault (List (Expr × Expr) × ParseState)
  | 0, s => s.fail .tooDeep
  | n + 1, s =>
    if s.kind = .keyword .upon then do
      let (condition, s) ← parseExpr n s.advance
      let (_, s) ← s.expect (.keyword .give) .thenKeyword
      let (result, s) ← parseExpr n s
      let (branches, s) ← parseBranches n s
      return ((condition, result) :: branches, s)
    else .ok ([], s)

def parseOtherwise : Nat → ParseState → Except ParseFault (Option Expr × ParseState)
  | 0, s => s.fail .tooDeep
  | n + 1, s =>
    if s.kind = .keyword .otherwise then do
      let (e, s) ← parseExpr n s.advance
      return (some e, s)
    else .ok (none, s)

end

/-- Between two tokens that are taken fewer calls than this nest. -/
def parseDepth : Nat := 12

def ParseState.expr (s : ParseState) : Except ParseFault (Expr × ParseState) :=
  parseExpr (parseDepth * (s.rest.length + 2)) s

end DocTemplate
