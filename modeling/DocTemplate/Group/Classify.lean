import DocTemplate.Group.Basic

namespace DocTemplate

inductive GroupCause where
  | scan (cause : ScanCause)
  | unclosed (closing : String)
  | twoTargets
  | targetNotLast
  | targetNotOnOpener
  deriving DecidableEq, Repr

def GroupCause.message : GroupCause → String
  | scan cause => cause.message
  | unclosed closing => (ScanCause.groupEnd closing).message
  | twoTargets => "A group may carry only one expansion target."
  | targetNotLast => "An expansion target must be the last element of its group."
  | targetNotOnOpener =>
    "Expansion targets may only annotate 'for', 'if', 'insert' or 'rewrite' groups."

abbrev GroupFault := Fault GroupCause

/-- Short names for tags. Of two entries of one nickname the later one counts. -/
abbrev Nicknames := List (String × String)

/-- The tag of a nickname; any other name is a tag itself. -/
def Nicknames.resolve (nicknames : Nicknames) (name : String) : String :=
  (nicknames.reverse.lookup name).getD name

def targetFault (cause : GroupCause) (t : Token) : GroupFault :=
  ⟨cause, t.span, "@" ++ t.lexeme⟩

/-- The target that a group names, and its other tokens. -/
def takeTarget (tokens : List Token) : Except GroupFault (Option Token × List Token) :=
  match tokens.filter (·.kind = .target) with
  | [] => .ok (none, tokens)
  | [t] =>
    if (tokens.reverse[1]?).map Token.kind = some .target then
      .ok (some t, tokens.filter (·.kind ≠ .target))
    else .error (targetFault .targetNotLast t)
  | _ :: t :: _ => .error (targetFault .twoTargets t)

def Group.ofTokens (tokens : List Token) (span : Span) (nicknames : Nicknames) :
    Except GroupFault Group := do
  let (mark, tokens) ← takeTarget tokens
  let kind := GroupKind.ofToken ((tokens[1]?).map Token.kind)
  match mark with
  | some t => if !kind.isOpener then throw (targetFault .targetNotOnOpener t)
  | none => pure ()
  let target : ExpansionTarget :=
    match kind with
    | .placeholder => .stay
    | .run => .outermost
    | .finish => .auto
    | _ =>
      match mark with
      | some t => .tag (nicknames.resolve t.lexeme)
      | none => .auto
  let direction : Direction :=
    match kind with
    | .placeholder => .both
    | .finish => .right
    | _ => .left
  return ⟨tokens, kind, span, target, direction, kind.isOpener || kind.isCloser, none⟩

end DocTemplate
