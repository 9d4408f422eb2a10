import DocTemplate.Group.Basic

namespace DocTemplate

inductive StructureCause where
  | strayEnd
  | missingEnd (keyword : String)
  | unpaired
  | absent
  | noEnclosing (keyword target : String)
  | straddling (keyword : String)
  deriving DecidableEq, Repr

def StructureCause.message : StructureCause → String
  | strayEnd => "Found 'end' without a matching opening group."
  | missingEnd keyword => s!"Missing 'end' for this '{keyword}' group."
  | unpaired => "Control group was not paired before expansion."
  | absent => "Template group is missing from the token stream."
  | noEnclosing keyword target =>
    s!"Cannot expand '{keyword}' group further: no enclosing <{target}> element."
  | straddling keyword =>
    s!"Cannot expand '{keyword}' group across a sibling group pair " ++
      "that spans its enclosing element."

abbrev StructureFault := Fault StructureCause

def Group.fault (g : Group) (cause : StructureCause) : StructureFault := ⟨cause, g.span, g.keyword⟩

/-- The fault of a closer where nothing is open. One without tokens is named by its keyword. -/
def Group.strayFault (g : Group) : StructureFault :=
  ⟨.strayEnd, g.span, (g.head?.map Token.lexeme).getD "end"⟩

/-- Pairs the groups of the given numbers; `opened` has the openers before them that wait for
their `end`, the last one first. The table has the pairs found before a fault. -/
def pairFrom (groups : Groups) (opened : List GroupId) :
    List GroupId → Groups × Option StructureFault
  | [] =>
    match opened with
    | [] => (groups, none)
    | id :: _ =>
      let g := groups.lookup id
      (groups, some (g.fault (.missingEnd g.keyword)))
  | id :: ids =>
    let g := groups.lookup id
    if g.kind.isOpener then pairFrom groups (id :: opened) ids
    else if g.kind.isCloser then
      match opened with
      | [] => (groups, some g.strayFault)
      | opener :: opened => pairFrom (groups.link opener id) opened ids
    else pairFrom groups opened ids

def pairGroups (stream : TemplateStream) : Except StructureFault TemplateStream :=
  match pairFrom stream.groups [] (groupIds stream.items) with
  | (groups, none) => .ok { stream with groups }
  | (_, some fault) => .error fault

end DocTemplate
