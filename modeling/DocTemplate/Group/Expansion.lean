import DocTemplate.Group.Pairing

namespace DocTemplate

/-- A pair around `contains`, and around no `excluding`, moves outside the nearest `expand`. -/
structure ExpansionRule where
  contains : String
  excluding : Option String
  expand : String
  deriving DecidableEq, Repr, Inhabited

def ExpansionRule.fires (rule : ExpansionRule) (tags : List String) : Bool :=
  tags.contains rule.contains && !(rule.excluding.any tags.contains)

/-- How a file type expands pairs. Of two defaults for one rewriter the later one counts. -/
structure Expander where
  rules : List ExpansionRule
  insertTag : Option String
  rewriterTargets : List (String × ExpansionTarget)
  deriving DecidableEq, Repr, Inhabited

inductive Side where
  | left
  | right
  deriving DecidableEq, Repr

namespace Side

/-- The part of a tag by which a walk to this side leaves an element. -/
def exit : Side → TagPart
  | left => .opening
  | right => .closing

/-- The part of a tag by which it enters one. -/
def entry : Side → TagPart
  | left => .closing
  | right => .opening

/-- Whether a group encloses what a walk comes from. -/
def leavesPair (side : Side) (kind : GroupKind) : Bool :=
  match side with
  | left => kind.isOpener
  | right => kind.isCloser

/-- Whether a walk that passes a group enters the group's pair. -/
def entersPair (side : Side) (kind : GroupKind) : Bool :=
  match side with
  | left => kind.isCloser
  | right => kind.isOpener

end Side

/-- How many of `items` a group steps over; the nearest one comes first. `inside` is the group that
ends the pair being passed, and `depth` counts the elements entered and not left. -/
def walk (groups : Groups) (moving : Group) (side : Side) (target : Option String) :
    Option GroupId → Nat → List StreamItem → Except StructureFault Nat
  | some id, _, [] => .error ((groups.lookup id).fault .absent)
  | none, _, [] =>
    match target with
    | some name => .error (moving.fault (.noEnclosing moving.keyword name))
    | none => .ok 0
  | inside, depth, item :: items =>
    let go inside depth := (walk groups moving side target inside depth items).map (· + 1)
    match inside, item with
    | some id, .group other => go (if other = id then none else some id) depth
    | some id, item =>
      match item.tag? with
      | some (_, part) =>
        if part = side.exit then
          if depth = 0 then .error (moving.fault (.straddling moving.keyword))
          else go (some id) (depth - 1)
        else if part = side.entry then go (some id) (depth + 1)
        else go (some id) depth
      | none => go (some id) depth
    | none, .group other =>
      let g := groups.lookup other
      -- whole pairs are passed; a pair around the moving group ends the walk
      if target.isNone || side.leavesPair g.kind then .ok 0
      else if side.entersPair g.kind then go g.partner depth
      else go none depth
    | none, item =>
      match item.tag? with
      | some (name, part) =>
        if part = side.entry then go none (depth + 1)
        else if part = side.exit then
          if 0 < depth then go none (depth - 1)
          else if target = some name then .ok 1
          else go none depth
        else go none depth
      | none => go none depth

/-- What stands before the group, nearest item first, and what stands after it. -/
def splitAtGroup? (id : GroupId) : List StreamItem → List StreamItem →
    Option (List StreamItem × List StreamItem)
  | _, [] => none
  | before, item :: items =>
    if item = .group id then some (before, items) else splitAtGroup? id (item :: before) items

def moveGroup (groups : Groups) (side : Side) (target : Option String) (id : GroupId)
    (items : List StreamItem) : Except StructureFault (List StreamItem) :=
  let moving := groups.lookup id
  match splitAtGroup? id [] items with
  | none => .error (moving.fault .absent)
  | some (before, after) =>
    match side with
    | .left => (walk groups moving .left target none 0 before).map fun n =>
        (before.drop n).reverse ++ .group id :: (before.take n).reverse ++ after
    | .right => (walk groups moving .right target none 0 after).map fun n =>
        before.reverse ++ after.take n ++ .group id :: after.drop n

def tagsBetween (opener closer : GroupId) (items : List StreamItem) : List String :=
  let after := (items.dropWhile (· ≠ .group opener)).drop 1
  (after.takeWhile (· ≠ .group closer)).filterMap fun item => item.tag?.map Prod.fst

def Expander.rewriterTarget? (e : Expander) (g : Group) : Option ExpansionTarget :=
  if g.kind = .insert ∨ g.kind = .rewrite then
    match g.tokens[2]? with
    | some t => if t.kind = .identifier then e.rewriterTargets.reverse.lookup t.lexeme else none
    | none => none
  else none

/-- A target that is written wins; then the default of the rewriter's function; then the last rule
that fires for the tags between the pair; then, for an insertion, the tag for raw markup. -/
def Expander.target (e : Expander) (groups : Groups) (opener closer : GroupId)
    (items : List StreamItem) : ExpansionTarget :=
  let g := groups.lookup opener
  if g.target ≠ .auto then g.target
  else
    match e.rewriterTarget? g with
    | some target => target
    | none =>
      let tags := tagsBetween opener closer items
      match e.rules.reverse.find? (·.fires tags) with
      | some rule => .tag rule.expand
      | none =>
        match g.kind, e.insertTag with
        | .insert, some tag => .tag tag
        | _, _ => .stay

def Expander.expandPair (e : Expander) (stream : TemplateStream) (opener : GroupId) :
    Except StructureFault TemplateStream := do
  let g := stream.groups.lookup opener
  match g.partner with
  | none => throw (g.fault .unpaired)
  | some closer =>
    let target := e.target stream.groups opener closer stream.items
    let groups := (stream.groups.setTarget opener target).setTarget closer target
    let move (tag : Option String) : Except StructureFault TemplateStream := do
      let items ← moveGroup groups .left tag opener stream.items
      let items ← moveGroup groups .right tag closer items
      return ⟨items, groups⟩
    match target with
    | .tag name => move (some name)
    | .outermost => move none
    | .stay | .auto => return { stream with groups }

def Expander.expandGroup (e : Expander) (stream : TemplateStream) (id : GroupId) :
    Except StructureFault TemplateStream :=
  let kind := (stream.groups.lookup id).kind
  if kind = .run then
    (moveGroup stream.groups .left none id stream.items).map fun items => { stream with items }
  else if kind.isOpener then e.expandPair stream id
  else .ok stream

/-- Pairs the groups and moves them, in the order in which they stand at first: outer pairs are in
place before the pairs inside of them. -/
def Expander.expand (e : Expander) (stream : TemplateStream) :
    Except StructureFault TemplateStream := do
  let stream ← pairGroups stream
  (groupIds stream.items).foldlM e.expandGroup stream

end DocTemplate
