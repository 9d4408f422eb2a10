import DocTemplate.Output.Token

namespace DocTemplate

inductive RepairAction where
  /-- Adds markup before the closing tag. -/
  | insert (xml : String)
  /-- Removes the element. -/
  | drop
  /-- Removes the element and, when that closes, the nearest element of the name around it. -/
  | dropWithin (parent : String)
  deriving DecidableEq, Repr, Inhabited

/-- Every element `tag` has to hold an element of one of the names in `required`. -/
structure RepairRule where
  tag : String
  required : List String
  action : RepairAction
  deriving DecidableEq, Repr, Inhabited

namespace Repair

/-- An open element: its opening tag and what came after that, last token first, and the names of
the elements inside of it. -/
structure Frame where
  name : String
  opening : OutputToken
  body : List OutputToken
  inside : List String
  doomed : Bool
  deriving DecidableEq, Repr

/-- The open elements, innermost first, and what stands before all of them, last token first. -/
structure State where
  stack : List Frame
  before : List OutputToken
  deriving DecidableEq, Repr

def addName (names : List String) (name : String) : List String :=
  if names.contains name then names else name :: names

def addNames (names more : List String) : List String := more.foldl addName names

/-- The names of the elements in a piece of markup; none when it cannot be read. -/
def tagNames (xml : String) : List String :=
  match tokenize [] xml with
  | .ok tokens => tokens.filterMap fun t => t.tag?.map Prod.fst
  | .error _ => []

def brokenRule? (rules : List RepairRule) (f : Frame) : Option RepairRule :=
  rules.find? fun rule => rule.tag == f.name && !(rule.required.any f.inside.contains)

namespace State

def emit (s : State) (token : OutputToken) : State :=
  match s.stack with
  | f :: stack => { s with stack := { f with body := token :: f.body } :: stack }
  | [] => { s with before := token :: s.before }

/-- Records the names of elements that stand in the innermost open one. -/
def see (s : State) (names : List String) : State :=
  match s.stack with
  | f :: stack => { s with stack := { f with inside := addNames f.inside names } :: stack }
  | [] => s

def finish (s : State) (f : Frame) (last : List OutputToken) : State :=
  let s := (f.opening :: f.body.reverse ++ last).foldl emit s
  s.see (f.name :: f.inside)

def doom (name : String) : List Frame → List Frame
  | [] => []
  | f :: stack => if f.name = name then { f with doomed := true } :: stack else f :: doom name stack

-- Elements are judged when they close, from the inside out: once every row of a table is dropped,
-- the table is dropped as well.
def close (rules : List RepairRule) (s : State) (f : Frame) (closing : OutputToken) : State :=
  if f.doomed then s
  else
    match (brokenRule? rules f).map RepairRule.action with
    | none => s.finish f [closing]
    | some (.insert xml) =>
      s.finish { f with inside := addNames f.inside (tagNames xml) } [.markup xml, closing]
    | some .drop => s
    | some (.dropWithin parent) => { s with stack := doom parent s.stack }

def step (rules : List RepairRule) (s : State) (token : OutputToken) : State :=
  match token with
  | .raw (.tag name .opening _ _ _) => { s with stack := ⟨name, token, [], [], false⟩ :: s.stack }
  | .raw (.tag name .selfClosing _ _ _) => (s.see [name]).emit token
  | .raw (.tag name .closing _ _ _) =>
    match s.stack with
    | f :: stack => if f.name = name then close rules { s with stack } f token else s.emit token
    | [] => s.emit token
  | .markup xml => (s.see (tagNames xml)).emit token
  | token => s.emit token

def tokens (s : State) : List OutputToken :=
  s.before.reverse ++ s.stack.reverse.flatMap fun f => f.opening :: f.body.reverse

end State

end Repair

/-- Rendered tokens in which every rule holds. -/
def repair (rules : List RepairRule) (tokens : List OutputToken) : List OutputToken :=
  if rules = [] then tokens
  else (tokens.foldl (Repair.State.step rules) ⟨[], []⟩).tokens

end DocTemplate
