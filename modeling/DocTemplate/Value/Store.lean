import DocTemplate.Value.Basic
import DocTemplate.Value.Entries

namespace DocTemplate

inductive Snapshot where
  | atom (a : Atom)
  | list (items : List Snapshot)
  | map (entries : List (String × Snapshot))
  deriving Repr, Inhabited

/-- A record of the program that embeds the template; its fields are all that it holds. -/
structure HostObject where
  typeName : String
  fields : Entries Value
  deriving Repr, Inhabited

/-- The variables of one scope, and the cell of the scope around it. -/
structure Scope where
  names : Entries Value
  parent : Option Nat
  deriving Repr, Inhabited

structure Store where
  maps : Array (Entries Value)
  hosts : Array HostObject
  scopes : Array Scope
  /-- How many rewriters were made. -/
  rewriters : Nat
  /-- What host functions wrote down, last note first. -/
  notes : List Snapshot
  deriving Repr, Inhabited

namespace Value

mutual

/-- The picture of a value, given the pictures of maps. -/
def snapshotWith (ofMap : Nat → Option Snapshot) : Value → Option Snapshot
  | atom a => some (.atom a)
  | list items => (snapshotsWith ofMap items).map .list
  | map cell => ofMap cell

def snapshotsWith (ofMap : Nat → Option Snapshot) : List Value → Option (List Snapshot)
  | [] => some []
  | v :: vs => do
    let first ← snapshotWith ofMap v
    let rest ← snapshotsWith ofMap vs
    return first :: rest

end

end Value

namespace Store

def empty : Store := ⟨#[], #[], #[], 0, []⟩

def entries (s : Store) (cell : Nat) : Entries Value := s.maps.getD cell .empty

def fields (s : Store) (cell : Nat) : Entries Value :=
  ((s.hosts[cell]?).map HostObject.fields).getD .empty

def newMap (s : Store) (entries : Entries Value) : Value × Store :=
  (.map s.maps.size, { s with maps := s.maps.push entries })

def newHost (s : Store) (object : HostObject) : Value × Store :=
  (.host ⟨object.typeName, s.hosts.size⟩, { s with hosts := s.hosts.push object })

def newRewriter (s : Store) (kind : RewriterKind) : Value × Store :=
  (.rewriter ⟨s.rewriters, kind⟩, { s with rewriters := s.rewriters + 1 })

/-- The picture of a map whose maps hold one another at most `depth` deep. -/
def mapSnapshot? (s : Store) : Nat → Nat → Option Snapshot
  | 0, _ => none
  | depth + 1, cell => do
    let entries ← (s.entries cell).toList.mapM fun (key, value) => do
      let shown ← value.snapshotWith (mapSnapshot? s depth)
      return (key, shown)
    return .map entries

/-- Without a map that holds itself, no more maps than there are hold one another. -/
def snapshot? (s : Store) (v : Value) : Option Snapshot :=
  v.snapshotWith (s.mapSnapshot? s.maps.size)

/-- Null, `false`, zeros and whatever is empty do not count as true. -/
def isTruthy (s : Store) : Value → Bool
  | .atom a => a.isTruthy
  | .list items => !items.isEmpty
  | .map cell => !(s.entries cell).isEmpty

end Store

end DocTemplate
