import DocTemplate.Value.Store

namespace DocTemplate

namespace Store

def newScope (s : Store) (parent : Option Nat) : Nat × Store :=
  (s.scopes.size, { s with scopes := s.scopes.push ⟨.empty, parent⟩ })

def names (s : Store) (scope : Nat) : Entries Value :=
  ((s.scopes[scope]?).map Scope.names).getD .empty

def parent? (s : Store) (scope : Nat) : Option Nat := (s.scopes[scope]?).bind Scope.parent

def ancestor? (s : Store) (scope : Nat) : Nat → Option Nat
  | 0 => some scope
  | distance + 1 => (s.parent? scope).bind fun outer => ancestor? s outer distance

/-- A scope and those around it, at most `fuel` of them. -/
def outward (s : Store) : Nat → Nat → List Nat
  | 0, _ => []
  | fuel + 1, scope => scope :: ((s.parent? scope).map (outward s fuel)).getD []

/-- A scope and all around it, innermost first. -/
def chain (s : Store) (scope : Nat) : List Nat := s.outward s.scopes.size scope

def depth (s : Store) (scope : Nat) : Nat := (s.chain scope).length - 1

def define (s : Store) (scope : Nat) (name : String) (value : Value) : Store :=
  { s with
    scopes := s.scopes.modify scope fun sc => { sc with names := sc.names.insert name value } }

def defineAll (s : Store) (scope : Nat) (pairs : List (String × Value)) : Store :=
  pairs.foldl (fun s (name, value) => s.define scope name value) s

def lookup? (s : Store) (scope : Nat) (name : String) : Option Value := (s.names scope).get? name

def lookupAt? (s : Store) (scope distance : Nat) (name : String) : Option Value :=
  (s.ancestor? scope distance).bind fun outer => s.lookup? outer name

/-- Gives a name that the scope has a new value; tells whether it has the name. -/
def assign (s : Store) (scope : Nat) (name : String) (value : Value) : Bool × Store :=
  if (s.names scope).contains name then (true, s.define scope name value) else (false, s)

def assignAt (s : Store) (scope distance : Nat) (name : String) (value : Value) : Bool × Store :=
  match s.ancestor? scope distance with
  | some outer => s.assign outer name value
  | none => (false, s)

def clear (s : Store) (scope : Nat) : Store :=
  { s with scopes := s.scopes.modify scope fun sc => { sc with names := .empty } }

/-- Forgets the variables of a scope and of all around it. -/
def clearChain (s : Store) (scope : Nat) : Store := (s.chain scope).foldl clear s

/-- Forgets the variables of the scope `first` and of all that were made after it. -/
def release (s : Store) (first : Nat) : Store :=
  { s with
    scopes := s.scopes.mapIdx fun i scope =>
      if first ≤ i then { scope with names := .empty } else scope }

end Store

end DocTemplate
