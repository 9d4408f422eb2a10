import DocTemplate.Run.Host

namespace DocTemplate

namespace Value

/-- A count as a value; it stops at the largest integer of its type. -/
def count (n : Nat) : Value := int (min n 2147483647)

def listProperty? (items : List Value) : String → Option Value
  | "size" => some (count items.length)
  | "first" => some (items.head?.getD null)
  | "last" => some (items.getLast?.getD null)
  | "isEmpty" => some (bool items.isEmpty)
  | _ => none

def textProperty? (text : String) : String → Option Value
  | "length" => some (count text.length)
  | "isEmpty" => some (bool (text == ""))
  | _ => none

end Value

namespace Store

def setEntry (s : Store) (cell : Nat) (key : String) (value : Value) : Store :=
  { s with maps := s.maps.modify cell fun entries => entries.insert key value }

def setFields (s : Store) (cell : Nat) (fields : Entries Value) : Store :=
  { s with hosts := s.hosts.modify cell fun object => { object with fields := fields } }

end Store

namespace Run

def change (f : Store → Store) : Run Unit := modify f

def undefinedProperty {α : Type} (object : Value) (name : String) : Run α :=
  raise (.property (.undefined name object.typeName))

def getProperty (host : Host) (object : Value) (name : String) : Run Value :=
  match object with
  | .null => raise (.property (.getOfNull name))
  | .map cell => read fun s => ((s.entries cell).get? name).getD .null
  | .list items => (Value.listProperty? items name).elim (undefinedProperty object name) pure
  | .str text => (Value.textProperty? text name).elim (undefinedProperty object name) pure
  | .host ref =>
    match host.field? ref.typeName name with
    | some field => read fun s => field.get (s.fields ref.cell)
    | none => undefinedProperty object name
  | _ => undefinedProperty object name

/-- Changes what a host object holds. A change that is refused leaves the object as it is. -/
def changeFields (cell : Nat) (f : Entries Value → Except Stop (Entries Value)) : Run Unit := do
  match f (← read fun s => s.fields cell) with
  | .ok fields => change fun s => s.setFields cell fields
  | .error stop => throw stop

def setProperty (host : Host) (object : Value) (name : String) (value : Value) : Run Unit :=
  match object with
  | .null => raise (.property (.setOnNull name))
  | .map cell => change fun s => s.setEntry cell name value
  | .host ref =>
    match host.field? ref.typeName name with
    | none => undefinedProperty object name
    | some ⟨_, _, none⟩ => raise (.property (.readOnly name object.typeName))
    | some ⟨_, _, some set⟩ => changeFields ref.cell fun fields => set fields value
  | _ => raise (.property (.notSettable name object.typeName))

end Run

end DocTemplate
