import DocTemplate.Value.Store

namespace DocTemplate

def Atom.toText : Atom → String
  | null => "null"
  | bool b => if b then "true" else "false"
  | number n => n.toText
  | str s => s
  | date d => d.toText
  | dateTime d => d.toText
  | zoned z => z.toText
  | host object => object.typeName
  | function closure => "<fn(" ++ ", ".intercalate closure.params ++ ")>"
  | native f => "<native fn " ++ f.name ++ ">"
  | rewriter _ => "<rewriter>"

namespace Snapshot

mutual

def toText : Snapshot → String
  | atom a => a.toText
  | list items => "[" ++ ", ".intercalate (texts items) ++ "]"
  | map entries => "\x7b" ++ ", ".intercalate (entryTexts entries) ++ "\x7d"

def texts : List Snapshot → List String
  | [] => []
  | v :: vs => toText v :: texts vs

def entryTexts : List (String × Snapshot) → List String
  | [] => []
  | (key, v) :: rest => (key ++ "=" ++ toText v) :: entryTexts rest

end

/-- The text in a document: null is left out. -/
def outputText : Snapshot → String
  | atom .null => ""
  | v => v.toText

end Snapshot

namespace Store

def text? (s : Store) (v : Value) : Option String := (s.snapshot? v).map Snapshot.toText

def outputText? (s : Store) (v : Value) : Option String := (s.snapshot? v).map Snapshot.outputText

end Store

end DocTemplate
