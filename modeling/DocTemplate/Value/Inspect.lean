import DocTemplate.Text.Quoted
import DocTemplate.Value.Text

namespace DocTemplate

/-- Floating-point numbers are positional from a ten-thousandth up to ten to the sixteenth. -/
def inspectedFloat : FloatLayout := ⟨-4, 15, 'e', false, "inf"⟩

def labelled (label text : String) : String := label ++ "(" ++ text ++ ")"

def Number.inspect : Number → String
  | byte n => labelled "Byte" (toString n.toInt)
  | short n => labelled "Short" (toString n.toInt)
  | int n => labelled "Int" (toString n.toInt)
  | long n => labelled "Long" (toString n.toInt)
  | float x => labelled "Float" (inspectedFloat.toText x)
  | double x => labelled "Double" (inspectedFloat.toText x)
  | decimal d => labelled "Decimal" d.toText

def Atom.inspect : Atom → String
  | null => "Null"
  | bool b => labelled "Bool" (if b then "true" else "false")
  | number n => n.inspect
  | str s => labelled "Str" (quoted s)
  | date d => labelled "Date" d.toText
  | dateTime d => labelled "DateTime" d.fullText
  | zoned z => labelled "Zoned" z.fullText
  | host object => labelled "Host" object.typeName
  | function closure => labelled "Function" s!"{closure.params.length} params"
  | native f => labelled "Native" f.name
  | rewriter _ => "Rewriter"

namespace Snapshot

mutual

def inspect : Snapshot → String
  | atom a => a.inspect
  | list items => "[" ++ ", ".intercalate (inspectAll items) ++ "]"
  | map entries => "\x7b" ++ ", ".intercalate (inspectEntries entries) ++ "\x7d"

def inspectAll : List Snapshot → List String
  | [] => []
  | v :: vs => inspect v :: inspectAll vs

def inspectEntries : List (String × Snapshot) → List String
  | [] => []
  | (key, v) :: rest => (quoted key ++ ": " ++ inspect v) :: inspectEntries rest

end

end Snapshot

end DocTemplate
