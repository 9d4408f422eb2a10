import DocTemplate.Run.Cause
import DocTemplate.Value.Basic

namespace DocTemplate

namespace Value

/-- What a date pattern can draw from a value; a value that is no date has none. -/
def dateFields? : Value → Option DateFields
  | .atom (.date d) => some ⟨d, none, none⟩
  | .atom (.dateTime d) => some ⟨d.date, some d.time, none⟩
  | .atom (.zoned z) => some ⟨z.local_.date, some z.local_.time, some z.offset⟩
  | _ => none

def decimal? : Value → Option Decimal
  | number n => n.toDecimal?
  | _ => none

def formatDate? (pattern : String) (v : Value) : Except DatePattern.Fault (Option String) :=
  match v.dateFields? with
  | some fields => (DatePattern.format fields pattern).map some
  | none => .ok none

/-- The text of a number. A value that is no decimal has none, whatever the pattern. -/
def formatNumber? (symbols : NumberSymbols) (pattern : String) (v : Value) :
    Except NumberPattern.Fault (Option String) :=
  match v.decimal? with
  | some d => (NumberPattern.parse pattern).map fun p => some (p.format d symbols)
  | none => .ok none

end Value

namespace Builtin

def defaultDate : String := "yyyy/MM/dd"

def defaultDateTime : String := "yyyy/MM/dd HH:mm"

def defaultInteger : String := "#,##0"

def defaultFraction : String := "#,##0.00"

def defaultNumber : String := "#,##0.###"

def patternArgument (default : String) : Value → Except ArgumentCause String
  | .null => .ok default
  | .str s => .ok s
  | v => .error (.notPattern v.typeName)

def dateText (pattern : String) (v : Value) : Except ArgumentCause (Option String) :=
  (v.formatDate? pattern).mapError .datePattern

def numberText (symbols : NumberSymbols) (pattern : String) (v : Value) :
    Except ArgumentCause (Option String) :=
  (v.formatNumber? symbols pattern).mapError .numberPattern

/-- What is written when no pattern is given. -/
def defaultPattern : Value → String
  | .atom (.date _) => defaultDate
  | .atom (.dateTime _) | .atom (.zoned _) => defaultDateTime
  | .number (.float _) | .number (.double _) | .number (.decimal _) => defaultFraction
  | _ => defaultInteger

/-- The text of a number or a date, and null for null and for what is not finite. -/
def formatAny (symbols : NumberSymbols) (v pattern : Value) : Except ArgumentCause Value := do
  let pattern ← patternArgument (defaultPattern v) pattern
  match v with
  | .null => return .null
  | .number _ => return ((← numberText symbols pattern v).map Value.str).getD .null
  | .atom (.date _) | .atom (.dateTime _) | .atom (.zoned _) =>
    return ((← dateText pattern v).map Value.str).getD .null
  | _ => throw (.notFormattable v.typeName)

def formatDateOrNull (v pattern : Value) : Except ArgumentCause Value := do
  if v.isNull then return .null
  let pattern ← patternArgument defaultDate pattern
  match ← dateText pattern v with
  | some text => return .str text
  | none => throw (.notDate v.typeName)

def formatNumberOrEmpty (symbols : NumberSymbols) (v pattern : Value) :
    Except ArgumentCause Value := do
  if v.isNull then return .str ""
  let pattern ← patternArgument defaultNumber pattern
  match ← numberText symbols pattern v with
  | some text => return .str text
  | none => throw (.notNumber v.typeName)

end Builtin

end DocTemplate
