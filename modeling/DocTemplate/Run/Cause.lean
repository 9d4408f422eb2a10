import DocTemplate.Builtin.Basic
import DocTemplate.Calendar.Pattern
import DocTemplate.Diagnostic
import DocTemplate.Expr.Operator
import DocTemplate.Number.Arithmetic
import DocTemplate.Number.Pattern

namespace DocTemplate

/-- What is wrong with the operands of an operator; values are told by their types. -/
inductive OperandCause where
  | notNumbers (op : ArithOp)
  | notDecimals
  | zeroDivisor (op : ArithOp)
  | incomparable (left right : String)
  | unordered
  | notNegatable
  deriving DecidableEq, Repr

namespace OperandCause

def operationName : ArithOp → String
  | .add => "operation"
  | .sub => "subtraction"
  | .mul => "multiplication"
  | .div => "division"
  | .rem => "modulo"

def message : OperandCause → String
  | notNumbers op => s!"Operands must be numbers for {operationName op}."
  | notDecimals => "Operands must be numbers for arithmetic operations."
  | zeroDivisor .rem => "Modulo by zero."
  | zeroDivisor _ => "Division by zero."
  | incomparable left right => s!"Operands are not comparable: {left} and {right}"
  | unordered => "Operands must be numbers or comparable types."
  | notNegatable => "Operand must be a number."

end OperandCause

/-- What is wrong with the use of a property. -/
inductive PropertyCause where
  | getOfNull (name : String)
  | setOnNull (name : String)
  | undefined (name type : String)
  | readOnly (name type : String)
  | notSettable (name type : String)
  deriving DecidableEq, Repr

def PropertyCause.message : PropertyCause → String
  | getOfNull name => s!"Cannot get property '{name}' of null."
  | setOnNull name => s!"Cannot set property '{name}' on null."
  | undefined name type => s!"Undefined property '{name}' on {type}."
  | readOnly name type => s!"Cannot set read-only property '{name}' on {type}."
  | notSettable name type => s!"Cannot set property '{name}' on {type}."

inductive CallCause where
  | wrongCount (expected : Arity) (got : Nat)
  | notCallable
  /-- The right operand of a pipe is no function. -/
  | noPipeTarget
  | noPipeParameter (least : Nat)
  deriving DecidableEq, Repr

def CallCause.message : CallCause → String
  | wrongCount expected got => s!"Expected {expected.toText} arguments but got {got}."
  | notCallable => "Can only call functions."
  | noPipeTarget => "Right side of pipe must be callable."
  | noPipeParameter least =>
    s!"Pipe operator requires function with at least 1 parameter, got {least}."

/-- What is wrong with an argument of a built-in function; `got` is the type of the argument. -/
inductive ArgumentCause where
  | notList (got : String)
  | notFunction (got : String)
  | notNumbers (got : String)
  | notIntegers (got : String)
  | notNumber (got : String)
  | notDate (got : String)
  | notXml (got : String)
  | notPattern (got : String)
  | notFormattable (got : String)
  | unreadable (text target : String)
  | inconvertible (what target : String)
  | noLineBreaks
  | datePattern (f : DatePattern.Fault)
  | numberPattern (f : NumberPattern.Fault)
  deriving DecidableEq, Repr

def ArgumentCause.message : ArgumentCause → String
  | notList got => s!"expected a list, got {got}."
  | notFunction got => s!"expected a function, got {got}."
  | notNumbers got => s!"expected a list of numbers, found {got}."
  | notIntegers got => s!"expected integer bounds, got {got}."
  | notNumber got => s!"expected a number, got {got}."
  | notDate got => s!"can only format date, datetime or zoned datetime values, got {got}."
  | notXml got => s!"expected an XML string, got {got}."
  | notPattern got => s!"pattern must be a string, got {got}."
  | notFormattable got =>
    s!"unsupported type {got}. Supported types: date, datetime, zoned datetime, " ++
      "byte, short, int, long, float, double, decimal"
  | unreadable text target => s!"cannot convert '{text}' to {target}."
  | inconvertible what target => s!"cannot convert {what} to {target}."
  | noLineBreaks => "no line-break element is configured for this file type."
  | datePattern f => f.message
  | numberPattern f => f.message

inductive RunCause where
  | operand (c : OperandCause)
  | property (c : PropertyCause)
  | call (c : CallCause)
  | argument (function : Builtin) (c : ArgumentCause)
  | undefinedName (name : String)
  | notIterable (type : String)
  | noRewriter (keyword : String)
  /-- Said by a host function, a host object or a rewriter. -/
  | host (message : String)
  /-- A group of the document stands where only text and markup can. -/
  | looseGroup
  deriving DecidableEq, Repr

namespace RunCause

def message : RunCause → String
  | operand c => c.message
  | property c => c.message
  | call c => c.message
  | argument function c => function.name ++ ": " ++ c.message
  | undefinedName name => s!"Undefined variable '{name}'."
  | notIterable type => s!"'for' loop expression cannot be iterated over: {type}."
  | noRewriter keyword => "Need a stream rewriter for \x60" ++ keyword ++ "\x60 statement."
  | host message => message
  | looseGroup => "Verbatim statement cannot contain a template group."

def kind : RunCause → ErrorKind
  | looseGroup => .internal
  | _ => .runtime

end RunCause

abbrev RunFault := Fault RunCause

end DocTemplate
