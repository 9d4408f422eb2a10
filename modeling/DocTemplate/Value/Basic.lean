import DocTemplate.Builtin.Basic
import DocTemplate.Calendar.Date
import DocTemplate.Expr.Basic
import DocTemplate.Number.Basic
import DocTemplate.Output.LineBreaks

namespace DocTemplate

/-- A record of the program that embeds the template. -/
structure HostRef where
  typeName : String
  cell : Nat
  deriving DecidableEq, Repr, Inhabited

structure HostFunctionRef where
  number : Nat
  name : String
  arity : Arity
  deriving DecidableEq, Repr, Inhabited

inductive Native where
  | builtin (b : Builtin)
  | host (f : HostFunctionRef)
  deriving DecidableEq, Repr, Inhabited

namespace Native

def name : Native → String
  | builtin b => b.name
  | host f => f.name

def arity : Native → Arity
  | builtin b => b.arity
  | host f => f.arity

end Native

/-- A lambda with the scope that it was made in. -/
structure Closure where
  params : List String
  body : Expr
  scope : Nat
  deriving Repr, Inhabited

namespace Closure

def same (a b : Closure) : Bool :=
  a.body.site.id == b.body.site.id && a.params == b.params && a.scope == b.scope

end Closure

/-- What a rewriter does to the tokens of a block. -/
inductive RewriterKind where
  | identity
  | replaceWith (xml : String)
  | lineBreaks (b : LineBreaks)
  /-- One of the program that embeds the template, by its number. -/
  | host (number : Nat)
  deriving DecidableEq, Repr, Inhabited

/-- Rewriters made at two times differ, even when they do the same. -/
structure RewriterRef where
  serial : Nat
  kind : RewriterKind
  deriving DecidableEq, Repr, Inhabited

/-- A value that holds no other value. -/
inductive Atom where
  | null
  | bool (b : Bool)
  | number (n : Number)
  | str (s : String)
  | date (d : Date)
  | dateTime (d : DateTime)
  | zoned (z : ZonedDateTime)
  | host (object : HostRef)
  | function (closure : Closure)
  | native (f : Native)
  | rewriter (r : RewriterRef)
  deriving Repr, Inhabited

namespace Atom

def typeName : Atom → String
  | null => "null"
  | bool _ => "bool"
  | number n => n.type.name
  | str _ => "string"
  | date _ => "date"
  | dateTime _ => "datetime"
  | zoned _ => "zoned datetime"
  | host object => object.typeName
  | function _ | native _ => "function"
  | rewriter _ => "rewriter"

/-- Null, `false`, zeros and the empty text do not count as true. -/
def isTruthy : Atom → Bool
  | null => false
  | bool b => b
  | number n => !n.isZero
  | str s => s != ""
  | _ => true

end Atom

-- Maps, host objects and scopes can change, so a value holds only the number of their cell, and
-- two maps are the same object when they have the same cell.
inductive Value where
  | atom (a : Atom)
  | list (items : List Value)
  | map (cell : Nat)
  deriving Repr, Inhabited

namespace Value

@[match_pattern] def null : Value := atom .null

@[match_pattern] def bool (b : Bool) : Value := atom (.bool b)

@[match_pattern] def number (n : Number) : Value := atom (.number n)

@[match_pattern] def str (s : String) : Value := atom (.str s)

@[match_pattern] def host (object : HostRef) : Value := atom (.host object)

@[match_pattern] def function (closure : Closure) : Value := atom (.function closure)

@[match_pattern] def native (f : Native) : Value := atom (.native f)

@[match_pattern] def rewriter (r : RewriterRef) : Value := atom (.rewriter r)

def int (n : Int) : Value := number (.int (Int32.ofInt n))

def typeName : Value → String
  | atom a => a.typeName
  | list _ => "list"
  | map _ => "map"

def isNull : Value → Bool
  | null => true
  | _ => false

def isNumber : Value → Bool
  | number _ => true
  | _ => false

def isDecimal : Value → Bool
  | number (.decimal _) => true
  | _ => false

def isCallable : Value → Bool
  | function _ | native _ => true
  | _ => false

def str? : Value → Option String
  | str s => some s
  | _ => none

def ofLiteral : Literal → Value
  | .str s => str s
  | .int n => number (.int n)
  | .long n => number (.long n)
  | .float x => number (.float x)
  | .double x => number (.double x)
  | .decimal d => number (.decimal d)

def ofConstant : Constant → Value
  | .null => null
  | .bool b => bool b
  | .literal l => ofLiteral l

end Value

end DocTemplate
