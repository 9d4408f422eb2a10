import DocTemplate.Number.Basic
import DocTemplate.Value.Arity

namespace DocTemplate

inductive Builtin where
  | map
  | filter
  | reduce
  | sum
  | join
  | range
  | reverse
  | enumerate
  | filterNotNull
  | notNull
  | now
  | cast (target : NumberType)
  | format
  | formatDate
  | formatNumber
  | identity
  | rawXml
  | lineBreaksToTags
  deriving DecidableEq, Repr, Inhabited

namespace Builtin

def all : List Builtin :=
  [map, filter, reduce, sum, join, range, reverse, enumerate, filterNotNull, notNull, now,
    cast .byte, cast .short, cast .int, cast .long, cast .float, cast .double, cast .decimal,
    format, formatDate, formatNumber, identity, rawXml, lineBreaksToTags]

def name : Builtin → String
  | map => "$map"
  | filter => "$filter"
  | reduce => "$reduce"
  | sum => "$sum"
  | join => "$join"
  | range => "$range"
  | reverse => "$reverse"
  | enumerate => "$enumerate"
  | filterNotNull => "$filterNotNull"
  | notNull => "$notNull"
  | now => "$now"
  | cast .byte => "$asByte"
  | cast .short => "$asShort"
  | cast .int => "$asInt"
  | cast .long => "$asLong"
  | cast .float => "$asFloat"
  | cast .double => "$asDouble"
  | cast .decimal => "$asDecimal"
  | format => "$format"
  | formatDate => "$formatDate"
  | formatNumber => "$formatNumber"
  | identity => "$identity"
  | rawXml => "$rawXml"
  | lineBreaksToTags => "$lineBreaksToTags"

def arity : Builtin → Arity
  | map | filter | join | range | formatDate => .exactly 2
  | reduce => .between 2 3
  | format | formatNumber => .between 1 2
  | now | identity | lineBreaksToTags => .exactly 0
  | _ => .exactly 1

def ofName? (name : String) : Option Builtin := all.find? (·.name == name)

theorem mem_all (b : Builtin) : b ∈ all := by
  cases b with
  | cast target => cases target <;> decide
  | _ => decide

end Builtin

end DocTemplate
