import DocTemplate.Builtin.Cast
import DocTemplate.Builtin.Collection
import DocTemplate.Builtin.Format

namespace DocTemplate

structure Settings where
  symbols : NumberSymbols
  lineBreaks : Option LineBreaks
  /-- The time of the run. -/
  now : DateTime
  deriving DecidableEq, Repr

namespace Builtin

def pureResult (b : Builtin) (result : Except ArgumentCause Value) : Run Value :=
  match result with
  | .ok v => pure v
  | .error cause => Run.raise (.argument b cause)

def newRewriter (kind : RewriterKind) : Run Value := Run.update fun s => s.newRewriter kind

def sumOrZero (v : Value) : Except ArgumentCause Value :=
  if v.isNull then .ok (Value.int 0)
  else
    match listArgument v with
    | .ok items => total items
    | .error cause => .error cause

def call (settings : Settings) (invoke : Invoke) (b : Builtin) (args : List Value) : Run Value :=
  match b, args with
  | .map, [list, f] => mapped invoke list f
  | .filter, [list, f] => filtered invoke list f
  | .reduce, [list, f] => reduced invoke list f
  | .reduce, [list, f, initial] => reducedFrom invoke list f initial
  | .sum, [list] => pureResult .sum (sumOrZero list)
  | .join, [list, separator] => joined list separator
  | .range, [first, stop] => pureResult .range (integers first stop)
  | .reverse, [v] => pureResult .reverse (reversed v)
  | .enumerate, [list] => enumerated list
  | .filterNotNull, [list] => withoutNulls list
  | .notNull, [v] => pure (.bool (!v.isNull))
  | .now, [] => pure (.atom (.dateTime settings.now))
  | .cast target, [v] => pureResult (.cast target) (convert target v)
  | .format, [v] => pureResult .format (formatAny settings.symbols v .null)
  | .format, [v, pattern] => pureResult .format (formatAny settings.symbols v pattern)
  | .formatDate, [v, pattern] => pureResult .formatDate (formatDateOrNull v pattern)
  | .formatNumber, [v] =>
    pureResult .formatNumber (formatNumberOrEmpty settings.symbols v .null)
  | .formatNumber, [v, pattern] =>
    pureResult .formatNumber (formatNumberOrEmpty settings.symbols v pattern)
  | .identity, [] => newRewriter .identity
  | .rawXml, [.null] => newRewriter (.replaceWith "")
  | .rawXml, [.str xml] => newRewriter (.replaceWith xml)
  | .rawXml, [v] => Run.raise (.argument .rawXml (.notXml v.typeName))
  | .lineBreaksToTags, [] =>
    match settings.lineBreaks with
    | some b => newRewriter (.lineBreaks b)
    | none => Run.raise (.argument .lineBreaksToTags .noLineBreaks)
  | _, _ => Run.raise (.call (.wrongCount b.arity args.length))

end Builtin

end DocTemplate
