import DocTemplate.Run.Host

namespace DocTemplate

namespace Builtin

def listArgument : Value → Except ArgumentCause (List Value)
  | .list items => .ok items
  | v => .error (.notList v.typeName)

def functionArgument (f : Value) : Except ArgumentCause Unit :=
  if f.isCallable then .ok () else .error (.notFunction f.typeName)

/-- The sum of the elements that are not null: a decimal when one of them is, else a
floating-point number. -/
def total (items : List Value) : Except ArgumentCause Value :=
  let items := items.filter (!·.isNull)
  match items.find? (!·.isNumber) with
  | some v => .error (.notNumbers v.typeName)
  | none =>
    let numbers := items.filterMap fun
      | .number n => some n
      | _ => none
    if numbers.any Number.isDecimal then
      .ok (.number (.decimal ((numbers.filterMap Number.toDecimal?).foldl Decimal.add (.ofInt 0))))
    else .ok (.number (.double ((numbers.map Number.toDouble).foldl Binary.add Binary.zero)))

def integerArgument : Value → Except ArgumentCause Int
  | .number (.byte n) => .ok n.toInt
  | .number (.short n) => .ok n.toInt
  | .number (.int n) => .ok n.toInt
  | .number (.long n) => .ok n.toInt
  | v => .error (.notIntegers v.typeName)

def isLong : Value → Bool
  | .number (.long _) => true
  | _ => false

/-- The integers from `first` up to, but not including, `stop`; long ones when a bound is long. -/
def integers (first stop : Value) : Except ArgumentCause Value := do
  let lo ← integerArgument first
  let hi ← integerArgument stop
  let long := isLong first || isLong stop
  let value (i : Nat) : Value :=
    let n := lo + i
    if long then .number (.long (Int64.ofInt n)) else .number (.int (Int32.ofInt n))
  return .list ((List.range (hi - lo).toNat).map value)

def reversed : Value → Except ArgumentCause Value
  | .null => .ok .null
  | .str s => .ok (.str (String.ofList s.toList.reverse))
  | v => (listArgument v).map fun items => .list items.reverse

/-- What a template learns of an element and its place. -/
def placed (count : Nat) (v : Value) (i : Nat) : Entries Value :=
  .ofList
    [("index", Value.int i), ("value", v), ("isFirst", .bool (i == 0)),
      ("isLast", .bool (i + 1 == count)), ("isEven", .bool (i % 2 == 0))]

/-- Runs `k` on the elements of a list; for null there is nothing to run. -/
def withList (b : Builtin) (list : Value) (k : List Value → Run Value) : Run Value :=
  if list.isNull then pure .null
  else
    match listArgument list with
    | .ok items => k items
    | .error cause => Run.raise (.argument b cause)

/-- The same with a function, which is looked at after the list. -/
def withFunction (b : Builtin) (list f : Value) (k : List Value → Run Value) : Run Value :=
  withList b list fun items =>
    match functionArgument f with
    | .ok _ => k items
    | .error cause => Run.raise (.argument b cause)

def mapped (invoke : Invoke) (list f : Value) : Run Value :=
  withFunction .map list f fun items => do
    return .list (← items.mapM fun item => invoke f [item])

def filtered (invoke : Invoke) (list f : Value) : Run Value :=
  withFunction .filter list f fun items => do
    let kept ← items.filterM fun item => do
      let verdict ← invoke f [item]
      Run.read fun s => s.isTruthy verdict
    return .list kept

def folded (invoke : Invoke) (f initial : Value) (items : List Value) : Run Value :=
  items.foldlM (fun accumulated item => invoke f [accumulated, item]) initial

/-- Without an initial value the first element is it, and the empty list gives null. -/
def reduced (invoke : Invoke) (list f : Value) : Run Value :=
  withFunction .reduce list f fun
    | [] => pure .null
    | first :: items => folded invoke f first items

def reducedFrom (invoke : Invoke) (list f initial : Value) : Run Value :=
  if list.isNull then pure initial
  else withFunction .reduce list f (folded invoke f initial)

def joined (list separator : Value) : Run Value :=
  withList .join list fun items =>
    Run.observe fun s => do
      let separator ← s.outputText? separator
      let texts ← items.mapM s.text?
      return .str (separator.intercalate texts)

def enumerated (list : Value) : Run Value :=
  withList .enumerate list fun items => do
    return .list (← items.zipIdx.mapM fun (v, i) =>
      Run.update fun s => s.newMap (placed items.length v i))

def withoutNulls (list : Value) : Run Value :=
  withList .filterNotNull list fun items => pure (.list (items.filter (!·.isNull)))

end Builtin

end DocTemplate
