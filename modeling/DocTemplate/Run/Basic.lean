import DocTemplate.Run.Cause
import DocTemplate.Value.Text

namespace DocTemplate

inductive Stop where
  /-- A cause that no token is bound to yet. -/
  | raised (cause : RunCause)
  | fault (f : RunFault)
  /-- The computation has no end: calls lie too deep in one another, or a map holds itself. -/
  | endless
  deriving DecidableEq, Repr

-- A computation that stops leaves the store as it was by then.
abbrev Run := ExceptT Stop (StateM Store)

namespace Run

variable {α : Type}

def raise (cause : RunCause) : Run α := throw (.raised cause)

/-- What the store tells; it does not change. -/
def read (f : Store → α) : Run α := return f (← get)

def update (f : Store → α × Store) : Run α := modifyGet f

def ofExcept (result : Except RunCause α) : Run α :=
  match result with
  | .ok a => pure a
  | .error cause => raise cause

/-- What the store tells of a value, if that has an end. -/
def observe (f : Store → Option α) : Run α := do
  match ← read f with
  | some a => pure a
  | none => throw .endless

/-- Binds a cause that the computation raises to a token. -/
def boundTo (token : Token) (x : Run α) : Run α :=
  tryCatch x fun
    | .raised cause => throw (.fault (token.fault cause))
    | stop => throw stop

end Run

end DocTemplate
