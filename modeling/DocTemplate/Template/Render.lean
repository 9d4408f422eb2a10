import DocTemplate.Run.Parallel
import DocTemplate.Template.Compile

namespace DocTemplate

inductive RenderFailure where
  | template (e : TemplateError)
  /-- The run has no end. -/
  | endless
  deriving DecidableEq, Repr

def Stop.failure : Stop → RenderFailure
  | raised cause => .template ⟨cause.kind, cause.message, .point 0, ""⟩
  | fault f => .template (f.report f.cause.kind RunCause.message)
  | endless => .endless

/-- All that a run takes besides a program and its data. Calls may lie `depth` deep in one
another. -/
structure Surroundings where
  host : Host
  settings : Settings
  depth : Nat

abbrev Rendered (α : Type) := Except RenderFailure α × Store

def builtinNames : List (String × Value) :=
  Builtin.all.map fun b => (b.name, .native (.builtin b))

namespace Program

/-- Runs a resolved program in a new global scope. When the run ends, with a result or without one,
its scopes forget their variables. So a function of the template that lives on sees none of them;
nothing else refers to the scopes any more. -/
def run (p : Program) (around : Surroundings) (resolution : Resolution)
    (data : List (String × Value)) (store : Store) : Rendered (List OutputToken) :=
  let (globals, store) := store.newScope none
  -- the data come last, so that their names win over those of built-in functions
  let store := store.defineAll globals (builtinNames ++ data)
  let ctx : Context := ⟨resolution, around.host, around.settings, globals⟩
  match Run.execAll ctx (Run.apply ctx around.depth) p.body globals [] store with
  | (.ok tokens, store) => (.ok tokens, store.release globals)
  | (.error stop, store) => (.error stop.failure, store.release globals)

def render (p : Program) (around : Surroundings) (data : List (String × Value)) (store : Store) :
    Rendered (List OutputToken) :=
  match resolveNames p (Builtin.all.map Builtin.name ++ data.map Prod.fst) with
  | .ok resolution => p.run around resolution data store
  | .error e => (.error (.template e), store)

/-- The same as `run`, with the turns of loops in the order that a schedule says. -/
def runIn (p : Program) (schedule : Schedule) (around : Surroundings) (resolution : Resolution)
    (data : List (String × Value)) (store : Store) : Rendered (List OutputToken) :=
  let (globals, store) := store.newScope none
  let store := store.defineAll globals (builtinNames ++ data)
  let ctx : Context := ⟨resolution, around.host, around.settings, globals⟩
  match Run.execAllIn schedule ctx (Run.apply ctx around.depth) p.body globals [] store with
  | (.ok tokens, store) => (.ok tokens, store.release globals)
  | (.error stop, store) => (.error stop.failure, store.release globals)

/-- The tokens that a program writes when its loops run their turns in the order that a schedule
says. -/
def renderIn (p : Program) (schedule : Schedule) (around : Surroundings)
    (data : List (String × Value)) (store : Store) : Rendered (List OutputToken) :=
  match resolveNames p (Builtin.all.map Builtin.name ++ data.map Prod.fst) with
  | .ok resolution => p.runIn schedule around resolution data store
  | .error e => (.error (.template e), store)

end Program

structure Template where
  program : Program
  repairRules : List RepairRule
  deriving Repr

namespace Template

def compile (fileType : FileType) (delimiters : Delimiters) (document : String) :
    Except TemplateError Template := do
  let program ← compileDocument fileType delimiters document
  return ⟨program, fileType.repairRules⟩

/-- The rendered document. With `repairs`, the repair rules hold in it. -/
def render (t : Template) (around : Surroundings) (repairs : Bool) (data : List (String × Value))
    (store : Store) : Rendered String :=
  match t.program.render around data store with
  | (.ok tokens, store) =>
    (.ok (serialize (if repairs then repair t.repairRules tokens else tokens)), store)
  | (.error e, store) => (.error e, store)

end Template

end DocTemplate
