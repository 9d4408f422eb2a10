import DocTemplate.Program.Nodes

namespace DocTemplate

/-- A node with the places of its operands. -/
inductive NodeKind where
  | constant (value : Constant)
  | name (token : Token)
  | assign (name : Token) (value : Nat)
  | unary (op : UnaryOp) (token : Token) (operand : Nat)
  | binary (op : Operator) (token : Token) (left right : Nat)
  | group (inner : Nat)
  | call (callee : Nat) (paren : Token) (args : List Nat)
  | get (object : Nat) (name : Token) (optional : Bool)
  | set (object : Nat) (name : Token) (value : Nat)
  | choose (branches : List (Nat × Nat)) (otherwise : Option Nat)
  | lambda (params : List Token) (body : Nat)
  | list (items : List Nat)
  deriving DecidableEq, Repr, Inhabited

def NodeKind.expr? (read : Nat → Option Expr) (site : Site) : NodeKind → Option Expr
  | constant value => some (.constant site value)
  | name token => some (.name site token)
  | assign token value => do return .assign site token (← read value)
  | unary op token operand => do return .unary site op token (← read operand)
  | binary op token left right => do
    return .binary site op token (← read left) (← read right)
  | group inner => do return .group site (← read inner)
  | call callee paren args => do return .call site (← read callee) paren (← args.mapM read)
  | get object token optional => do return .get site (← read object) token optional
  | set object token value => do return .set site (← read object) token (← read value)
  | choose branches otherwise => do
    let branches ← branches.mapM fun branch => do return (← read branch.1, ← read branch.2)
    return .choose site branches (← otherwise.mapM read)
  | lambda params body => do return .lambda site params (← read body)
  | list items => do return .list site (← items.mapM read)

structure Node where
  kind : NodeKind
  span : Span
  deriving DecidableEq, Repr, Inhabited

/-- The places that a node refers to. -/
def Node.children (n : Node) : List Nat :=
  match n.kind with
  | .constant _ | .name _ => []
  | .assign _ i | .unary _ _ i | .group i | .get i _ _ | .lambda _ i => [i]
  | .binary _ _ i j | .set i _ j => [i, j]
  | .call callee _ args => callee :: args
  | .choose branches otherwise =>
    branches.flatMap (fun branch => [branch.1, branch.2]) ++ otherwise.toList
  | .list items => items

abbrev Arena := Array Node

namespace Arena

/-- Puts a node at the end. Places are numbers of 32 bits. -/
def alloc (a : Arena) (n : Node) : Nat × Arena := (min a.size 4294967295, a.push n)

/-- Makes an assignment of the target, which has to be a name or a plain access. -/
def assign? (a : Arena) (target value : Nat) : Option Arena := do
  let t ← a[target]?
  let v ← a[value]?
  let kind ←
    match t.kind with
    | .name token => some (.assign token value)
    | .get object token false => some (.set object token value)
    | _ => none
  return a.setIfInBounds target ⟨kind, t.span.merge v.span⟩

mutual

/-- Stores an expression behind the nodes that are there, and gives its place. -/
def store? : Expr → Arena → Option (Nat × Arena)
  | .constant site value, a => some (a.alloc ⟨.constant value, site.span⟩)
  | .name site token, a => some (a.alloc ⟨.name token, site.span⟩)
  | .assign _ token value, a => do
    let (target, a) := a.alloc ⟨.name token, token.span⟩
    let (i, a) ← store? value a
    -- the node of the target becomes that of the assignment
    let a ← a.assign? target i
    return (target, a)
  | .unary site op token operand, a => do
    let (i, a) ← store? operand a
    return a.alloc ⟨.unary op token i, site.span⟩
  | .binary site op token left right, a => do
    let (i, a) ← store? left a
    let (j, a) ← store? right a
    return a.alloc ⟨.binary op token i j, site.span⟩
  | .group site inner, a => do
    let (i, a) ← store? inner a
    return a.alloc ⟨.group i, site.span⟩
  | .call site callee paren args, a => do
    let (i, a) ← store? callee a
    let (is, a) ← storeAll? args a
    return a.alloc ⟨.call i paren is, site.span⟩
  | .get site object token optional, a => do
    let (i, a) ← store? object a
    return a.alloc ⟨.get i token optional, site.span⟩
  | .set _ object token value, a => do
    let (i, a) ← store? object a
    let (target, a) := a.alloc ⟨.get i token false, object.span.merge token.span⟩
    let (j, a) ← store? value a
    let a ← a.assign? target j
    return (target, a)
  | .choose site branches otherwise, a => do
    let (is, a) ← storeBranches? branches a
    let (i, a) ← storeOptional? otherwise a
    return a.alloc ⟨.choose is i, site.span⟩
  | .lambda site params body, a => do
    let (i, a) ← store? body a
    return a.alloc ⟨.lambda params i, site.span⟩
  | .list site items, a => do
    let (is, a) ← storeAll? items a
    return a.alloc ⟨.list is, site.span⟩

def storeAll? : List Expr → Arena → Option (List Nat × Arena)
  | [], a => some ([], a)
  | e :: es, a => do
    let (i, a) ← store? e a
    let (is, a) ← storeAll? es a
    return (i :: is, a)

def storeBranches? : List (Expr × Expr) → Arena → Option (List (Nat × Nat) × Arena)
  | [], a => some ([], a)
  | (condition, result) :: branches, a => do
    let (i, a) ← store? condition a
    let (j, a) ← store? result a
    let (is, a) ← storeBranches? branches a
    return ((i, j) :: is, a)

def storeOptional? : Option Expr → Arena → Option (Option Nat × Arena)
  | none, a => some (none, a)
  | some e, a => do
    let (i, a) ← store? e a
    return (some i, a)

end

theorem store?_constant (site : Site) (value : Constant) (a : Arena) :
    store? (.constant site value) a = some (a.alloc ⟨.constant value, site.span⟩) := by
  rw [store?]

theorem store?_name (site : Site) (token : Token) (a : Arena) :
    store? (.name site token) a = some (a.alloc ⟨.name token, site.span⟩) := by
  rw [store?]

theorem storeAll?_nil (a : Arena) : storeAll? [] a = some ([], a) := by
  rw [storeAll?]

theorem storeBranches?_nil (a : Arena) : storeBranches? [] a = some ([], a) := by
  rw [storeBranches?]

theorem storeOptional?_none (a : Arena) : storeOptional? none a = some (none, a) := by
  rw [storeOptional?]

/-- The expression at a place, when it has at most so many levels. -/
def read? (a : Arena) : Nat → Nat → Option Expr
  | 0, _ => none
  | n + 1, id => do
    let node ← a[id]?
    node.kind.expr? (read? a n) ⟨id, node.span⟩

end Arena

/-- The places of a program's expressions, statement by statement, and the arena that they are
in. -/
def Program.store? (p : Program) : Option (List Nat × Arena) := Arena.storeAll? p.roots #[]

end DocTemplate
