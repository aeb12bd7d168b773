import ThreeAddress.IR.Value

/-!
# Bodies

A body is a list of three-address statements over registers, with the regions that exceptions leave and the edges of normal control
flow. A statement is named by its position. `Stmt.branchTargets` and `Stmt.fallsThrough` say where control goes after a statement, and
`controlEdges` collects this for a list of statements.
-/

namespace ThreeAddress

/-- A register: its number, the name by which listings refer to it, and its type. -/
structure Register where
  id : RegisterId
  name : String
  type : ValueType
  deriving DecidableEq, Inhabited

/-- The keys of a switch: a list of them, or a range. -/
inductive SwitchKeys where
  | lookup (keys : List Int32)
  | table (low high : Int32)
  deriving DecidableEq, Inhabited

inductive Stmt where
  | nop
  /-- Binds what the method receives from outside: its receiver, a parameter, a caught exception. -/
  | identity (register : RegisterId) (value : Ref Immediate)
  | assign (lhs rhs : Value)
  | invoke (call : Invoke Immediate)
  | branch (condition : Condition Immediate) (target : Nat)
  | goto (target : Nat)
  | switch (key : Immediate) (keys : SwitchKeys) (targets : List Nat) (default : Nat)
  | return (value : Immediate)
  | returnVoid
  | throw (value : Immediate)
  | enterMonitor (value : Immediate)
  | exitMonitor (value : Immediate)
  deriving DecidableEq

namespace Stmt

/-- The explicit targets in order, each once. -/
def branchTargets : Stmt → List Nat
  | .branch _ target | .goto target => [target]
  | .switch _ _ targets default => (targets ++ [default]).eraseDups
  | _ => []

/-- Control may go on to the next statement. -/
def fallsThrough : Stmt → Bool
  | .goto _ | .switch _ _ _ _ | .return _ | .returnVoid | .throw _ => false
  | _ => true

end Stmt

/-- A statement with the source line it comes from, if lines are kept. -/
structure Located where
  stmt : Stmt
  line : Option Nat
  deriving DecidableEq

/-- A protected region: when a statement from `first` up to but not including `last` raises an instance of `exception`, control goes
to `handler`. -/
structure Trap where
  exception : ValueType
  first : Nat
  last : Nat
  handler : Nat
  deriving DecidableEq, Inhabited

/-- An edge of normal control flow, from a statement to one that may follow it. -/
abbrev ControlEdge := Nat × Nat

structure Body where
  signature : String
  registers : List Register
  stmts : List Located
  traps : List Trap
  edges : List ControlEdge
  deriving DecidableEq

/-- The statements that may follow statement `i` of `n`: the next one, if control falls through, then the targets; each once. -/
def Stmt.followers (s : Stmt) (i n : Nat) : List Nat :=
  ((if s.fallsThrough ∧ i + 1 < n then [i + 1] else []) ++ s.branchTargets).eraseDups

/-- The edges of a list of statements, in the order of the statements they leave. -/
def controlEdges (stmts : List Stmt) : List ControlEdge :=
  stmts.zipIdx.flatMap fun (s, i) => (s.followers i stmts.length).map (i, ·)

namespace Body

/-- The register of a number. -/
def register? (b : Body) (id : RegisterId) : Option Register :=
  b.registers.find? (·.id == id)

/-- The statement at a position. -/
def stmt? (b : Body) (i : Nat) : Option Located :=
  b.stmts[i]?

/-- The statements to which an edge leads from statement `i`. -/
def successors (b : Body) (i : Nat) : List Nat :=
  (b.edges.filter (·.1 == i)).map (·.2)

/-- The statements from which an edge leads to statement `i`. -/
def predecessors (b : Body) (i : Nat) : List Nat :=
  (b.edges.filter (·.2 == i)).map (·.1)

end Body
end ThreeAddress
