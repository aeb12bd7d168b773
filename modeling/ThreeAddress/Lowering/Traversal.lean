import Std.Data.TreeMap
import ThreeAddress.Lowering.HandlerEntries
import ThreeAddress.Lowering.Instruction

/-!
# Visiting the code

Control is followed from the first instruction and from every handler, straight on until it ends or divides, and then along every edge
with the stack it carries. An edge is followed once for each stack; the depth of the stack at an instruction is fixed by its first
visit. `taskBound` bounds the number of times that control is followed somewhere, for every method.

What operations do to the state of lowering does not matter to a visit, which is the same over every `LoweringState`.
-/

namespace ThreeAddress

/-- A type of states in which operations are lowered: what visiting code does with them. -/
class LoweringState (S : Type) where
  /-- Nothing of the method has been visited. -/
  ofMethod : Method → S
  /-- Makes the entries of shared handlers; the number of entries made. -/
  addHandlerEntries : Method → StateT S (Except Fault) Nat
  lowerOperation : Method → Nat → Operation → StateT S (Except Fault) Unit
  stack : S → Stack
  withStack : S → Stack → S
  /-- The stack that the entry of a handler leaves: the exception, if the instruction has an entry of its own. -/
  entryStack : S → Nat → Stack
  equivalentStacks : S → Stack → Stack → Bool

instance : LoweringState State where
  ofMethod := State.ofMethod
  addHandlerEntries := Lowering.addHandlerEntries
  lowerOperation := Lowering.lowerOperation
  stack := State.stack
  withStack := State.withStack
  entryStack s insn := ((s.handlerEntry? insn).map fun e => .operand e.operand).toList
  equivalentStacks := State.equivalentStacks

variable {S : Type} [LoweringState S]

/-- The stacks that went, or will go, along an edge. -/
structure Edge where
  /-- The stack that is scheduled and not yet followed. -/
  pending : Option Stack
  /-- Every stack that was ever scheduled. -/
  history : List Stack
  deriving DecidableEq, Inhabited

/-- Where control is to be followed, with what stack, and along which edge it gets there. -/
structure Task where
  target : Nat
  stack : Stack
  edge : Option (Nat × Nat)
  deriving DecidableEq, Inhabited

/-- The order of edges: by the instruction they leave, then by the one they lead to. -/
abbrev edgeOrder : Nat × Nat → Nat × Nat → Ordering :=
  compareLex (compareOn Prod.fst) (compareOn Prod.snd)

structure Traversal (S : Type) where
  state : S
  /-- The depth of the stack with which each instruction was first visited. -/
  depths : Array (Option Nat)
  edges : Std.TreeMap (Nat × Nat) Edge edgeOrder
  /-- The next task first. -/
  tasks : List Task

/-- Whether a stack is to be sent along an edge. -/
inductive Verdict where
  | send
  | skip
  /-- The stack does not agree with one that is on its way. -/
  | conflict
  deriving DecidableEq, Inhabited

/-- How to tell whether a stack is to be sent along an edge that was used before. -/
inductive EdgeTest where
  /-- A stack on its way stands for every stack that is equivalent to it, and no other may arrive before it has. -/
  | pendingFirst
  /-- A stack is sent if it never was before. -/
  | historyOnly
  deriving DecidableEq, Inhabited

/-- The verdict on a stack for an edge, by the history of the edge. -/
def Edge.unlessSent (e : Edge) (stack : Stack) : Verdict :=
  if e.history.contains stack then .skip else .send

/-- The verdict on a stack for an edge that was used before. -/
def EdgeTest.verdict (test : EdgeTest) (s : S) (e : Edge) (stack : Stack) : Verdict :=
  match test, e.pending with
  | .pendingFirst, some p => if LoweringState.equivalentStacks s p stack then .skip else .conflict
  | _, _ => e.unlessSent stack

namespace Lowering

/-- The first label referred to that does not occur in the code. -/
def undefinedLabel? (m : Method) : Option Label :=
  m.referredLabels.find? fun l => (m.labelIndex? l).isNone

/-- Where control goes when it does not simply go on to the next operation; `none` if it does. A branch goes on first, if an operation
follows, a switch to its default. -/
def exits (m : Method) (insn : Nat) : Operation → Except Fault (Option (List Nat))
  | .return _ | .throw => .ok (some [])
  | .branch _ _ _ target => do
    let t ← labelIndex m target
    return some ((if insn + 1 < m.code.length then [insn + 1] else []) ++ [t])
  | .jump target => do return some [← labelIndex m target]
  | .switch default cases => do
    let d ← labelIndex m default
    return some (d :: (← cases.targets.mapM (labelIndex m)))
  | _ => .ok none

/-- Fixes the depth of the stack at an instruction, or checks it. -/
def checkDepth (depths : Array (Option Nat)) (insn depth : Nat) : Except Fault (Array (Option Nat)) :=
  match depths[insn]?.join with
  | none => .ok (depths.modify insn fun _ => some depth)
  | some d => if d = depth then .ok depths else .error (.inconsistentMerge insn)

/-- The operation changed the depth of the stack as it must. -/
def checkEffect (insn : Nat) (op : Operation) (before after : Nat) : Except Fault Unit :=
  match op.stackEffect with
  | none => .ok ()
  | some expected =>
    let actual := (after : Int) - before
    if actual = expected then .ok () else .error (.stackEffect insn expected actual)

/-- Where a walk came to its end: the state there, the instruction that ended it, and where control goes from it. -/
structure Halt (S : Type) where
  state : S
  depths : Array (Option Nat)
  origin : Nat
  targets : List Nat

/-- Follows control from an instruction straight on; `ops` is the code from there to its end. -/
def walk (m : Method) (insn : Nat) (ops : List Operation) (s : S) (depths : Array (Option Nat)) : Except Fault (Halt S) :=
  match ops with
  | [] => .ok { state := s, depths, origin := insn, targets := [] }
  | op :: rest => do
    let before := (LoweringState.stack s).length
    let depths ← checkDepth depths insn before
    let ((), s) ← (LoweringState.lowerOperation m insn op).run s
    checkEffect insn op before (LoweringState.stack s).length
    match ← exits m insn op with
    | none => walk m (insn + 1) rest s depths
    | some targets => .ok { state := s, depths, origin := insn, targets }

end Lowering

namespace Traversal

open Lowering

/-- Sends a stack along an edge. -/
def send (t : Traversal S) (key : Nat × Nat) (stack : Stack) : Traversal S :=
  let e := (t.edges[key]?).getD default
  { t with
    edges := t.edges.insert key { pending := some stack, history := e.history ++ [stack] }
    tasks := { target := key.2, stack, edge := some key } :: t.tasks }

/-- Sends the stack along an edge if that is to be done. -/
def offer (test : EdgeTest) (t : Traversal S) (key : Nat × Nat) : Except Fault (Traversal S) :=
  let stack := LoweringState.stack t.state
  let verdict : Verdict :=
    match t.edges[key]? with
    | none => .send
    | some e => test.verdict t.state e stack
  match verdict with
  | .send => .ok (t.send key stack)
  | .skip => .ok t
  | .conflict => .error (.inconsistentMerge key.2)

/-- An edge that is followed has no stack on its way any more. -/
def arrive (t : Traversal S) (edge : Option (Nat × Nat)) : Traversal S :=
  match edge with
  | none => t
  | some key => { t with edges := t.edges.modify key fun e => { e with pending := none } }

/-- Follows control from the target of a task, and offers the stack to every edge at which it divides. -/
def follow (test : EdgeTest) (m : Method) (t : Traversal S) (task : Task) : Except Fault (Traversal S) := do
  let ⟨state, depths, edges, tasks⟩ := t.arrive task.edge
  let h ← walk m task.target (m.code.drop task.target) (LoweringState.withStack state task.stack) depths
  h.targets.foldlM (fun t target => t.offer test (h.origin, target)) { state := h.state, depths := h.depths, edges, tasks }

/-- Follows tasks, the latest first, until none is left. -/
def run (test : EdgeTest) (m : Method) : Nat → Traversal S → Except Fault (Traversal S)
  | 0, _ => .error .unfinished
  | fuel + 1, t =>
    match t.tasks with
    | [] => .ok t
    | task :: rest => do run test m fuel (← follow test m { t with tasks := rest } task)

/-- The task of a handler: its own entry leaves the exception on the stack, its label pushes it otherwise. -/
def handlerTask (m : Method) (s : S) (label : Label) : Except Fault Task := do
  let target ← labelIndex m label
  return { target, stack := LoweringState.entryStack s target, edge := none }

/-- The tasks at the outset: the first instruction, then the handlers, the last one first. -/
def start (m : Method) : Except Fault (Traversal S) := do
  match undefinedLabel? m with
  | some l => .error (.undefinedLabel l)
  | none =>
    let depths := Array.replicate m.code.length none
    if m.code.isEmpty then
      return { state := LoweringState.ofMethod m, depths, edges := {}, tasks := [] }
    else
      let (_, state) ← (LoweringState.addHandlerEntries m).run (LoweringState.ofMethod m)
      let handlers ← m.handlerLabels.mapM (handlerTask m state)
      return { state, depths, edges := {}, tasks := { target := 0, stack := [], edge := none } :: handlers.reverse }

end Traversal

namespace Method

/-- The words by which an operation can raise the depth of the stack. -/
def growth : Operation → Nat
  | .label _ => 1
  | op => (op.stackEffect.getD 0).toNat

/-- No stack grows deeper: each instruction on the way to a depth raises it once, and a handler may begin with one word. -/
def depthBound (m : Method) : Nat :=
  m.code.foldr (growth · + ·) 1

/-- The most tasks that a method can have. Each instruction produces at most one operand, so a word is one of these or the half of a
wide value, and every stack is sent along an edge once. -/
def taskBound (m : Method) : Nat :=
  m.handlerLabels.length + 1 + m.code.length * m.code.length * Nat.pow (m.code.length + 1) m.depthBound

end Method

/-- Visits all code of a method that control can reach. -/
def Traversal.complete (test : EdgeTest) (m : Method) : Except Fault (Traversal S) := do
  Traversal.run test m (m.taskBound + 1) (← Traversal.start m)

end ThreeAddress
