import Mathlib.Logic.Function.Basic
import ThreeAddress.Proofs.Labels
import ThreeAddress.Proofs.Semantics.Machine
import ThreeAddress.Proofs.Semantics.Meaning

/-!
# The stack machine

Stack code as the machine that runs it: an operand stack of narrow and wide values, local slots, a heap. A wide value is one cell of the
stack and lives in the first of its two slots. `Operation.takes` is what an operation consumes, `Operation.effect` what it does with it,
over any type of operands, and `rearrange` the forms of the stack instructions, over any type of cells. `Operation.reshape` follows the
widths alone, and `Reaches` collects the stacks of widths that some path through the code leads to.

Which values are wide, and which operator an operation applies, is said here once more, in tables of the machine's own; the first sections
prove that these agree with what lowering goes by.
-/

namespace ThreeAddress

variable {α β V H : Type}

/-- How an operation can fail to find what it consumes. -/
inductive Misuse where
  | underflow
  /-- A value is consumed with another width than it was pushed with. -/
  | width
  /-- The operation is no part of the machine. -/
  | unhandled
  deriving DecidableEq

/-! ## Widths -/

/-- A value of the kind takes two words. -/
def Kind.takesTwo : Kind → Bool
  | .long | .double => true
  | .int | .float | .object | .byte | .char | .short | .void => false

/-- A value of the type takes two words. -/
def ValueType.takesTwo : ValueType → Bool
  | .long | .double => true
  | .boolean | .byte | .char | .short | .int | .float | .void | .object _ | .array _ _ | .unknown => false

/-- The constant takes two words. -/
def Constant.takesTwo : Constant → Bool
  | .long _ | .double _ => true
  | .null | .int _ | .float _ | .string _ | .classType _ | .methodType _ | .methodHandle _ => false

@[simp] theorem Kind.takesTwo_eq (k : Kind) : k.takesTwo = k.isWide := by
  cases k <;> rfl

@[simp] theorem ValueType.takesTwo_eq (t : ValueType) : t.takesTwo = t.isWide := by
  cases t <;> rfl

@[simp] theorem Constant.takesTwo_eq (c : Constant) : c.takesTwo = c.isWide := by
  cases c <;> rfl

/-! ## Operators -/

/-- The operator that an arithmetic operation applies to two values; negation has one. -/
def Arithmetic.operator? : Arithmetic → Option BinaryOp
  | .add => some .add
  | .sub => some .sub
  | .mul => some .mul
  | .div => some .div
  | .rem => some .rem
  | .neg => none
  | .shl => some .shl
  | .shr => some .shr
  | .ushr => some .ushr
  | .and => some .and
  | .or => some .or
  | .xor => some .xor

/-- The operator of a comparison with three outcomes: on whole numbers, or with an answer for what is not a number. -/
def comparisonOperator : Option NanOrder → BinaryOp
  | none => .cmp
  | some .less => .cmpl
  | some .greater => .cmpg

/-- The type of what a conversion to a kind gives. -/
def Kind.converted : Kind → ValueType
  | .int => .int
  | .long => .long
  | .float => .float
  | .double => .double
  | .byte => .byte
  | .char => .char
  | .short => .short
  | .object => .object "java.lang.Object"
  | .void => .void

theorem Arithmetic.operator?_eq (op : Arithmetic) : op.operator? = BinaryOp.ofArithmetic? op := by
  cases op <;> rfl

theorem comparisonOperator_eq (nan : Option NanOrder) : comparisonOperator nan = .ofNanOrder nan := by
  rcases nan with - | nan
  · rfl
  · cases nan <;> rfl

theorem Kind.converted_eq (k : Kind) : k.converted = k.toType := by
  cases k <;> rfl

/-! ## What operations consume and do -/

/-- The widths of the values that an operation consumes, the deepest one first. Stack instructions have forms instead. -/
def Operation.takes : Operation → List Bool
  | .store kind _ => [kind.takesTwo]
  | .arrayLoad _ => [false, false]
  | .arrayStore kind => [false, false, kind.takesTwo]
  | .arithmetic kind .neg => [kind.takesTwo]
  | .arithmetic kind .shl | .arithmetic kind .shr | .arithmetic kind .ushr => [kind.takesTwo, false]
  | .arithmetic kind _ | .compare kind _ => [kind.takesTwo, kind.takesTwo]
  | .convert source _ => [source.takesTwo]
  | .arrayLength | .cast _ | .instanceOf _ | .newArray _ | .getField _ => [false]
  | .newMultiArray _ dims => List.replicate dims false
  | .putStatic field => [field.type.takesTwo]
  | .putField field => [false, field.type.takesTwo]
  | .invoke .static method => method.signature.params.map (·.takesTwo)
  | .invoke _ method => false :: method.signature.params.map (·.takesTwo)
  | .invokeDynamic site => site.signature.params.map (·.takesTwo)
  | .branch _ .one _ _ | .switch _ _ | .throw | .monitorEnter | .monitorExit => [false]
  | .branch _ .two _ _ => [false, false]
  | .return .void => []
  | .return kind => [kind.takesTwo]
  | _ => []

/-- The width of the value that an operation pushes, if it pushes one. -/
def Operation.pushes : Operation → Option Bool
  | .const c => some c.takesTwo
  | .load kind _ | .arrayLoad kind | .arithmetic kind _ | .convert _ kind => some kind.takesTwo
  | .compare _ _ | .arrayLength | .cast _ | .instanceOf _ | .new _ | .newArray _ | .newMultiArray _ _ => some false
  | .getStatic field | .getField field => some field.type.takesTwo
  | .invoke _ method => if method.signature.ret = .void then none else some method.signature.ret.takesTwo
  | .invokeDynamic site => if site.signature.ret = .void then none else some site.signature.ret.takesTwo
  | _ => none

/-- What an operation does with the values that it consumes. -/
inductive Effect (α : Type) where
  | constant (value : Constant)
  | load (slot : Nat)
  | operator (value : Expr α)
  | read (place : Ref α)
  | call (call : Invoke α)
  | store (slot : Nat) (value : α)
  | increment (slot : Nat) (amount : Int16)
  | write (place : Ref α) (value : α)
  /-- Compares two values, or a value with a constant. -/
  | branch (way : Comparison) (lhs : α) (rhs : α ⊕ Constant) (target : Label)
  | jump (target : Label)
  | switch (key : α) (cases : Cases) (default : Label)
  | return (value : α)
  | returnVoid
  | throw (value : α)
  | enter (monitor : α)
  | exit (monitor : α)
  | nop

/-- The constant with which an operation of one operand compares it: null among references, zero among numbers. -/
def Kind.zero (kind : Kind) : Constant :=
  if kind = .object then .null else .int 0

/-- What an operation does with the values that it consumes, the deepest one first. -/
def Operation.effect : Operation → List α → Option (Effect α)
  | .const c, [] => some (.constant c)
  | .load _ slot, [] => some (.load slot)
  | .store _ slot, [v] => some (.store slot v)
  | .increment slot amount, [] => some (.increment slot amount)
  | .arrayLoad _, [base, index] => some (.read (.array base index))
  | .arrayStore _, [base, index, v] => some (.write (.array base index) v)
  | .arithmetic _ .neg, [v] => some (.operator (.negate v))
  | .arithmetic _ op, [lhs, rhs] => op.operator?.map fun b => .operator (.binary b lhs rhs)
  | .compare _ nan, [lhs, rhs] => some (.operator (.binary (comparisonOperator nan) lhs rhs))
  | .convert _ target, [v] => some (.operator (.cast v target.converted))
  | .arrayLength, [v] => some (.operator (.length v))
  | .cast type, [v] => some (.operator (.cast v type))
  | .instanceOf type, [v] => some (.operator (.instanceOf v type))
  | .new type, [] => some (.operator (.new type))
  | .newArray element, [size] => some (.operator (.newArray element size))
  | .newMultiArray type _, sizes => some (.operator (.newMultiArray type sizes))
  | .getStatic field, [] => some (.read (.staticField field))
  | .putStatic field, [v] => some (.write (.staticField field) v)
  | .getField field, [base] => some (.read (.instanceField base field))
  | .putField field, [base, v] => some (.write (.instanceField base field) v)
  | .invoke .static method, args => some (.call (.static method args))
  | .invoke .virtual method, base :: args => some (.call (.instance .virtual base method args))
  | .invoke .special method, base :: args => some (.call (.instance .special base method args))
  | .invoke .interface method, base :: args => some (.call (.instance .interface base method args))
  | .invokeDynamic site, args => some (.call (.dynamic site args))
  | .branch kind _ way target, [v] => some (.branch way v (.inr kind.zero) target)
  | .branch _ _ way target, [lhs, rhs] => some (.branch way lhs (.inl rhs) target)
  | .jump target, [] => some (.jump target)
  | .switch default cases, [key] => some (.switch key cases default)
  | .return _, [] => some .returnVoid
  | .return _, [v] => some (.return v)
  | .throw, [v] => some (.throw v)
  | .monitorEnter, [v] => some (.enter v)
  | .monitorExit, [v] => some (.exit v)
  | .nop, [] => some .nop
  | _, _ => none

/-- An effect with every operand replaced. -/
def Effect.map (f : α → β) : Effect α → Effect β
  | .constant c => .constant c
  | .load slot => .load slot
  | .operator e => .operator (e.map f)
  | .read place => .read (place.map f)
  | .call c => .call (c.map f)
  | .store slot v => .store slot (f v)
  | .increment slot amount => .increment slot amount
  | .write place v => .write (place.map f) (f v)
  | .branch way lhs rhs target => .branch way (f lhs) (rhs.map f id) target
  | .jump target => .jump target
  | .switch key cases default => .switch (f key) cases default
  | .return v => .return (f v)
  | .returnVoid => .returnVoid
  | .throw v => .throw (f v)
  | .enter v => .enter (f v)
  | .exit v => .exit (f v)
  | .nop => .nop

/-- Operations do the same with operands of any type. -/
theorem Operation.effect_map (f : α → β) (op : Operation) (xs : List α) :
    op.effect (xs.map f) = (op.effect xs).map (Effect.map f) := by
  rcases xs with - | ⟨a, - | ⟨b, - | ⟨c, - | ⟨d, xs⟩⟩⟩⟩ <;>
    cases op with
    | arithmetic kind op => cases op <;> rfl
    | invoke kind method => cases kind <;> rfl
    | _ => rfl

/-- The operands of an effect in order. -/
def Effect.operands : Effect α → List α
  | .operator e => e.operands
  | .read place => place.operands
  | .call c => c.operands
  | .store _ v | .return v | .throw v | .enter v | .exit v | .switch v _ _ => [v]
  | .write place v => place.operands ++ [v]
  | .branch _ lhs (.inl rhs) _ => [lhs, rhs]
  | .branch _ lhs (.inr _) _ => [lhs]
  | .constant _ | .load _ | .increment _ _ | .jump _ | .returnVoid | .nop => []

theorem Effect.operands_map (f : α → β) (e : Effect α) : (e.map f).operands = e.operands.map f := by
  cases e with
  | branch way lhs rhs target => cases rhs <;> rfl
  | operator | read | call => simp [map, operands, Expr.operands_map, Ref.operands_map, Invoke.operands_map]
  | write => simp [map, operands, Ref.operands_map]
  | _ => rfl

/-- An operation works on nothing but its operands: the effect would otherwise depend on more than what takes their places. -/
theorem Operation.mem_of_mem_operands {op : Operation} {xs : List α} {e : Effect α} (he : op.effect xs = some e) {x : α}
    (hx : x ∈ e.operands) : x ∈ xs := by
  by_contra hn
  have heq : xs.map (fun _ => True) = xs.map (· ≠ x) := by
    refine List.map_congr_left fun y hy => ?_
    simp only [eq_iff_iff, true_iff]
    rintro rfl
    exact hn hy
  have hmap := op.effect_map (fun _ => True) xs
  rw [heq, op.effect_map (· ≠ x) xs, he, Option.map_some, Option.map_some, Option.some.injEq] at hmap
  have hops := congrArg Effect.operands hmap
  rw [Effect.operands_map, Effect.operands_map] at hops
  have := (List.map_inj_left.mp hops) x hx
  simp at this

/-! ## Popping -/

/-- Pops values of given widths, the top one first. -/
def popAll (wide : α → Bool) : List Bool → List α → Except Misuse (List α × List α)
  | [], stack => .ok ([], stack)
  | _ :: _, [] => .error .underflow
  | w :: ws, a :: stack =>
    if wide a = w then do
      let (as, rest) ← popAll wide ws stack
      return (a :: as, rest)
    else .error .width

/-- Pops what a stack instruction moves as one: one narrow value, or two words, which are two narrow values or a wide one. -/
def popGroup (wide : α → Bool) : Count → List α → Except Misuse (List α × List α)
  | _, [] => .error .underflow
  | .one, a :: stack => if wide a then .error .width else .ok ([a], stack)
  | .two, a :: stack =>
    if wide a then .ok ([a], stack)
    else
      match stack with
      | [] => .error .underflow
      | b :: stack => if wide b then .error .width else .ok ([a, b], stack)

/-- What a stack instruction makes of a stack, in every form that the widths on top allow. -/
def rearrange (wide : α → Bool) : Shuffle → Count → List α → Except Misuse (List α)
  | .pop, count, stack => do
    let (_, rest) ← popGroup wide count stack
    return rest
  | .dup, count, stack => do
    let (group, rest) ← popGroup wide count stack
    return group ++ group ++ rest
  | .dupX1, count, stack => do
    let (group, rest) ← popGroup wide count stack
    let (below, rest) ← popGroup wide .one rest
    return group ++ below ++ group ++ rest
  | .dupX2, count, stack => do
    let (group, rest) ← popGroup wide count stack
    let (below, rest) ← popGroup wide .two rest
    return group ++ below ++ group ++ rest
  | .swap, _, stack => do
    let (top, rest) ← popGroup wide .one stack
    let (below, rest) ← popGroup wide .one rest
    return below ++ top ++ rest

/-! ## The machine -/

/-- A value on the operand stack. -/
structure Cell (V : Type) where
  value : V
  wide : Bool

/-- The machine between two operations. The top of the stack comes first. -/
structure StackState (V H : Type) where
  position : Nat
  stack : List (Cell V)
  locals : Nat → V
  heap : H

/-- The case of a switch that a number chooses; none if it chooses none. -/
def Cases.choose (cases : Cases) (key : Int32) : Option Nat :=
  match cases with
  | .lookup pairs => pairs.findIdx? (·.1 == key)
  | .table low high targets =>
    if low ≤ key ∧ key ≤ high then some ((key.toInt - low.toInt).toNat) |>.filter (· < targets.length) else none

/-- The label to which a choice leads. -/
def Cases.labelOf (cases : Cases) (default : Label) (choice : Option Nat) : Label :=
  (choice.bind cases.label?).getD default

namespace StackState

variable (M : Meaning V H) (m : Method) (s : StackState V H)

/-- Goes on with the next operation. -/
def advance : StackState V H :=
  { s with position := s.position + 1 }

/-- Pushes a value if the operation has a result. -/
def push (wide : Option Bool) (v : V) : StackState V H :=
  { s with stack := (wide.map (Cell.mk v)).toList ++ s.stack }

/-- Shows an action and goes on at a label. -/
def goTo (shown : Option (Action V)) (l : Label) : Turn (StackState V H) (Event V Nat) :=
  match m.labelIndex? l with
  | some i => .next (shown.map (Event.mk · s.locals)) { s with position := i }
  | none => .stuck

/-- Shows an action and goes on with the next operation. -/
def act (a : Action V) : Turn (StackState V H) (Event V Nat) :=
  .next (some ⟨a, s.locals⟩) s.advance

/-- Carries an effect out once the operands are off the stack. -/
def perform (wide : Option Bool) : Effect V → Turn (StackState V H) (Event V Nat)
  | .constant c => .next none (s.push wide (M.constant c)).advance
  | .load slot => .next none (s.push wide (s.locals slot)).advance
  | .operator e => .next none (s.push wide (M.operator s.heap e)).advance
  | .read place => .next none (s.push wide (M.read s.heap place)).advance
  | .call c =>
    let (v, heap) := M.call s.heap c
    act { s.push wide v with heap } (.call c)
  | .store slot v => .next none { s.advance with locals := Function.update s.locals slot v }
  | .increment slot amount =>
    let v := M.operator s.heap (.binary .add (s.locals slot) (M.constant (.int amount.toInt32)))
    .next none { s.advance with locals := Function.update s.locals slot v }
  | .write place v => act { s with heap := M.write s.heap place v } (.write place v)
  | .branch way lhs rhs target =>
    let rhs := rhs.elim id M.constant
    let taken := M.holds way lhs rhs
    if taken then s.goTo m (some (.branch way lhs rhs taken)) target else s.act (.branch way lhs rhs taken)
  | .jump target => s.goTo m none target
  | .switch key cases default =>
    let choice := cases.choose (M.toInt key)
    s.goTo m (some (.switch key choice)) (cases.labelOf default choice)
  | .return v => .halt ⟨.return v, s.locals⟩
  | .returnVoid => .halt ⟨.returnVoid, s.locals⟩
  | .throw v => .halt ⟨.throw v, s.locals⟩
  | .enter v => s.act (.enter v)
  | .exit v => s.act (.exit v)
  | .nop => .next none s.advance

/-- The turn of the machine for an operation. -/
def execute : Operation → Turn (StackState V H) (Event V Nat)
  | .shuffle how count =>
    match rearrange Cell.wide how count s.stack with
    | .ok stack => .next none { s.advance with stack }
    | .error _ => .stuck
  | .line _ | .label _ => .next none s.advance
  | op =>
    match popAll Cell.wide op.takes.reverse s.stack with
    | .ok (popped, rest) =>
      match op.effect (popped.reverse.map Cell.value) with
      | some e => { s with stack := rest }.perform M m op.pushes e
      | none => .stuck
    | .error _ => .stuck

/-- The turn of the machine. -/
def step : Turn (StackState V H) (Event V Nat) :=
  match m.code[s.position]? with
  | some op => s.execute M m op
  | none => .stuck

end StackState

/-- The local slots with the parameters from number `k` on put in, the first of them in a given slot. -/
def Arguments.place (args : Arguments V) (k slot : Nat) : List ValueType → (Nat → V) → Nat → V
  | [], locals => locals
  | t :: ts, locals => args.place (k + 1) (slot + t.size) ts (Function.update locals slot (args.parameter k))

/-- The local slots when a method begins: what it receives, and otherwise what was there. -/
def Arguments.locals (args : Arguments V) (m : Method) (locals : Nat → V) : Nat → V :=
  if m.isStatic then args.place 0 0 m.signature.params locals
  else args.place 0 1 m.signature.params (Function.update locals 0 args.receiver)

/-- The machine when a method begins. -/
def StackState.start (m : Method) (args : Arguments V) (locals : Nat → V) (heap : H) : StackState V H :=
  { position := 0, stack := [], locals := args.locals m locals, heap }

/-! ## Widths along paths -/

/-- What an operation makes of a stack of widths. -/
def Operation.reshape (op : Operation) (ws : List Bool) : Except Misuse (List Bool) :=
  match op with
  | .shuffle how count => rearrange id how count ws
  | .line _ | .label _ => .ok ws
  | .unhandled _ _ => .error .unhandled
  | op => do
    let (_, rest) ← popAll id op.takes.reverse ws
    return op.pushes.toList ++ rest

/-- Control may go on from an operation to another. -/
def Method.Leads (m : Method) (i : Nat) (op : Operation) (j : Nat) : Prop :=
  match op with
  | .return _ | .throw => False
  | .jump target => m.labelIndex? target = some j
  | .branch _ _ _ target => j = i + 1 ∨ m.labelIndex? target = some j
  | .switch default cases => ∃ l, (l = default ∨ ∃ n, cases.label? n = some l) ∧ m.labelIndex? l = some j
  | _ => j = i + 1

/-- Some path from the first operation leads to an operation with a stack of widths. -/
inductive Reaches (m : Method) : Nat → List Bool → Prop where
  | start : Reaches m 0 []
  | step {i j : Nat} {op : Operation} {ws ws' : List Bool} (reached : Reaches m i ws) (here : m.code[i]? = some op)
      (shape : op.reshape ws = .ok ws') (leads : m.Leads i op j) : Reaches m j ws'

end ThreeAddress
