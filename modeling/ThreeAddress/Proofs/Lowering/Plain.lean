import ThreeAddress.Proofs.Lowering.Effects
import ThreeAddress.Proofs.Lowering.Run

/-!
# Plain operations

All operations but the stack instructions, labels and line numbers are lowered in one way: they take the operands that they want, and
then `Effect.lower` turns their effect into a result or a statement. `lowerOperation_plain` says so for each of them.
-/

namespace ThreeAddress

/-- The operation consumes operands and has an effect. -/
def Operation.isPlain : Operation → Bool
  | .shuffle _ _ | .line _ | .label _ | .unhandled _ _ => false
  | _ => true

/-- What an operation demands of the values that it consumes, the deepest one first. -/
def Operation.demands : Operation → List Demand
  | .store _ _ => [.any]
  | .arrayStore _ => [.register, .immediate, .immediate]
  | .getField _ => [.register]
  | .putField _ => [.register, .immediate]
  | .invoke kind method => (if kind.hasReceiver then [.register] else []) ++ method.signature.params.map fun _ => .immediate
  | .throw | .monitorEnter | .monitorExit => [.constant]
  | op => op.takes.map fun _ => .immediate

theorem Operation.length_demands (op : Operation) : op.demands.length = op.takes.length := by
  cases op with
  | invoke kind method => cases kind <;> simp [demands, takes, InvokeKind.hasReceiver]
  | _ => simp [demands, takes]

/-- A plain operation has an effect on as many operands as it takes. -/
theorem Operation.isSome_effect {α : Type} {op : Operation} {xs : List α} (plain : op.isPlain) (length : xs.length = op.takes.length) :
    (op.effect xs).isSome := by
  cases op with
  | shuffle | line | label | unhandled => cases plain
  | newMultiArray | invokeDynamic => rfl
  | invoke kind method =>
    cases kind with
    | static => rfl
    | _ =>
      rcases xs with - | ⟨base, args⟩
      · simp [takes] at length
      · rfl
  | arithmetic kind op =>
    rcases xs with - | ⟨x, - | ⟨y, - | ⟨z, xs⟩⟩⟩ <;> cases op <;> simp [takes] at length <;> rfl
  | branch kind operands =>
    rcases xs with - | ⟨x, - | ⟨y, - | ⟨z, xs⟩⟩⟩ <;> cases operands <;> simp [takes] at length <;> rfl
  | «return» kind =>
    rcases xs with - | ⟨x, - | ⟨y, xs⟩⟩ <;> cases kind <;> simp [takes] at length <;> rfl
  | _ =>
    rcases xs with - | ⟨x, - | ⟨y, - | ⟨z, - | ⟨w, xs⟩⟩⟩⟩ <;> first | rfl | simp [takes] at length

namespace Lowering

/-- Leaves a result behind, on the stack as well. -/
def leaveResult (i : Nat) (row : List OperandId) (wide : Option Bool) (v : Rvalue OperandId) : LowerM Unit := do
  push (← produce i row v) (wide.getD false)

/-- Lowers an operation with a given effect, once its operands are taken. -/
def lowerEffect (i : Nat) (row : List OperandId) (wide : Option Bool) : Effect OperandId → LowerM Unit
  | .constant c => leaveResult i row wide (.immediate (.constant c))
  | .load k => do
    let r ← slotRegister k
    leaveResult i row wide (.register r)
  | .operator e => leaveResult i row wide (.expr e)
  | .read place => leaveResult i row wide (.ref place)
  | .call c => do
    if wide = none then emit i row (.invoke c) else leaveResult i row wide (.expr (.invoke c))
    freezeAll
  | .store k v => do
    let r ← slotRegister k
    emit i row (.copy r v)
    freezeReadersOf r
  | .increment k amount => do
    let r ← slotRegister k
    freezeReadersOf r
    emit i row (.increment r amount)
  | .write place v => do
    emit i row (.write place v)
    freezeAll
  | .branch way lhs rhs target => emit i row (.branch way lhs (rhs.elim .operand .constant) target)
  | .jump target => emit i row (.goto target)
  | .switch key cases default => emit i row (.switch key cases.keys cases.targets default)
  | .return v => emit i row (.return v)
  | .returnVoid => emit i row .returnVoid
  | .throw v => emit i row (.throw v)
  | .enter v => emit i row (.enterMonitor v)
  | .exit v => emit i row (.exitMonitor v)
  | .nop => emit i row .nop

/-- Takes operands, the top one first. -/
def takeAll (i : Nat) (first : Bool) (wants : List (Demand × Bool)) : LowerM (List OperandId) :=
  wants.mapM fun (d, w) => take i (d.onVisit first) w

/-- Lowers a plain operation: takes what it wants and carries its effect out. -/
def lowerPlain (i : Nat) (op : Operation) : LowerM Unit := do
  let first ← firstVisit i
  let popped ← takeAll i first (op.demands.zip op.takes).reverse
  match op.effect popped.reverse with
  | some e => lowerEffect i (op.row popped.reverse) op.pushes e
  | none => fail (.stackUnderflow i)

theorem takeAll_append (i : Nat) (first : Bool) (wants wants' : List (Demand × Bool)) :
    takeAll i first (wants ++ wants') = do return (← takeAll i first wants) ++ (← takeAll i first wants') :=
  List.mapM_append

theorem takeAll_single (i : Nat) (first : Bool) (d : Demand) (w : Bool) :
    takeAll i first [(d, w)] = do return [← take i (d.onVisit first) w] := by
  simp [takeAll]

/-- The operands that a call takes for its parameters. -/
theorem takeAll_params (i : Nat) (first : Bool) (params : List ValueType) :
    takeAll i first ((params.map fun _ => .immediate).zip (params.map (·.isWide))).reverse =
      do return (← takeArgs i (Demand.immediate.onVisit first) params).reverse := by
  rw [List.zip_map', ← List.map_reverse, takeAll, List.mapM_map]
  simp only [takeArgs, bind_assoc, pure_bind, List.reverse_reverse, bind_pure]
  rfl

/-- A call is finished as its effect is lowered. -/
theorem finishCall_eq (i : Nat) (row : List OperandId) (call : Invoke OperandId) (ret : ValueType) :
    finishCall i row call ret = lowerEffect i row (if ret = .void then none else some ret.isWide) (.call call) := by
  by_cases hr : ret = .void <;>
    simp only [finishCall, lowerEffect, leaveResult, hr, if_true, if_false, reduceCtorEq, bind_assoc, Option.getD_some]

theorem takeAll_replicate (i : Nat) (first : Bool) (n : Nat) :
    takeAll i first (List.replicate n (.immediate, false)) =
      (List.replicate n ()).mapM fun _ => take i (Demand.immediate.onVisit first) false := by
  have h : List.replicate n (Demand.immediate, false) = (List.replicate n ()).map fun _ => (.immediate, false) := by simp
  rw [h, takeAll, List.mapM_map]
  rfl

/-- Plain operations are lowered in one way. -/
theorem lowerOperation_plain (m : Method) (i : Nat) {op : Operation} (h : op.isPlain) : lowerOperation m i op = lowerPlain i op := by
  cases op with
  | shuffle | line | label | unhandled => simp [Operation.isPlain] at h
  | increment | new | jump | nop => rfl
  | const | load | getStatic =>
    simp only [lowerPlain, Operation.effect, Operation.pushes, Kind.takesTwo_eq, ValueType.takesTwo_eq, Constant.takesTwo_eq]
    rfl
  | store =>
    simp only [lowerPlain, Operation.demands, Operation.takes, Kind.takesTwo_eq, List.zip_cons_cons, List.zip_nil_right,
      List.reverse_cons, List.reverse_nil, List.nil_append, takeAll_single, Demand.onVisit, ite_self, bind_assoc, pure_bind]
    rfl
  | arrayLength | cast | instanceOf | newArray | putStatic | getField | «switch» | throw | monitorEnter | monitorExit =>
    simp only [lowerPlain, Operation.demands, Operation.takes, Operation.pushes, ValueType.takesTwo_eq, List.map_cons, List.map_nil,
      List.zip_cons_cons, List.zip_nil_right, List.reverse_cons, List.reverse_nil, List.nil_append, takeAll_single, bind_assoc, pure_bind]
    rfl
  | convert source target =>
    simp only [lowerPlain, Operation.demands, Operation.takes, Operation.pushes, Kind.takesTwo_eq, List.map_cons, List.map_nil,
      List.zip_cons_cons, List.zip_nil_right, List.reverse_cons, List.reverse_nil, List.nil_append, takeAll_single, bind_assoc, pure_bind]
    simp only [Operation.effect, Kind.converted_eq]
    rfl
  | arrayLoad | arrayStore | putField =>
    simp only [lowerPlain, Operation.demands, Operation.takes, Operation.pushes, Kind.takesTwo_eq, ValueType.takesTwo_eq, List.map_cons,
      List.map_nil, List.zip_cons_cons, List.zip_nil_right, List.reverse_cons, List.reverse_nil, List.nil_append, takeAll_append,
      takeAll_single, bind_assoc, pure_bind]
    rfl
  | compare kind nan =>
    simp only [lowerPlain, Operation.demands, Operation.takes, Kind.takesTwo_eq, List.map_cons, List.map_nil, List.zip_cons_cons,
      List.zip_nil_right, List.reverse_cons, List.reverse_nil, List.nil_append, takeAll_append, takeAll_single, bind_assoc, pure_bind]
    simp only [List.cons_append, List.nil_append, List.reverse_cons, List.reverse_nil, Operation.effect, comparisonOperator_eq]
    rfl
  | newMultiArray =>
    simp only [lowerPlain, Operation.demands, Operation.takes, List.map_replicate, List.zip_replicate', List.reverse_replicate,
      takeAll_replicate]
    rfl
  | arithmetic kind op =>
    rw [lowerOperation, lowerArithmetic, ← op.operator?_eq]
    cases op <;>
      simp only [lowerPlain, Operation.demands, Operation.takes, Operation.pushes, Arithmetic.operator?, Arithmetic.isShift, Bool.not_true,
        Bool.not_false, Bool.and_true, Bool.and_false, Kind.takesTwo_eq, List.map_cons, List.map_nil, List.zip_cons_cons,
        List.zip_nil_right, List.reverse_cons, List.reverse_nil, List.nil_append, takeAll_append, takeAll_single, bind_assoc,
        pure_bind] <;>
      rfl
  | branch kind operands =>
    cases operands <;>
      simp only [lowerPlain, Operation.demands, Operation.takes, List.map_cons, List.map_nil, List.zip_cons_cons,
        List.zip_nil_right, List.reverse_cons, List.reverse_nil, List.nil_append, takeAll_append, takeAll_single, bind_assoc,
        pure_bind] <;>
      rfl
  | «return» kind =>
    cases kind <;>
      simp only [lowerPlain, Operation.demands, Operation.takes, List.map_cons, List.map_nil, List.zip_cons_cons,
        List.zip_nil_right, List.reverse_cons, List.reverse_nil, List.nil_append, takeAll_single, bind_assoc, pure_bind] <;>
      rfl
  | invoke kind method =>
    cases kind <;>
      simp only [lowerPlain, Operation.demands, Operation.takes, Operation.pushes, ValueType.takesTwo_eq, InvokeKind.hasReceiver,
        List.cons_append, List.nil_append, if_true, if_false, Bool.false_eq_true, List.zip_cons_cons, List.reverse_cons, takeAll_append,
        takeAll_single, takeAll_params, bind_assoc, pure_bind, List.reverse_append, List.reverse_nil, List.reverse_reverse,
        lowerOperation, lowerInvoke, instanceKind?, finishCall_eq] <;>
      rfl
  | invokeDynamic site =>
    simp only [lowerPlain, Operation.demands, Operation.takes, Operation.pushes, ValueType.takesTwo_eq, List.map_map, takeAll_params,
      bind_assoc, pure_bind, List.reverse_reverse, lowerOperation, lowerInvokeDynamic, finishCall_eq, Function.comp_def]
    rfl

end Lowering
end ThreeAddress
