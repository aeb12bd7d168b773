import ThreeAddress.Lowering.State
import ThreeAddress.Proofs.Semantics.StackMachine

/-!
# Effects in a body

What becomes of the effect of an operation: a value over the operands of the operation, or a statement on them. The operands are listed in
the order of `Operation.row`, in which lowering remembers them.
-/

namespace ThreeAddress

variable {α : Type}

/-- The operands of an operation in the order in which its row lists them, from the deepest one on. -/
def Operation.row : Operation → List α → List α
  | .newMultiArray _ _, xs | .invoke .static _, xs | .invokeDynamic _, xs => xs
  | .invoke _ _, base :: args => args ++ [base]
  | _, xs => xs.reverse

/-- A row has the operands of the operation. -/
@[simp] theorem Operation.mem_row {op : Operation} {xs : List α} {x : α} : x ∈ op.row xs ↔ x ∈ xs := by
  unfold Operation.row
  split
  iterate 3 exact Iff.rfl
  · simp [or_comm]
  · exact List.mem_reverse

/-- A row has as many operands as the operation. -/
@[simp] theorem Operation.length_row (op : Operation) (xs : List α) : (op.row xs).length = xs.length := by
  unfold Operation.row
  split
  iterate 3 rfl
  · simp
  · exact List.length_reverse

theorem Operation.row_inj {op : Operation} {xs ys : List α} (h : op.row xs = op.row ys) : xs = ys := by
  cases op with
  | invoke kind method =>
    cases kind with
    | static => exact h
    | _ =>
      rcases xs with - | ⟨x, xs⟩ <;> rcases ys with - | ⟨y, ys⟩ <;> simp [row] at h ⊢
      exact ⟨h.2, h.1⟩
  | newMultiArray type dims => exact h
  | invokeDynamic site => exact h
  | _ => exact List.reverse_injective h

/-- The value that an effect leaves behind, with the registers of the local slots. -/
def Effect.rvalue? (slot : Nat → Option RegisterId) : Effect α → Option (Rvalue α)
  | .constant c => some (.immediate (.constant c))
  | .load k => (slot k).map .register
  | .operator e => some (.expr e)
  | .read place => some (.ref place)
  | .call c => some (.expr (.invoke c))
  | _ => none

/-- The keys of a switch, as its statement has them. -/
def Cases.keys : Cases → SwitchKeys
  | .lookup pairs => .lookup (pairs.map (·.1))
  | .table low high _ => .table low high

/-- The statement that carries an effect out, with the registers of the local slots. -/
def Effect.draft? (slot : Nat → Option RegisterId) : Effect OperandId → Option Draft
  | .call c => some (.invoke c)
  | .store k v => (slot k).map (.copy · v)
  | .increment k amount => (slot k).map (.increment · amount)
  | .write place v => some (.write place v)
  | .branch way lhs rhs target => some (.branch way lhs (rhs.elim .operand .constant) target)
  | .jump target => some (.goto target)
  | .switch key cases default => some (.switch key cases.keys cases.targets default)
  | .return v => some (.return v)
  | .returnVoid => some .returnVoid
  | .throw v => some (.throw v)
  | .enter v => some (.enterMonitor v)
  | .exit v => some (.exitMonitor v)
  | .nop => some .nop
  | _ => none

/-- The operands that must stand for registers or constants when a statement is finished. -/
def Draft.demanded : Draft → List OperandId
  | .write place o => place.operands ++ [o]
  | .invoke call => call.operands
  | .branch _ lhs (.operand rhs) _ => [lhs, rhs]
  | .branch _ o (.constant _) _ | .switch o _ _ _ | .return o | .throw o | .enterMonitor o | .exitMonitor o => [o]
  | .nop | .caught _ | .define _ | .copy _ _ | .increment _ _ | .goto _ | .returnVoid => []

/-- A store evaluates its operand itself. -/
def Effect.isStore : Effect α → Bool
  | .store _ _ => true
  | _ => false

/-- The operands of a value are operands of the effect. -/
theorem Effect.operands_of_rvalue? {e : Effect α} {slot : Nat → Option RegisterId} {v : Rvalue α} (hv : e.rvalue? slot = some v) :
    v.operands = e.operands := by
  cases e with
  | load k =>
    simp only [rvalue?, Option.map_eq_some_iff] at hv
    obtain ⟨r, -, rfl⟩ := hv
    rfl
  | constant | operator | read | call =>
    simp only [rvalue?, Option.some.injEq] at hv
    subst hv
    rfl
  | _ => simp [rvalue?] at hv

/-- A store leaves no value behind. -/
theorem Effect.isStore_of_rvalue? {e : Effect α} {slot : Nat → Option RegisterId} {v : Rvalue α} (hv : e.rvalue? slot = some v) :
    e.isStore = false := by
  cases e with
  | store => cases hv
  | _ => rfl

/-- The operands that a statement demands are operands of the effect, and a store demands none. -/
theorem Effect.mem_of_mem_demanded {e : Effect OperandId} {slot : Nat → Option RegisterId} {d : Draft} (hd : e.draft? slot = some d)
    {o : OperandId} (ho : o ∈ d.demanded) : o ∈ e.operands ∧ e.isStore = false := by
  cases e with
  | store k v | increment k v =>
    simp only [draft?, Option.map_eq_some_iff] at hd
    obtain ⟨r, -, rfl⟩ := hd
    cases ho
  | branch way lhs rhs target =>
    simp only [draft?, Option.some.injEq] at hd
    subst hd
    cases rhs <;> exact ⟨ho, rfl⟩
  | constant | load | operator | read => cases hd
  | jump | returnVoid | nop =>
    simp only [draft?, Option.some.injEq] at hd
    subst hd
    cases ho
  | _ =>
    simp only [draft?, Option.some.injEq] at hd
    subst hd
    exact ⟨ho, rfl⟩

/-- A value stays what it is when more slots come into use. -/
theorem Effect.rvalue?_mono {e : Effect α} {slot slot' : Nat → Option RegisterId} {v : Rvalue α}
    (h : ∀ k r, slot k = some r → slot' k = some r) (hv : e.rvalue? slot = some v) : e.rvalue? slot' = some v := by
  cases e with
  | load k =>
    simp only [rvalue?, Option.map_eq_some_iff] at hv ⊢
    obtain ⟨r, hr, rfl⟩ := hv
    exact ⟨r, h k r hr, rfl⟩
  | _ => exact hv

/-- A statement stays what it is when more slots come into use. -/
theorem Effect.draft?_mono {e : Effect OperandId} {slot slot' : Nat → Option RegisterId} {d : Draft}
    (h : ∀ k r, slot k = some r → slot' k = some r) (hd : e.draft? slot = some d) : e.draft? slot' = some d := by
  cases e with
  | store k v | increment k v =>
    simp only [draft?, Option.map_eq_some_iff] at hd ⊢
    obtain ⟨r, hr, rfl⟩ := hd
    exact ⟨r, h k r hr, rfl⟩
  | _ => exact hd

/-- Whether an effect leaves a value behind. A call may or may not. -/
def Effect.leaves? : Effect α → Option Bool
  | .constant _ | .load _ | .operator _ | .read _ => some true
  | .call _ => none
  | _ => some false

/-- An operation pushes a value if and only if its effect leaves one behind. -/
theorem Operation.isSome_pushes {op : Operation} {xs : List α} {e : Effect α} {b : Bool} (he : op.effect xs = some e)
    (hb : e.leaves? = some b) : op.pushes.isSome = b := by
  revert he
  fun_cases effect op xs <;> intro he <;>
    first
    | (cases he <;> cases hb <;> rfl)
    | (obtain ⟨c, -, rfl⟩ := Option.map_eq_some_iff.mp he; cases hb; rfl)

/-- No operator is a call. -/
theorem Operation.operator_ne_invoke {op : Operation} {xs : List α} {v : Expr α} (he : op.effect xs = some (.operator v)) (c : Invoke α) :
    v ≠ .invoke c := by
  revert he
  fun_cases effect op xs <;> intro he <;>
    first
    | (cases he <;> rintro ⟨⟩)
    | (obtain ⟨b, -, heq⟩ := Option.map_eq_some_iff.mp he; cases heq; rintro ⟨⟩)

/-- The value that an operation leaves behind is a call if its effect is one. -/
theorem Operation.eq_call_of_isCall {op : Operation} {xs : List α} {e : Effect α} {slot : Nat → Option RegisterId} {v : Rvalue α}
    (he : op.effect xs = some e) (hv : e.rvalue? slot = some v) (hc : v.isCall = true) : ∃ c, e = .call c ∧ v = .expr (.invoke c) := by
  cases e with
  | call c =>
    simp only [Effect.rvalue?, Option.some.injEq] at hv
    exact ⟨c, rfl, hv.symm⟩
  | load k =>
    simp only [Effect.rvalue?, Option.map_eq_some_iff] at hv
    obtain ⟨r, -, rfl⟩ := hv
    cases hc
  | operator w =>
    simp only [Effect.rvalue?, Option.some.injEq] at hv
    subst hv
    cases w with
    | invoke c => exact absurd rfl (operator_ne_invoke he c)
    | _ => cases hc
  | constant | read =>
    simp only [Effect.rvalue?, Option.some.injEq] at hv
    subst hv
    cases hc
  | _ => cases hv

end ThreeAddress
