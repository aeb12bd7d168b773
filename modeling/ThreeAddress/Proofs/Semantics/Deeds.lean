import ThreeAddress.Proofs.Semantics.Preservation
import ThreeAddress.Proofs.Traversal.Order
import ThreeAddress.Proofs.Traversal.Verified

/-!
# Deeds

What a method does apart from computing values: its calls, its writes, the values that it puts into local slots, where it divides and how it
ends. A body has exactly the deeds of the operations that control can reach, in the order of the code. Operations are visited any number of
times, and a call with a result leaves a statement only because the stack is frozen behind it: what carries the argument is the stage that
lowering has brought each operation to in the end.
-/

namespace ThreeAddress

open State Layout

/-- What an operation or a statement does. -/
inductive Deed where
  /-- Calls a method with a number of arguments, the receiver not counted. -/
  | call (kind : InvokeKind) (method : MethodRef) (args : Nat)
  | callSite (site : CallSite) (args : Nat)
  | writeStatic (field : FieldRef)
  | writeField (field : FieldRef)
  | writeElement
  /-- Puts a value into a local slot. -/
  | set (slot : Nat)
  | branch (way : Comparison)
  | switch (keys : SwitchKeys)
  | return (valued : Bool)
  | throw
  | enter
  | exit
  deriving DecidableEq

variable {α β : Type}

/-! ## Deeds of operations -/

/-- What an operation does. A jump only says where control goes on. -/
def Operation.deed? : Operation → Option Deed
  | .invoke kind method => some (.call kind method method.signature.params.length)
  | .invokeDynamic site => some (.callSite site site.signature.params.length)
  | .putStatic field => some (.writeStatic field)
  | .putField field => some (.writeField field)
  | .arrayStore _ => some .writeElement
  | .store _ slot | .increment slot _ => some (.set slot)
  | .branch _ _ way _ => some (.branch way)
  | .switch _ cases => some (.switch cases.keys)
  | .return kind => some (.return (kind ≠ .void))
  | .throw => some .throw
  | .monitorEnter => some .enter
  | .monitorExit => some .exit
  | _ => none

/-- The kind of a call on a receiver, as an operation has it. -/
def InstanceKind.invokeKind : InstanceKind → InvokeKind
  | .virtual => .virtual
  | .special => .special
  | .interface => .interface

/-- What a call does. -/
def Invoke.deed : Invoke α → Deed
  | .static method args => .call .static method args.length
  | .instance kind _ method args => .call kind.invokeKind method args.length
  | .dynamic site args => .callSite site args.length

/-- What a write to a place does. -/
def Ref.deed? : Ref α → Option Deed
  | .staticField field => some (.writeStatic field)
  | .instanceField _ field => some (.writeField field)
  | .array _ _ => some .writeElement
  | .this _ | .parameter _ _ | .caughtException => none

/-- What it does to evaluate a value: it may be a call. -/
def Rvalue.deed? : Rvalue α → Option Deed
  | .expr (.invoke call) => some call.deed
  | _ => none

/-- What an effect does. -/
def Effect.deed? : Effect α → Option Deed
  | .call c => some c.deed
  | .write place _ => place.deed?
  | .store slot _ | .increment slot _ => some (.set slot)
  | .branch way _ _ _ => some (.branch way)
  | .switch _ cases _ => some (.switch cases.keys)
  | .return _ => some (.return true)
  | .returnVoid => some (.return false)
  | .throw _ => some .throw
  | .enter _ => some .enter
  | .exit _ => some .exit
  | .constant _ | .load _ | .operator _ | .read _ | .jump _ | .nop => none

/-- An effect on as many operands as the operation takes does what the operation does. -/
theorem Operation.deed_of_effect {op : Operation} {xs : List α} {e : Effect α} (he : op.effect xs = some e)
    (hlen : xs.length = op.takes.length) : e.deed? = op.deed? := by
  cases op with
  | invoke kind method =>
    -- The arguments are what the call takes, less the receiver.
    rcases xs with - | ⟨x, xs⟩ <;> cases kind <;> cases he <;>
      simp_all [takes, Effect.deed?, deed?, Invoke.deed, InstanceKind.invokeKind]
  | invokeDynamic site =>
    cases he
    simp_all [takes, Effect.deed?, deed?, Invoke.deed]
  | «return» kind =>
    by_cases hv : kind = .void
    · obtain rfl : xs = [] := by simpa [takes, hv] using hlen
      cases he
      simp [Effect.deed?, deed?, hv]
    · obtain ⟨x, rfl⟩ : ∃ x, xs = [x] := List.length_eq_one_iff.mp (by simpa [takes, hv] using hlen)
      cases he
      simp [Effect.deed?, deed?, hv]
  | arithmetic kind op => cases op <;> rcases xs with - | ⟨x, - | ⟨y, - | ⟨z, xs⟩⟩⟩ <;> cases he <;> rfl
  | _ => rcases xs with - | ⟨x, - | ⟨y, - | ⟨z, - | ⟨w, xs⟩⟩⟩⟩ <;> cases he <;> rfl

/-- What an operation does to operands is always a call, or never. -/
theorem Operation.isCall_of_effect {op : Operation} {xs ys : List α} {c : Invoke α} {e : Effect α} (hc : op.effect xs = some (.call c))
    (he : op.effect ys = some e) : ∃ d, e = .call d := by
  cases op with
  | invoke kind method => rcases ys with - | ⟨y, ys⟩ <;> cases kind <;> cases he <;> exact ⟨_, rfl⟩
  | invokeDynamic site => exact ⟨_, (Option.some.inj he).symm⟩
  | arithmetic kind op => cases op <;> rcases xs with - | ⟨x, - | ⟨y, - | ⟨z, xs⟩⟩⟩ <;> cases hc
  | _ => rcases xs with - | ⟨x, - | ⟨y, - | ⟨z, - | ⟨w, xs⟩⟩⟩⟩ <;> cases hc

/-- A value that is no call does nothing. -/
theorem Rvalue.deed?_of_not_isCall {v : Rvalue α} (h : v.isCall = false) : v.deed? = none := by
  unfold deed?
  split
  · cases h
  · rfl

/-- The value that an effect leaves behind does what the effect does. -/
theorem Operation.deed_of_rvalue? {op : Operation} {xs : List α} {e : Effect α} {slot : Nat → Option RegisterId} {v : Rvalue α}
    (he : op.effect xs = some e) (hv : e.rvalue? slot = some v) : v.deed? = e.deed? := by
  cases hc : v.isCall with
  | true =>
    obtain ⟨c, rfl, rfl⟩ := eq_call_of_isCall he hv hc
    rfl
  | false =>
    rw [Rvalue.deed?_of_not_isCall hc]
    cases e with
    | call c =>
      simp only [Effect.rvalue?, Option.some.injEq] at hv
      subst hv
      cases hc
    | constant | load | operator | read => rfl
    | _ => cases hv

/-! ## Deeds of statements -/

section
variable (slotOf : RegisterId → Option Nat)

/-- What it does to assign to a register: that of a local slot is set. -/
def RegisterId.deed? (r : RegisterId) : Option Deed :=
  (slotOf r).map .set

/-- What it does to assign to a place. -/
def Rvalue.assigned? : Rvalue α → Option Deed
  | .immediate (.register r) => r.deed? slotOf
  | .ref place => place.deed?
  | _ => none

/-- What a statement of a body does, where it is known to which slots registers belong. An assignment may be a call and set a slot. -/
def Stmt.deeds : Stmt → List Deed
  | .assign lhs rhs => rhs.deed?.toList ++ (lhs.assigned? slotOf).toList
  | .invoke call => [call.deed]
  | .branch condition _ => [.branch condition.op]
  | .switch _ keys _ _ => [.switch keys]
  | .return _ => [.return true]
  | .returnVoid => [.return false]
  | .throw _ => [.throw]
  | .enterMonitor _ => [.enter]
  | .exitMonitor _ => [.exit]
  | .nop | .identity _ _ | .goto _ => []

/-- What a statement does that is still to be finished. -/
def Draft.deeds (s : State) : Draft → List Deed
  | .define o => (s.operand o).value.deed?.toList ++ ((s.content o).asRegister?.bind (·.deed? slotOf)).toList
  | .copy r o => (s.content o).deed?.toList ++ (r.deed? slotOf).toList
  | .increment r _ => (r.deed? slotOf).toList
  | .write place o => (s.content o).deed?.toList ++ place.deed?.toList
  | .invoke call => [call.deed]
  | .branch way _ _ _ => [.branch way]
  | .switch _ keys _ _ => [.switch keys]
  | .return _ => [.return true]
  | .returnVoid => [.return false]
  | .throw _ => [.throw]
  | .enterMonitor _ => [.enter]
  | .exitMonitor _ => [.exit]
  | .nop | .caught _ | .goto _ => []

end

theorem Invoke.deed_map (f : α → β) (c : Invoke α) : (c.map f).deed = c.deed := by
  cases c <;> simp [map, deed]

theorem Ref.deed?_map (f : α → β) (place : Ref α) : (place.map f).deed? = place.deed? := by
  cases place <;> rfl

namespace Layout.Plan

variable {p : Plan} {i : Nat} {d : Draft} {stmt : Stmt} {slotOf : RegisterId → Option Nat}

/-- Calls stay what they are when their operands are looked up. -/
theorem deed_of_mapM {c : Invoke OperandId} {c' : Invoke Immediate} (h : c.mapM (p.immediate i) = .ok c') : c'.deed = c.deed := by
  rw [← Invoke.deed_map (fun _ => ()) c', Invoke.map_eq_of_mapM (fun _ _ _ => rfl) h, Invoke.deed_map]

/-- Values do what they did when their operands are looked up. -/
theorem deed_value {v : Rvalue OperandId} {w : Value} (h : p.value i v = .ok w) : w.deed? = v.deed? := by
  cases v with
  | immediate im =>
    simp only [value, Rvalue.mapM, pure_eq_ok] at h
    subst h
    rfl
  | ref place =>
    simp only [value, Rvalue.mapM, bind_eq_ok, pure_eq_ok] at h
    obtain ⟨_, -, rfl⟩ := h
    rfl
  | expr e =>
    simp only [value, Rvalue.mapM, bind_eq_ok, pure_eq_ok] at h
    obtain ⟨d, hd, rfl⟩ := h
    cases e <;> simp only [Expr.mapM, bind_eq_ok, pure_eq_ok] at hd
    case invoke c =>
      obtain ⟨c', hc, rfl⟩ := hd
      exact congrArg some (deed_of_mapM hc)
    case binary =>
      obtain ⟨_, -, _, -, rfl⟩ := hd
      rfl
    case new =>
      subst hd
      rfl
    all_goals
      obtain ⟨_, -, rfl⟩ := hd
      rfl

/-- A finished statement does what it did before. -/
theorem deeds_of_finish (h : p.finish i d = .ok stmt) : stmt.deeds slotOf = d.deeds slotOf p.state := by
  cases d with
  | nop | increment | returnVoid =>
    cases h
    rfl
  | caught | «return» | throw | enterMonitor | exitMonitor | goto =>
    simp only [finish, bind_eq_ok, pure_eq_ok] at h
    obtain ⟨_, -, rfl⟩ := h
    rfl
  | define o =>
    simp only [finish, bind_eq_ok, pure_eq_ok] at h
    obtain ⟨r, hr, w, hw, rfl⟩ := h
    unfold register at hr
    split at hr <;> cases hr
    rename_i hr
    simp only [Stmt.deeds, Draft.deeds, deed_value hw, hr, Option.bind_some]
    rfl
  | copy r o =>
    simp only [finish, bind_eq_ok, pure_eq_ok] at h
    obtain ⟨w, hw, rfl⟩ := h
    simp only [Stmt.deeds, Draft.deeds, deed_value hw]
    rfl
  | write place o =>
    simp only [finish, bind_eq_ok, pure_eq_ok] at h
    obtain ⟨place', hplace, w, hw, rfl⟩ := h
    have hdeed : place'.deed? = place.deed? := by
      rw [← Ref.deed?_map (fun _ => ()) place', Ref.map_eq_of_mapM (fun _ _ _ => rfl) hplace, Ref.deed?_map]
    simp only [Stmt.deeds, Draft.deeds, deed_value hw, Rvalue.assigned?, hdeed]
  | invoke call =>
    simp only [finish, bind_eq_ok, pure_eq_ok] at h
    obtain ⟨c', hc, rfl⟩ := h
    simp only [Stmt.deeds, Draft.deeds, deed_of_mapM hc]
  | branch | «switch» =>
    simp only [finish, bind_eq_ok, pure_eq_ok] at h
    obtain ⟨_, -, _, -, _, -, rfl⟩ := h
    rfl

end Layout.Plan

/-! ## Deeds of a unit -/

namespace State

variable {m : Method} {s : State} {i : Nat} {op : Operation} {o : OperandId} {slotOf : RegisterId → Option Nat}

/-- How the slots of registers are known once a method is lowered, and that no call waits to be evaluated. -/
structure Performing (m : Method) (s : State) (slotOf : RegisterId → Option Nat) : Prop where
  coherent : s.Coherent m
  full : s.RowsFull m
  slots : ∀ k r, s.registers.slot? k = some r → slotOf r = some k
  synthesized : ∀ r, s.Synthesized r → slotOf r = none
  calls : ∀ o, s.Known o → (s.operand o).value.isCall → (s.operand o).register.isSome

/-- What an operand stands for does nothing any more. -/
theorem Performing.deed_content (h : s.Performing m slotOf) (hk : s.Known o) : (s.content o).deed? = none := by
  cases hr : (s.operand o).register with
  | some r =>
    rw [content_of_register hr]
    rfl
  | none =>
    rw [content_of_unbound hr]
    refine Rvalue.deed?_of_not_isCall ?_
    by_contra hc
    have hbound := h.calls o hk (by simpa using hc)
    simp [hr] at hbound

/-- Copies into registers that joins share do nothing. -/
theorem Performing.deeds_copies (h : s.Performing m slotOf) (hk : s.Known o) {rs : List RegisterId} (hrs : ∀ r ∈ rs, s.Synthesized r) :
    (copies o rs).flatMap (Draft.deeds slotOf s) = [] := by
  rw [List.flatMap_eq_nil_iff]
  intro d hd
  obtain ⟨r, hr, rfl⟩ := List.mem_map.mp hd
  simp [Draft.deeds, h.deed_content hk, RegisterId.deed?, h.synthesized r (hrs r hr)]

/-- To evaluate an operand where it was produced does what its value does. -/
theorem Performing.deeds_define (h : s.Performing m slotOf) (hb : (s.operand o).register.isSome) :
    (Draft.define o).deeds slotOf s = (s.operand o).value.deed?.toList := by
  obtain ⟨r, hr⟩ := Option.isSome_iff_exists.mp hb
  simp [Draft.deeds, content_of_register hr, Rvalue.asRegister?, Rvalue.register, RegisterId.deed?,
    h.synthesized r (h.coherent.register o r hr)]

/-- The statement that carries an effect out does what the effect does. -/
theorem Performing.deeds_of_draft? (h : s.Performing m slotOf) {e : Effect OperandId} {d : Draft}
    (hd : e.draft? s.registers.slot? = some d) (hk : ∀ o ∈ e.operands, s.Known o) : d.deeds slotOf s = e.deed?.toList := by
  cases e with
  | store k v =>
    simp only [Effect.draft?, Option.map_eq_some_iff] at hd
    obtain ⟨r, hr, rfl⟩ := hd
    simp [Draft.deeds, h.deed_content (hk v (by simp [Effect.operands])), RegisterId.deed?, h.slots k r hr, Effect.deed?]
  | increment k amount =>
    simp only [Effect.draft?, Option.map_eq_some_iff] at hd
    obtain ⟨r, hr, rfl⟩ := hd
    simp [Draft.deeds, RegisterId.deed?, h.slots k r hr, Effect.deed?]
  | write place v =>
    simp only [Effect.draft?, Option.some.injEq] at hd
    subst hd
    simp [Draft.deeds, h.deed_content (hk v (by simp [Effect.operands])), Effect.deed?]
  | constant | load | operator | read => cases hd
  | _ =>
    simp only [Effect.draft?, Option.some.injEq] at hd
    subst hd
    rfl

/-- Rows of the right length are operands of the operation, so that what was built from them does what the operation does. -/
theorem Built.deed {xs : List OperandId} {e : Effect OperandId} (h : s.Built m i op xs e) (hp : s.Performing m slotOf) :
    e.deed? = op.deed? ∧ ∀ o ∈ e.operands, s.Known o := by
  have hrow := List.mem_of_head? h.row
  refine ⟨Operation.deed_of_effect h.effect ?_, fun o ho => ?_⟩
  · rw [← hp.full i op _ h.here hrow, Operation.length_row]
  · exact hp.coherent.rows i _ hrow o (Operation.mem_row.mpr (Operation.mem_of_mem_operands h.effect ho))

/-- Only what was built from operands does anything. -/
theorem Stage.deeds_of_not_built (h : s.Stage m i) (hp : s.Performing m slotOf) (hn : ∀ op xs e, ¬ s.Built m i op xs e) :
    (s.unit i).flatMap (Draft.deeds slotOf s) = [] := by
  cases h with
  | untouched _ _ unit => rw [unit, List.flatMap_nil]
  | result built | statement built => exact absurd built (hn _ _ _)
  | caught _ _ _ out _ _ _ unit =>
    obtain ⟨rs, hunit, hrs⟩ := unit
    rw [hunit, List.flatMap_cons, hp.deeds_copies (hp.coherent.out i _ out).1 hrs]
    rfl
  | shared _ entry _ _ unit =>
    obtain ⟨rs, hunit, hrs⟩ := unit
    have hcopies := hp.deeds_copies (hp.coherent.entry i _ entry).1 hrs
    rcases hunit with hunit | hunit
    · rw [hunit, hcopies]
    · rw [hunit, List.flatMap_cons, hcopies]
      rfl

/-- The statements of an operation that left a result or a statement do what the operation does. -/
theorem Stage.deeds_of_plain (h : s.Stage m i) (hp : s.Performing m slotOf) (here : m.code[i]? = some op) (plain : op.isPlain)
    (done : s.unit i ≠ [] ∨ (s.frame i).out.isSome) : (s.unit i).flatMap (Draft.deeds slotOf s) = op.deed?.toList := by
  cases h with
  | untouched out _ unit => simp [unit, out] at done
  | @result op' xs e o built pushes out value unbound bound =>
    obtain rfl := Option.some.inj (here.symm.trans built.here)
    have hk := (hp.coherent.out i o out).1
    have hdeed := (Operation.deed_of_rvalue? built.effect value).trans (built.deed hp).1
    by_cases hr : (s.operand o).register = none
    · -- The value was not evaluated, and is therefore no call.
      rw [unbound hr, ← hdeed, ← content_of_unbound hr, hp.deed_content hk]
      rfl
    · have hb := Option.isSome_iff_ne_none.mpr hr
      obtain ⟨rs, hunit, hrs⟩ := bound hb
      rw [hunit, List.flatMap_cons, hp.deeds_copies hk hrs, List.append_nil, hp.deeds_define hb, hdeed]
  | statement built _ _ draft unit =>
    obtain rfl := Option.some.inj (here.symm.trans built.here)
    obtain ⟨hdeed, hk⟩ := built.deed hp
    rw [unit, List.flatMap_singleton, hp.deeds_of_draft? draft hk, hdeed]
  | caught here' | shared here' =>
    obtain rfl := Option.some.inj (here.symm.trans here')
    cases plain

/-- What a visit of an operation did is done by its statements. -/
theorem Stage.deeds (h : s.Stage m i) (hp : s.Performing m slotOf) {shares : Bool} {before after : Stack}
    (here : m.code[i]? = some op) (visit : Visit m shares i before after s op) :
    (s.unit i).flatMap (Draft.deeds slotOf s) = op.deed?.toList := by
  have quiet : op.isPlain = false → op.deed? = none ∧ ∀ op' xs e, ¬ s.Built m i op' xs e := by
    intro hn
    refine ⟨?_, fun op' xs e built => ?_⟩
    · cases op with
      | shuffle | line | label | unhandled => rfl
      | _ => cases hn
    · obtain rfl := Option.some.inj (here.symm.trans built.here)
      cases op with
      | shuffle | line | label | unhandled => exact absurd built.effect nofun
      | _ => cases hn
  cases visit with
  | plain plain performed =>
    refine h.deeds_of_plain hp here plain ?_
    cases hw : op.pushes with
    | none => exact Or.inl (performed.leaves.statement hw).1
    | some w =>
      obtain ⟨o, ho, -⟩ := performed.leaves.result w hw
      exact Or.inr (by rw [ho]; rfl)
  | shuffle | line | label | caught =>
    obtain ⟨hnone, hbuilt⟩ := quiet rfl
    rw [hnone, h.deeds_of_not_built hp hbuilt]
    rfl

end State

/-- A visit of a call that leaves a result evaluates it. -/
theorem Visit.bound_of_call {m : Method} {shares : Bool} {s : State} {i : Nat} {op : Operation} {o : OperandId} {before after : Stack}
    {xs : List OperandId} {c : Invoke OperandId}
    (h : Visit m shares i before after s op) (effect : op.effect xs = some (.call c)) (pushes : op.pushes.isSome)
    (out : (s.frame i).out = some o) (call : (s.operand o).value.isCall) : (s.operand o).register.isSome := by
  cases h with
  | plain plain performed =>
    obtain ⟨w, hw⟩ := Option.isSome_iff_exists.mp pushes
    obtain ⟨o', hout, hafter⟩ := performed.leaves.result w hw
    obtain rfl := Option.some.inj (out.symm.trans hout)
    obtain ⟨d, rfl⟩ := Operation.isCall_of_effect effect performed.effect
    rcases performed.spares o (by rw [hafter]; exact List.mem_cons_self) with hb | hv
    · exact hb
    · cases hval : (s.operand o).value <;> simp [hval, Rvalue.isImmediate, Rvalue.isCall] at hv call
  | shuffle | line | label | caught => cases effect

/-! ## Slots of registers -/

/-- The slot in use to which a register belongs. -/
def Registers.slotOf? (rs : Registers) (r : RegisterId) : Option Nat :=
  (rs.slots.map (·.1)).find? fun k => rs.slot? k == some r

/-- Where every slot has a register of its own, a register belongs to the slot whose register it is. -/
theorem Registers.Apart.slotOf?_eq_some {rs : Registers} {r : RegisterId} {k : Nat} (h : rs.Apart) :
    rs.slotOf? r = some k ↔ rs.slot? k = some r := by
  constructor
  · intro hk
    simpa using List.find?_some hk
  · intro hk
    have hmem : k ∈ rs.slots.map (·.1) := by
      simp only [slot?, Option.map_eq_some_iff] at hk
      obtain ⟨⟨k', r'⟩, hfind, rfl⟩ := hk
      obtain rfl : k' = k := by simpa using List.find?_some hfind
      exact List.mem_map_of_mem (List.mem_of_find?_eq_some hfind)
    cases hfind : rs.slotOf? r with
    | none => exact absurd (List.find?_eq_none.mp hfind k hmem) (by simp [hk])
    | some k' =>
      have hk' : rs.slot? k' = some r := by simpa using List.find?_some hfind
      rw [h.inj k' k r hk' hk]

/-- A register that was made for an operand belongs to no slot in use. -/
theorem Registers.Apart.slotOf?_of_synthesized {s : State} {rs : Registers} {r : RegisterId} (h : rs.Apart) (hg : s.registers.Grows rs)
    (hr : s.Synthesized r) : rs.slotOf? r = none := by
  cases hk : rs.slotOf? r with
  | none => rfl
  | some k => exact absurd (h.slotOf?_eq_some.mp hk) (hg.slot?_ne hr)

/-- The local slot to which a register belongs in the body of a method; none if it belongs to none. -/
def Method.slotOf? (m : Method) (r : RegisterId) : Option Nat :=
  match m.finalRegisters with
  | .ok registers => registers.slotOf? r
  | .error _ => none

/-! ## Deeds of a body -/

namespace Traversal.Explored

variable {m : Method} {t : Traversal State}

/-- Every call was evaluated once everything was visited. -/
theorem calls_bound (hx : t.Explored (Guide.confined m) fun _ _ => False) (hn : t.tasks = []) {o : OperandId} (hk : t.state.Known o)
    (hc : (t.state.operand o).value.isCall) : (t.state.operand o).register.isSome := by
  rcases hx.coherent.owned o hk with hout | ⟨e, he, rfl⟩
  · have hi : (t.state.operand o).insn < m.code.length := hx.coherent.owner hk
    have hr : m.Reachable (t.state.operand o).insn := hx.sound.2 _ fun hd => by
      rw [hd] at hout
      cases hout
    cases hx.coherent.stage _ hi with
    | untouched out | statement _ _ out | shared _ _ out =>
      rw [hout] at out
      cases out
    | caught _ _ _ out _ _ bound =>
      obtain rfl := Option.some.inj (hout.symm.trans out)
      exact bound
    | result built pushes out value =>
      obtain rfl := Option.some.inj (hout.symm.trans out)
      obtain ⟨c, rfl, -⟩ := Operation.eq_call_of_isCall built.effect value hc
      obtain ⟨before, after, passed⟩ := hx.passed hn hr built.here
      exact passed.visit.bound_of_call built.effect pushes hout hc
  · rw [(hx.coherent.entry _ e he).2.2.1] at hc
    cases hc

/-- Once everything was visited every register is known to belong to its slot or to none. -/
theorem performing (hx : t.Explored (Guide.confined m) fun _ _ => False) (hn : t.tasks = []) {rs : Registers} (hrs : rs.Apart)
    (hg : t.state.registers.Grows rs) : t.state.Performing m rs.slotOf? where
  coherent := hx.coherent
  full := hx.sound.1
  slots k r hk := hrs.slotOf?_eq_some.mpr (hg.keeps k r hk)
  synthesized _ hr := hrs.slotOf?_of_synthesized hg hr
  calls _ hk hc := hx.calls_bound hn hk hc

open Classical in
/-- The statements of an operation do what it does if control can reach it, and nothing otherwise. -/
theorem deeds_unit (hx : t.Explored (Guide.confined m) fun _ _ => False) (hn : t.tasks = []) {slotOf : RegisterId → Option Nat}
    (hp : t.state.Performing m slotOf) {i : Nat} {op : Operation} (here : m.code[i]? = some op) :
    (t.state.unit i).flatMap (Draft.deeds slotOf t.state) = if m.Reachable i then op.deed?.toList else [] := by
  have hstage := hx.coherent.stage i (List.getElem?_eq_some_iff.mp here).1
  split
  · rename_i hr
    obtain ⟨before, after, passed⟩ := hx.passed hn hr here
    exact hstage.deeds hp here passed.visit
  · rename_i hr
    have hframe : t.state.frame i = default := by
      by_contra hne
      exact hr (hx.sound.2 i hne)
    refine hstage.deeds_of_not_built hp fun op xs e built => ?_
    have hrow := built.row
    rw [hframe] at hrow
    cases hrow

end Traversal.Explored

namespace Layout.Plan

variable {p : Plan} {b : Body} {keepLines : Bool} {slotOf : RegisterId → Option Nat}

/-- The units of a plan do what they do for themselves, one after the other. -/
theorem deeds_placedUnits {lines : List (Option Nat)} (hlines : lines.length = p.state.units.size) :
    (p.placedUnits lines).flatMap (fun x => x.draft.deeds slotOf p.state) =
      (List.range p.state.units.size).flatMap fun i => (p.state.unit i).flatMap (Draft.deeds slotOf p.state) := by
  have hunit : ∀ x : (List Draft × Option Nat) × Nat,
      (placedUnit x).flatMap (fun y => y.draft.deeds slotOf p.state) = x.1.1.flatMap (Draft.deeds slotOf p.state) := fun x => by
    rw [placedUnit, List.flatMap_map]
  have hunits : p.state.units.toList = (List.range p.state.units.size).map p.state.unit := by
    refine List.ext_getElem (by simp) fun i hi _ => ?_
    have hi' : i < p.state.units.size := by simpa using hi
    simp [State.unit, hi']
  rw [placedUnits, List.flatMap_assoc]
  simp only [hunit]
  rw [← List.flatMap_map (fun x : (List Draft × Option Nat) × Nat => x.1.1) (List.flatMap (Draft.deeds slotOf p.state)),
    units_of_zip hlines, hunits, List.flatMap_map]

/-- Entries and the statement at the end do nothing. -/
theorem deeds_placed {lines : List (Option Nat)} (hlines : lines.length = p.state.units.size) :
    (p.placed lines).flatMap (fun x => x.draft.deeds slotOf p.state) =
      (List.range p.state.units.size).flatMap fun i => (p.state.unit i).flatMap (Draft.deeds slotOf p.state) := by
  have hentries : (p.placedEntries lines).flatMap (fun x => x.draft.deeds slotOf p.state) = [] := by
    rw [List.flatMap_eq_nil_iff]
    intro x hx
    obtain ⟨e, -, hx⟩ := List.mem_flatMap.mp hx
    simp only [List.mem_cons, List.not_mem_nil, or_false] at hx
    rcases hx with rfl | rfl <;> rfl
  have hend : p.placedEnd.flatMap (fun x => x.draft.deeds slotOf p.state) = [] := by
    unfold placedEnd
    split <;> rfl
  rw [placed_eq, List.flatMap_append, List.flatMap_append, hentries, hend, List.append_nil, List.append_nil, deeds_placedUnits hlines]

/-- A body does what the units of its plan do. -/
theorem Lays.deeds (h : p.Lays keepLines b) {identities rest : List Located} (hstmts : b.stmts = identities ++ rest)
    (hlen : identities.length = p.identities) (hid : ∀ x ∈ identities, x.stmt.deeds slotOf = []) :
    b.stmts.flatMap (·.stmt.deeds slotOf) =
      (List.range p.state.units.size).flatMap fun i => (p.state.unit i).flatMap (Draft.deeds slotOf p.state) := by
  obtain ⟨identities', rest', hstmts', hlen', hall⟩ := h.stmts
  obtain ⟨rfl, rfl⟩ := List.append_inj (hstmts.symm.trans hstmts') (hlen.trans hlen'.symm)
  have hrest : rest.flatMap (·.stmt.deeds slotOf) =
      (p.placed (sourceLines p.method keepLines)).flatMap fun x => x.draft.deeds slotOf p.state := by
    generalize p.placed (sourceLines p.method keepLines) = placed at hall
    clear hstmts hstmts'
    induction hall with
    | nil => rfl
    | cons hx _ ih => rw [List.flatMap_cons, List.flatMap_cons, ih, deeds_of_finish hx]
  rw [hstmts, List.flatMap_append, List.flatMap_eq_nil_iff.mpr hid, List.nil_append, hrest, deeds_placed h.lines]

/-- No statement behind the identities does more than one thing if no operation does. -/
theorem Lays.length_deeds (h : p.Lays keepLines b)
    (hunit : ∀ i < p.state.units.size, ((p.state.unit i).flatMap (Draft.deeds slotOf p.state)).length ≤ 1) {q : Nat} {located : Located}
    (hq : b.stmts[q]? = some located) (hid : p.identities ≤ q) : (located.stmt.deeds slotOf).length ≤ 1 := by
  obtain ⟨n, x, -, hx, hfinish⟩ := h.exists_placed hq hid
  rw [deeds_of_finish hfinish]
  rcases mem_placed (List.mem_of_getElem? hx) with ⟨hi, hd⟩ | ⟨e, -, hd | hd⟩ | hd
  · refine Nat.le_trans ?_ (hunit _ hi)
    exact (List.sublist_flatten_of_mem (List.mem_map_of_mem hd)).length_le
  all_goals simp [hd, Draft.deeds]

end Layout.Plan

/-- The body of a method does what the operations do that control can reach, in the order of the code, and nothing else. No statement does
more than one thing. -/
theorem Method.deeds_of_lower {m : Method} {keepLines : Bool} {b : Body} (h : m.lower keepLines = .ok b) :
    ∃ reached : List Nat, reached.Pairwise (· < ·) ∧ (∀ i, i ∈ reached ↔ m.Reachable i ∧ i < m.code.length) ∧
      b.stmts.flatMap (·.stmt.deeds m.slotOf?) = reached.filterMap (fun i => m.code[i]?.bind Operation.deed?) ∧
      ∀ located ∈ b.stmts, (located.stmt.deeds m.slotOf?).length ≤ 1 := by
  classical
  obtain ⟨p, t, hp, hmethod, ht, hstate, hlays⟩ := lays_of_lower h
  obtain ⟨identities, rs, rest, hincoming, hlength, hstmts⟩ := identities_of_lower h hp
  have hfinal := finalRegisters_of_layout hp hincoming
  obtain ⟨hx, hn⟩ := Traversal.complete_spec ht (Guide.confined_begins m)
  have hslot : m.slotOf? = rs.slotOf? := by
    funext r
    rw [slotOf?, hfinal]
  have hidentities : ∀ x ∈ identities, x.stmt.deeds rs.slotOf? = [] := fun x hx => by
    obtain ⟨i, -, r, heq⟩ := exists_of_forall₂ (Layout.identities_of_declareIncoming hincoming) hx
    rw [heq]
    rfl
  obtain ⟨hrs, hgrows⟩ := Registers.Apart.declareIncoming ⟨hx.coherent.slot_lt, hx.coherent.slot_inj⟩ (hstate ▸ hincoming)
  have hperforming := hx.performing hn hrs hgrows
  have hunit : ∀ i < m.code.length, (p.state.unit i).flatMap (Draft.deeds rs.slotOf? p.state) =
      if m.Reachable i then (m.code[i]?.bind Operation.deed?).toList else [] := fun i hi => by
    rw [hstate, hx.deeds_unit hn hperforming (List.getElem?_eq_getElem hi), List.getElem?_eq_getElem hi, Option.bind_some]
  have hunits : p.state.units.size = m.code.length := hmethod ▸ hlays.units
  rw [hslot]
  refine ⟨(List.range m.code.length).filter (m.Reachable ·), List.pairwise_lt_range.filter _, fun i => ?_, ?_, fun located hl => ?_⟩
  · simp [and_comm]
  · rw [hlays.deeds hstmts hlength hidentities, hunits, List.filterMap_filter, List.filterMap_eq_flatMap_toList]
    refine List.flatMap_congr fun i hi => ?_
    rw [hunit i (List.mem_range.mp hi)]
    by_cases hr : m.Reachable i <;> simp [hr]
  · obtain ⟨q, hq⟩ := List.getElem?_of_mem hl
    by_cases hid : q < p.identities
    · obtain ⟨i, -, r, heq⟩ := identity_of_lower h hp hq hid
      rw [heq]
      exact Nat.zero_le 1
    · refine hlays.length_deeds (fun i hi => ?_) hq (Nat.le_of_not_lt hid)
      rw [hunit i (hunits ▸ hi)]
      split
      · exact Option.length_toList_le
      · exact Nat.zero_le 1

/-- A method that throws the result of a call away, and has a call that control cannot reach. -/
def Method.discarding : Method :=
  { className := "Sample", name := "run", signature := { params := [.int], ret := .void }, isStatic := true, maxLocals := 1, maxStack := 1,
    code := [.load .int 0, .invoke .static ⟨"Sample", "f", ⟨[.int], .int⟩⟩, .shuffle .pop .one, .return .void,
      .invoke .static ⟨"Sample", "g", ⟨[], .void⟩⟩, .return .void]
    exceptions := [], localNames := [] }

/-- The call that control reaches is done, the other one is not. -/
theorem Method.deeds_discarding :
    ∃ (b : Body) (reached : List Nat), discarding.lower false = .ok b ∧ reached.Pairwise (· < ·) ∧
      (∀ i, i ∈ reached ↔ discarding.Reachable i ∧ i < discarding.code.length) ∧
      b.stmts.flatMap (·.stmt.deeds discarding.slotOf?) = [.call .static ⟨"Sample", "f", ⟨[.int], .int⟩⟩ 1, .return false] ∧
      reached.filterMap (fun i => discarding.code[i]?.bind Operation.deed?) =
        [.call .static ⟨"Sample", "f", ⟨[.int], .int⟩⟩ 1, .return false] ∧
      ∀ located ∈ b.stmts, (located.stmt.deeds discarding.slotOf?).length ≤ 1 := by
  have run : (discarding.lower false).map (fun b => b.stmts.flatMap (·.stmt.deeds discarding.slotOf?)) =
      .ok [.call .static ⟨"Sample", "f", ⟨[.int], .int⟩⟩ 1, .return false] := by decide +kernel
  obtain ⟨b, hb, deeds⟩ := map_eq_ok.mp run
  obtain ⟨reached, ascending, hreached, same, atMostOne⟩ := deeds_of_lower hb
  exact ⟨b, reached, hb, ascending, hreached, deeds, same.symm.trans deeds, atMostOne⟩

end ThreeAddress
