import ThreeAddress.Proofs.Lowering.Joins
import ThreeAddress.Proofs.Lowering.Spills

/-!
# Visits

What it does to visit an instruction: `Performed` relates the stack before and after the visit of a plain operation to what the state
remembers of the instruction, and every later state keeps it. The operands that stay on the stack are safe from what the operation writes.
-/

namespace ThreeAddress

open State

variable {α : Type} {m : Method} {shares : Bool} {s s' s'' : State} {i : Nat} {o : OperandId} {r : RegisterId} {u : PUnit}
  {op : Operation} {xs : List OperandId} {e : Effect OperandId}

/-- What an effect writes does not change what an operand stands for. -/
def Effect.Spares (s : State) (o : OperandId) : Effect α → Prop
  | .store k _ | .increment k _ => ∀ r, s.registers.slot? k = some r → Lowering.Frozen (fun s o => s.mentions r o) s o
  | .call _ | .write _ _ => Lowering.Frozen (fun s o => !(s.operand o).value.isImmediate) s o
  | _ => True

/-- The slot to which an effect writes is in use. -/
def Effect.SlotUsed (s : State) : Effect α → Prop
  | .load k | .store k _ | .increment k _ => ∃ r, s.registers.slot? k = some r
  | _ => True

/-- What a visit of a plain operation leaves behind, on the stack and in the state. -/
structure Leaves (shares : Bool) (i : Nat) (op : Operation) (xs : List OperandId) (rest after : Stack) (s : State) : Prop where
  result : ∀ w, op.pushes = some w → ∃ o, (s.frame i).out = some o ∧ after = pushOperand o w rest
  statement : op.pushes = none → s.unit i ≠ [] ∧ after = rest
  /-- Without joins every visit finds the operands of the first one. -/
  head : shares = false → (s.frame i).rows.head? = some (op.row xs)

/-- A plain operation was visited: what it took from the stack and what it left behind. -/
structure Performed (shares : Bool) (i : Nat) (op : Operation) (before after : Stack) (xs : List OperandId) (rest : Stack)
    (e : Effect OperandId) (s : State) : Prop where
  pop : popOperands op.takes.reverse before = some (xs.reverse, rest)
  effect : op.effect xs = some e
  leaves : Leaves shares i op xs rest after s
  slot : e.SlotUsed s
  spares : ∀ o, .operand o ∈ after → e.Spares s o

/-! ## What later states keep -/

theorem Effect.Spares.mono {e : Effect α} (h : e.Spares s o) (hu : e.SlotUsed s) (he : s.Extends s') (hc : s.Coherent m)
    (hc' : s'.Coherent m) (hk : s.Known o) : e.Spares s' o := by
  have slot : ∀ {k : Nat}, (∃ r, s.registers.slot? k = some r) →
      (∀ r, s.registers.slot? k = some r → Lowering.Frozen (fun s o => s.mentions r o) s o) →
      ∀ r, s'.registers.slot? k = some r → Lowering.Frozen (fun s o => s.mentions r o) s' o := by
    rintro k ⟨q, hq⟩ hf r hr
    rw [he.slot k q hq, Option.some.injEq] at hr
    subst hr
    rcases hf q hq with hb | hm
    · exact Or.inl (he.bound o hb)
    · exact Or.inr (Lowering.mentions_stable he hc hc' hq o hk hm)
  have heap : Lowering.Frozen (fun s o => !(s.operand o).value.isImmediate) s o →
      Lowering.Frozen (fun s o => !(s.operand o).value.isImmediate) s' o := by
    rintro (hb | hv)
    · exact Or.inl (he.bound o hb)
    · exact Or.inr (by simpa only [he.value o hk] using hv)
  cases e with
  | store k v | increment k v => exact slot hu h
  | call c => exact heap h
  | write place v => exact heap h
  | _ => trivial

theorem Effect.SlotUsed.mono {e : Effect α} (h : e.SlotUsed s) (he : s.Extends s') : e.SlotUsed s' := by
  cases e with
  | load k | store k v | increment k v =>
    obtain ⟨r, hr⟩ := h
    exact ⟨r, he.slot k r hr⟩
  | _ => trivial

theorem Leaves.mono {rest after : Stack} (h : Leaves shares i op xs rest after s) (he : s.Extends s') :
    Leaves shares i op xs rest after s' where
  result w hw := by
    obtain ⟨o, ho, hafter⟩ := h.result w hw
    exact ⟨o, he.out i o ho, hafter⟩
  statement hn := ⟨he.unit i (h.statement hn).1, (h.statement hn).2⟩
  head hs := he.head_rows (h.head hs)

theorem Performed.mono {before after rest : Stack} (h : Performed shares i op before after xs rest e s) (he : s.Extends s')
    (hc : s.Coherent m) (hc' : s'.Coherent m) (hk : s.StackKnown after) : Performed shares i op before after xs rest e s' :=
  ⟨h.pop, h.effect, h.leaves.mono he, h.slot.mono he, fun o ho => (h.spares o ho).mono h.slot he hc hc' (hk o ho)⟩

/-! ## What a visit leaves without joins -/

section
variable {before after rest : Stack}

/-- The statement of an operation without a result carries its effect out. -/
theorem Performed.draft (h : Performed false i op before after xs rest e s) (hc : s.Coherent m) (here : m.code[i]? = some op)
    (hn : op.pushes = none) : ∃ d, s.unit i = [d] ∧ e.draft? s.registers.slot? = some d := by
  have hunit := (h.leaves.statement hn).1
  have hhead := h.leaves.head rfl
  cases hc.stage i (List.getElem?_eq_some_iff.mp here).1 with
  | untouched _ _ unit => exact absurd unit hunit
  | result built pushes =>
    obtain rfl := Option.some.inj (here.symm.trans built.here)
    simp [hn] at pushes
  | statement built _ _ draft unit =>
    obtain rfl := Option.some.inj (here.symm.trans built.here)
    obtain rfl := Operation.row_inj (Option.some.inj (hhead.symm.trans built.row))
    obtain rfl := Option.some.inj (h.effect.symm.trans built.effect)
    exact ⟨_, unit, draft⟩
  | caught _ _ _ _ rows | shared _ _ _ rows => simp [rows] at hhead

/-- The result of an operation is the value of its effect. It is evaluated by the statement of the operation, or waits to be used. -/
theorem Performed.result (h : Performed false i op before after xs rest e s) (hc : s.Coherent m) (he : s.Exclusive)
    (here : m.code[i]? = some op) {w : Bool} (hw : op.pushes = some w) :
    ∃ o, after = pushOperand o w rest ∧ s.Known o ∧ (s.frame i).out = some o ∧
      e.rvalue? s.registers.slot? = some (s.operand o).value ∧
      ((s.operand o).register = none ∧ s.unit i = [] ∨ ∃ r, (s.operand o).register = some r ∧ s.unit i = [.define o]) := by
  obtain ⟨o, hout, hafter⟩ := h.leaves.result w hw
  have hhead := h.leaves.head rfl
  refine ⟨o, hafter, (hc.out _ o hout).1, hout, ?_⟩
  cases hc.stage i (List.getElem?_eq_some_iff.mp here).1 with
  | untouched out => simp [hout] at out
  | statement _ _ out | shared _ _ out => simp [hout] at out
  | caught _ _ _ _ rows => simp [rows] at hhead
  | @result op' xs' e' o' built _ out value unbound bound =>
    obtain rfl := Option.some.inj (hout.symm.trans out)
    obtain rfl := Option.some.inj (here.symm.trans built.here)
    obtain rfl := Operation.row_inj (Option.some.inj (hhead.symm.trans built.row))
    obtain rfl := Option.some.inj (h.effect.symm.trans built.effect)
    refine ⟨value, ?_⟩
    cases hr : (s.operand o).register with
    | none => exact Or.inl ⟨rfl, unbound hr⟩
    | some r =>
      obtain ⟨rs, hunit, -⟩ := bound (by simp [hr])
      have hlen := he.uncopied i
      rw [hunit, List.length_cons] at hlen
      obtain rfl : rs = [] := by
        cases rs with
        | nil => rfl
        | cons => simp [copies] at hlen
      exact Or.inr ⟨r, rfl, hunit⟩

end

namespace Lowering

/-! ## Carrying an effect out -/

theorem mem_operandsOf {stack : Stack} : o ∈ operandsOf stack ↔ .operand o ∈ stack := by
  simp only [operandsOf, List.mem_filterMap, List.mem_reverse]
  constructor
  · rintro ⟨w, hw, heq⟩
    cases w with
    | operand p => simpa [← Option.some.inj heq] using hw
    | wideHalf => cases heq
  · intro h
    exact ⟨_, h, rfl⟩

/-- The operands of an operation are taken, and its effect is to be carried out. -/
structure Ready (m : Method) (shares : Bool) (i : Nat) (op : Operation) (xs : List OperandId) (e : Effect OperandId) (s : State) :
    Prop where
  coherent : s.Coherent m
  here : m.code[i]? = some op
  effect : op.effect xs = some e
  known : ∀ o ∈ xs, s.Known o
  stack : s.StackKnown s.stack
  immediate : e.isStore = false → (s.frame i).out = none → s.unit i = [] → ∀ o ∈ xs, (s.content o).isImmediate
  alike : shares = false → s.Exclusive ∧ ∀ first, (s.frame i).rows.head? = some first → op.row xs = first

theorem Ready.spills (h : Ready m shares i op xs e s) (hs : Spills m shares s s.stack s') : Ready m shares i op xs e s' := by
  have he := hs.changes.extends h.coherent
  refine ⟨hs.changes.coherent h.coherent, h.here, h.effect, fun o ho => he.known (h.known o ho), ?_, ?_, ?_⟩
  · rw [hs.stack]
    exact he.stackKnown h.stack
  · rw [hs.frame]
    intro hstore hout hunit o ho
    refine he.isImmediate (h.known o ho) (h.immediate hstore hout ?_ o ho)
    by_contra hne
    exact he.unit i hne hunit
  · rintro rfl
    obtain ⟨hex, hrow⟩ := h.alike rfl
    rw [hs.frame]
    exact ⟨hs.changes.exclusive h.coherent hex, hrow⟩

theorem leaveResult_spec {v : Rvalue OperandId} (h : Yields (leaveResult i (op.row xs) op.pushes v) s u s')
    (hr : Ready m shares i op xs e s) (pushes : op.pushes.isSome) (value : e.rvalue? s.registers.slot? = some v) :
    Changes m shares s s' ∧ Leaves shares i op xs s.stack s'.stack s' ∧ s'.StackKnown s'.stack := by
  simp only [leaveResult, yields_bind, yields_push] at h
  obtain ⟨o, t, hp, rfl⟩ := h
  have hi := (List.getElem?_eq_some_iff.mp hr.here).1
  obtain ⟨hq, hout, hhead⟩ := produce_spec hp hr.coherent hr.here hr.effect pushes value hr.known (fun hout =>
    hr.immediate (Effect.isStore_of_rvalue? value) hout ((hr.coherent.stage i hi).of_no_result hr.here hr.effect pushes hout)) hr.alike
  have he := hq.changes.extends hr.coherent
  refine ⟨hq.changes.tail (.stack _), ⟨?_, ?_, hhead⟩, ?_⟩
  · intro w hw
    exact ⟨o, hout, by rw [withStack_stack, hq.stack, hw]; rfl⟩
  · intro hn
    simp [hn] at pushes
  · intro p hp
    rw [withStack_stack, hq.stack] at hp
    rcases List.mem_cons.mp hp with heq | hp
    · cases heq
      exact ((hq.changes.coherent hr.coherent).out i o hout).1
    · have hp' : .operand p ∈ s.stack := by
        split at hp
        · simpa using hp
        · exact hp
      exact he.known (hr.stack p hp')

theorem emitStatement_spec {d : Draft} (h : Yields (emit i (op.row xs) d) s u s') (hr : Ready m shares i op xs e s)
    (pushes : op.pushes = none) (draft : e.draft? s.registers.slot? = some d) :
    Changes m shares s s' ∧ Leaves shares i op xs s.stack s'.stack s' ∧ s'.StackKnown s'.stack := by
  have hi := (List.getElem?_eq_some_iff.mp hr.here).1
  have settled : s.unit i = [] → ∀ o ∈ d.demanded, (s.content o).isImmediate := by
    intro hunit o ho
    obtain ⟨hmem, hstore⟩ := Effect.mem_of_mem_demanded draft ho
    obtain ⟨hout, -⟩ := (hr.coherent.stage i hi).of_no_statement hr.here hr.effect pushes hunit
    exact hr.immediate hstore hout hunit o (Operation.mem_of_mem_operands hr.effect hmem)
  obtain ⟨hq, hunit, hhead⟩ := emit_spec h hr.coherent hr.here hr.effect pushes draft hr.known settled
    hr.alike
  refine ⟨hq.changes, ⟨?_, fun _ => ⟨hunit, hq.stack⟩, hhead⟩, ?_⟩
  · intro w hw
    simp [hw] at pushes
  · rw [hq.stack]
    exact (hq.changes.extends hr.coherent).stackKnown hr.stack

/-- Freezing everything on the stack spares it from calls and writes to the heap. -/
theorem freezeAll_spec (shares : Bool) (h : Yields freezeAll s u s') (hc : s.Coherent m) (hk : s.StackKnown s.stack) :
    Spills m shares s s.stack s' ∧
      ∀ o, .operand o ∈ s'.stack → Frozen (fun s o => !(s.operand o).value.isImmediate) s' o := by
  simp only [freezeAll, yields_bind, yields_get] at h
  obtain ⟨s, s, ⟨rfl, rfl⟩, h⟩ := h
  obtain ⟨hs, hall⟩ := freezes_spec shares h hc (fun o ho => hk o (mem_operandsOf.mp ho)) (by
    intro t t' o _ _ _ he hk hrisk _
    simpa only [he.value o hk] using hrisk)
  exact ⟨hs, fun o ho => hall o (mem_operandsOf.mpr (hs.stack ▸ ho))⟩

/-- Freezing the readers of a slot spares the stack from a write to the slot. -/
theorem freezeReadersOf_spec (shares : Bool) {k : Nat} (h : Yields (freezeReadersOf r) s u s') (hc : s.Coherent m)
    (hk : s.StackKnown s.stack) (hslot : s.registers.slot? k = some r) :
    Spills m shares s s.stack s' ∧ ∀ o, .operand o ∈ s'.stack → Frozen (fun s o => s.mentions r o) s' o := by
  simp only [freezeReadersOf, yields_bind, yields_get] at h
  obtain ⟨s, s, ⟨rfl, rfl⟩, h⟩ := h
  obtain ⟨hs, hall⟩ := freezes_spec shares h hc (fun o ho => hk o (mem_operandsOf.mp ho)) (by
    intro t t' o hct hct' hst he hk hrisk _
    exact mentions_stable he hct hct' (hst.slot k r hslot) o hk hrisk)
  exact ⟨hs, fun o ho => hall o (mem_operandsOf.mpr (hs.stack ▸ ho))⟩

/-- Asking for a slot leaves everything else alone. -/
theorem slotRegister_spec (shares : Bool) {k : Nat} (h : Yields (slotRegister k) s r s') :
    Spills m shares s s.stack s' ∧ s'.registers.slot? k = some r := by
  obtain ⟨rs, hs, rfl⟩ := yields_slotRegister.mp h
  exact ⟨⟨.single (.slot hs), rfl, rfl⟩, Registers.slot?_self hs⟩

/-- What carrying an effect out does. -/
structure Carried (m : Method) (shares : Bool) (i : Nat) (op : Operation) (xs : List OperandId) (e : Effect OperandId) (s s' : State) :
    Prop where
  changes : Changes m shares s s'
  leaves : Leaves shares i op xs s.stack s'.stack s'
  slot : e.SlotUsed s'
  spares : ∀ o, .operand o ∈ s'.stack → e.Spares s' o
  stack : s'.StackKnown s'.stack

/-- What was left behind is still there after the stack is frozen. -/
theorem Carried.freeze {d : Stack} (hch : Changes m shares s s') (hl : Leaves shares i op xs s.stack s'.stack s')
    (hk : s'.StackKnown s'.stack) (hc : s.Coherent m) (hd : d = s'.stack) (hs : Spills m shares s' d s'')
    (slot : e.SlotUsed s'') (spares : ∀ o, .operand o ∈ s''.stack → e.Spares s'' o) : Carried m shares i op xs e s s'' := by
  subst hd
  have he := hs.changes.extends (hch.coherent hc)
  refine ⟨hch.trans hs.changes, ?_, slot, spares, ?_⟩
  · rw [hs.stack]
    exact hl.mono he
  · rw [hs.stack]
    exact he.stackKnown hk

/-- Every effect leaves behind what it should, and nothing on the stack that its write could change. -/
theorem lowerEffect_spec (h : Yields (lowerEffect i (op.row xs) op.pushes e) s u s') (hr : Ready m shares i op xs e s) :
    Carried m shares i op xs e s s' := by
  have pushes : ∀ {b : Bool}, e.leaves? = some b → op.pushes.isSome = b := Operation.isSome_pushes hr.effect
  have nothing : e.leaves? = some false → op.pushes = none := fun hb => by simpa using pushes hb
  cases e with
  | constant c | operator e | read place =>
    obtain ⟨hch, hl, hk⟩ := leaveResult_spec h hr (pushes rfl) rfl
    exact ⟨hch, hl, trivial, fun _ _ => trivial, hk⟩
  | load k =>
    simp only [lowerEffect, yields_bind] at h
    obtain ⟨r, t, hslot, h⟩ := h
    obtain ⟨hs, hused⟩ := slotRegister_spec shares hslot
    obtain ⟨hch, hl, hk⟩ := leaveResult_spec h (hr.spills hs) (pushes rfl) (by simp [Effect.rvalue?, hused])
    rw [hs.stack] at hl
    exact ⟨hs.changes.trans hch, hl, ⟨r, (hch.extends (hs.changes.coherent hr.coherent)).slot k r hused⟩, fun _ _ => trivial, hk⟩
  | call c =>
    simp only [lowerEffect, yields_bind, yields_ite] at h
    have finish : ∀ {t : State}, Changes m shares s t → Leaves shares i op xs s.stack t.stack t → t.StackKnown t.stack →
        Yields freezeAll t u s' → Carried m shares i op xs (.call c) s s' := by
      intro t hch hl hk hf
      obtain ⟨hs, hall⟩ := freezeAll_spec shares hf (hch.coherent hr.coherent) hk
      exact Carried.freeze hch hl hk hr.coherent rfl hs trivial hall
    rcases h with ⟨hp, _, t, hemit, hf⟩ | ⟨hp, _, t, hleave, hf⟩
    · obtain ⟨hch, hl, hk⟩ := emitStatement_spec hemit hr hp rfl
      exact finish hch hl hk hf
    · obtain ⟨hch, hl, hk⟩ := leaveResult_spec hleave hr (Option.isSome_iff_ne_none.mpr hp) rfl
      exact finish hch hl hk hf
  | store k v =>
    simp only [lowerEffect, yields_bind] at h
    obtain ⟨r, t, hslot, _, t', hemit, hf⟩ := h
    obtain ⟨hs, hused⟩ := slotRegister_spec shares hslot
    have hct := hs.changes.coherent hr.coherent
    obtain ⟨hch, hl, hk⟩ := emitStatement_spec hemit (hr.spills hs) (nothing rfl) (by simp [Effect.draft?, hused])
    have hused' := (hch.extends hct).slot k r hused
    obtain ⟨hs', hall⟩ := freezeReadersOf_spec shares hf (hch.coherent hct) hk hused'
    have hused'' := (hs'.changes.extends (hch.coherent hct)).slot k r hused'
    rw [hs.stack] at hl
    refine Carried.freeze (hs.changes.trans hch) hl hk hr.coherent rfl hs' ⟨r, hused''⟩ fun o ho q hq => ?_
    rw [hused'', Option.some.injEq] at hq
    exact hq ▸ hall o ho
  | increment k amount =>
    simp only [lowerEffect, yields_bind] at h
    obtain ⟨r, t, hslot, _, t', hf, hemit⟩ := h
    obtain ⟨hs, hused⟩ := slotRegister_spec shares hslot
    have hr₁ := hr.spills hs
    obtain ⟨hs', hall⟩ := freezeReadersOf_spec shares hf hr₁.coherent hr₁.stack hused
    have hused' := (hs'.changes.extends hr₁.coherent).slot k r hused
    have hr₂ := hr₁.spills hs'
    obtain ⟨hch, hl, hk⟩ := emitStatement_spec hemit hr₂ (nothing rfl) (by simp [Effect.draft?, hused'])
    have he := hch.extends hr₂.coherent
    have hstack : s'.stack = t'.stack := (hl.statement (nothing rfl)).2
    rw [hs'.stack, hs.stack] at hl
    refine ⟨(hs.changes.trans hs'.changes).trans hch, hl, ⟨r, he.slot k r hused'⟩, fun o ho => ?_, hk⟩
    rw [hstack] at ho
    have hspares : (Effect.increment k amount : Effect OperandId).Spares t' o := by
      intro q hq
      rw [hused', Option.some.injEq] at hq
      exact hq ▸ hall o ho
    exact hspares.mono ⟨r, hused'⟩ he hr₂.coherent (hch.coherent hr₂.coherent) (hr₂.stack o ho)
  | write place v =>
    simp only [lowerEffect, yields_bind] at h
    obtain ⟨_, t, hemit, hf⟩ := h
    obtain ⟨hch, hl, hk⟩ := emitStatement_spec hemit hr (nothing rfl) rfl
    obtain ⟨hs, hall⟩ := freezeAll_spec shares hf (hch.coherent hr.coherent) hk
    exact Carried.freeze hch hl hk hr.coherent rfl hs trivial hall
  | _ =>
    obtain ⟨hch, hl, hk⟩ := emitStatement_spec h hr (nothing rfl) rfl
    exact ⟨hch, hl, trivial, fun _ _ => trivial, hk⟩

/-! ## Plain operations -/

/-- Whatever is not stored must need no evaluation. -/
theorem demands_ne_any {e : Effect α} {xs : List α} (effect : op.effect xs = some e) (store : e.isStore = false) :
    ∀ d ∈ op.demands, d ≠ .any := by
  cases op with
  | store kind k =>
    rcases xs with - | ⟨x, - | ⟨y, xs⟩⟩ <;> simp only [Operation.effect, reduceCtorEq, Option.some.injEq] at effect
    subst effect
    cases store
  | invoke kind method =>
    cases kind <;> simp [Operation.demands, InvokeKind.hasReceiver]
  | _ => simp [Operation.demands]

theorem yields_firstVisit {b : Bool} :
    Yields (firstVisit i) s b s' ↔ b = ((s.frame i).out.isNone && (s.unit i).isEmpty) ∧ s' = s := by
  simp only [firstVisit, yields_bind, yields_get, yields_pure]
  constructor
  · rintro ⟨_, _, ⟨rfl, rfl⟩, h⟩
    exact h
  · intro h
    exact ⟨s, s, ⟨rfl, rfl⟩, h⟩

/-- The widths in the wants of an operation are those of what it takes. -/
theorem widths_of_wants (op : Operation) : ((op.demands.zip op.takes).reverse.map (·.2)) = op.takes.reverse := by
  rw [List.map_reverse, List.map_snd_zip (Nat.le_of_eq op.length_demands.symm)]

/-- Once the operands of an operation are taken, its effect can be carried out. -/
theorem ready_of_takeAll {popped : List OperandId} (htake : Yields (takeAll i ((s.frame i).out.isNone && (s.unit i).isEmpty)
      (op.demands.zip op.takes).reverse) s popped s') (hc : s.Coherent m) (here : m.code[i]? = some op) (hk : s.StackKnown s.stack)
    (effect : op.effect popped.reverse = some e)
    (alike : shares = false → s.Exclusive ∧ ∀ xs rest, popOperands op.takes.reverse s.stack = some (xs.reverse, rest) →
      ∀ first, (s.frame i).rows.head? = some first → op.row xs = first) :
    ∃ rest, popOperands op.takes.reverse s.stack = some (popped, rest) ∧ Spills m shares s rest s' ∧
      Ready m shares i op popped.reverse e s' := by
  obtain ⟨rest, hpop, hs, hall⟩ := takeAll_spec shares htake hc hk
  rw [widths_of_wants] at hpop
  have hmem := mem_of_popOperands hpop
  have he := hs.changes.extends hc
  refine ⟨rest, hpop, hs, hs.changes.coherent hc, here, effect, ?_, ?_, ?_, ?_⟩
  · exact fun o ho => he.known (hk o (hmem.1 o (List.mem_reverse.mp ho)))
  · rw [hs.stack]
    exact he.stackKnown fun o ho => hk o (hmem.2 _ ho)
  · intro hstore hout hunit' o ho
    rw [hs.frame] at hout
    have hunit : s.unit i = [] := by
      by_contra hne
      exact he.unit i hne hunit'
    simp only [hout, hunit, Option.isNone_none, List.isEmpty_nil, Bool.and_self] at hall
    obtain ⟨want, hwant, hmeets⟩ : ∃ want ∈ (op.demands.zip op.takes).reverse, Meets (want.1.onVisit true) s' o := by
      obtain ⟨k, hk⟩ := List.getElem?_of_mem (List.mem_reverse.mp ho)
      obtain ⟨hlt, rfl⟩ := List.getElem?_eq_some_iff.mp hk
      exact ⟨_, List.getElem_mem (hall.length_eq ▸ hlt), hall.get (hall.length_eq ▸ hlt) hlt⟩
    exact hmeets.isImmediate (demands_ne_any effect hstore _ (List.of_mem_zip (List.mem_reverse.mp hwant)).1)
  · rintro rfl
    obtain ⟨hex, hrow⟩ := alike rfl
    rw [hs.frame]
    exact ⟨hs.changes.exclusive hc hex, hrow _ rest (by rw [List.reverse_reverse]; exact hpop)⟩

/-- A visit of a plain operation takes its operands from the stack and leaves its result there. -/
theorem lowerPlain_spec (h : Yields (lowerPlain i op) s u s') (hc : s.Coherent m) (here : m.code[i]? = some op)
    (hk : s.StackKnown s.stack)
    (alike : shares = false → s.Exclusive ∧ ∀ xs rest, popOperands op.takes.reverse s.stack = some (xs.reverse, rest) →
      ∀ first, (s.frame i).rows.head? = some first → op.row xs = first) :
    Changes m shares s s' ∧ s'.StackKnown s'.stack ∧ ∃ xs rest e, Performed shares i op s.stack s'.stack xs rest e s' := by
  simp only [lowerPlain, yields_bind, yields_firstVisit] at h
  obtain ⟨_, _, ⟨rfl, rfl⟩, popped, t, htake, h⟩ := h
  split at h
  · rename_i e heffect
    obtain ⟨rest, hpop, hs, hr⟩ := ready_of_takeAll htake hc here hk heffect alike
    have hcar := lowerEffect_spec h hr
    have hleaves := hcar.leaves
    rw [hs.stack] at hleaves
    exact ⟨hs.changes.trans hcar.changes, hcar.stack, popped.reverse, rest, e,
      ⟨by rw [List.reverse_reverse]; exact hpop, heffect, hleaves, hcar.slot, hcar.spares⟩⟩
  · exact absurd h yields_fail

end Lowering
end ThreeAddress
