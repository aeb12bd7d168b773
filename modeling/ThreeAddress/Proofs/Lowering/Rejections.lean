import ThreeAddress.Proofs.Lowering.Visit

/-!
# Why lowering an operation fails

Lowering fails for what a method does: it pops what is not there, uses one word of a wide value or a slot that it does not declare, or
joins rows of operands of different lengths. `Fault.Warranted` says for each fault what the operation and the state must be like for it
to arise. In a coherent state the checks that lowering makes of its own work all pass: what is put into a register has no statement yet,
and what is moved from one register to another is defined in the first.
-/

namespace ThreeAddress

open State

/-- The fault reports that lowering lost track of its own work, or of a label. -/
def Fault.isInternal : Fault → Bool
  | .undefinedLabel _ | .notImmediate _ | .unitCollision _ | .missingDefinition _ => true
  | _ => false

/-- The fault reports something that the method does. -/
def Fault.blamesMethod : Fault → Bool
  | .stackUnderflow _ | .inconsistentMerge _ | .unsupported _ _ _ | .malformedWidePair _ | .invalidLocal _ _ | .stackEffect _ _ _ => true
  | _ => false

theorem Fault.isInternal_of_blamesMethod {f : Fault} (h : f.blamesMethod) : f.isInternal = false := by
  cases f <;> first | rfl | cases h

/-- The words that an operation moves or consumes are on a stack. -/
def Operation.finds (op : Operation) (stack : Stack) : Bool :=
  match op with
  | .shuffle how count => (shuffleWords how count stack).isSome
  | op => (popOperands op.takes.reverse stack).isSome

/-- The local slot that an operation names. -/
def Operation.slot? : Operation → Option Nat
  | .load _ k | .store _ k | .increment k _ => some k
  | _ => none

/-- The local slot that an effect names. -/
def Effect.slot? {α : Type} : Effect α → Option Nat
  | .load k | .store k _ | .increment k _ => some k
  | _ => none

/-- What a fault of lowering the operation at an index says about that operation and the state in which it is lowered. -/
def Fault.Warranted (i : Nat) (op : Operation) (s : State) : Fault → Prop
  | .stackUnderflow j | .malformedWidePair j => j = i ∧ op.finds s.stack = false
  | .inconsistentMerge j => j = i ∧ ∃ row ∈ (s.frame i).rows, row.length ≠ op.takes.length
  | .unsupported j opcode mnemonic => j = i ∧ op = .unhandled opcode mnemonic
  | .invalidLocal k bound => op.slot? = some k ∧ bound = s.registers.maxLocals ∧ bound ≤ k
  | _ => False

/-- The effect of an operation names the slot that the operation names. -/
theorem Operation.slot?_of_effect {α : Type} {op : Operation} {xs : List α} {e : Effect α} (effect : op.effect xs = some e) :
    e.slot? = op.slot? := by
  revert effect
  fun_cases Operation.effect op xs <;> intro effect <;>
    first
    | (cases effect <;> rfl)
    | (obtain ⟨b, -, rfl⟩ := Option.map_eq_some_iff.mp effect; rfl)

/-- Popping operands gives one for each width. -/
theorem length_of_popped {ws : List Bool} {os : List OperandId} {stack rest : Stack} (h : popOperands ws stack = some (os, rest)) :
    os.length = ws.length := by
  induction ws generalizing os stack with
  | nil =>
    simp only [popOperands, Option.some.injEq, Prod.mk.injEq] at h
    simp [← h.1]
  | cons w ws ih =>
    simp only [popOperands, Option.bind_eq_bind, Option.bind_eq_some_iff, Option.pure_def, Option.some.injEq, Prod.mk.injEq] at h
    obtain ⟨⟨o, mid⟩, -, ⟨os', rest'⟩, hos, rfl, rfl⟩ := h
    simp [ih hos]

/-! ## What a coherent state knows of an operand -/

namespace State

variable {m : Method} {s : State} {o : OperandId}

/-- Nothing stands yet where an operand without a register is produced. -/
theorem Coherent.unit_of_unbound (h : s.Coherent m) (hk : s.Known o) (hn : (s.operand o).register = none) :
    s.unit (s.operand o).insn = [] := by
  have hout : (s.frame (s.operand o).insn).out = some o := by
    rcases h.owned o hk with ho | ⟨e, he, rfl⟩
    · exact ho
    · obtain ⟨-, -, -, hb, -⟩ := h.entry _ e he
      simp [hn] at hb
  cases h.stage _ (h.owner hk) with
  | untouched out | statement _ _ out | shared _ _ out => simp [hout] at out
  | result _ _ out _ unbound =>
    obtain rfl := Option.some.inj (hout.symm.trans out)
    exact unbound hn
  | caught _ _ _ out _ _ bound =>
    obtain rfl := Option.some.inj (hout.symm.trans out)
    simp [hn] at bound

/-- An operand with a register is defined in it where it is produced, or in the entry of its handler. -/
theorem Coherent.definesOperand (h : s.Coherent m) (hb : (s.operand o).register.isSome) : Lowering.definesOperand s o := by
  obtain ⟨r, hr⟩ := Option.isSome_iff_exists.mp hb
  have hk := known_of_register hr
  unfold Lowering.definesOperand
  rcases h.owned o hk with hout | ⟨e, he, rfl⟩
  · cases h.stage _ (h.owner hk) with
    | untouched out | statement _ _ out | shared _ _ out => simp [hout] at out
    | result built _ out _ _ bound =>
      obtain rfl := Option.some.inj (hout.symm.trans out)
      obtain ⟨rs, hunit, -⟩ := bound hb
      have hnone : s.handlerEntry? (s.operand o).insn = none := by
        refine Option.eq_none_iff_forall_ne_some.mpr fun e he => ?_
        obtain ⟨-, -, -, -, here⟩ := h.entry _ e he
        obtain rfl := Option.some.inj (here.symm.trans built.here)
        cases built.effect
      simp [hnone, hunit]
    | caught _ _ entry out _ _ _ unit =>
      obtain rfl := Option.some.inj (hout.symm.trans out)
      obtain ⟨rs, hunit, -⟩ := unit
      simp [entry, hunit]
  · simp [he]

/-- An instruction with an effect that was visited remembers the operands of its first visit. -/
theorem Coherent.exists_row {i : Nat} {op : Operation} {xs : List OperandId} {e : Effect OperandId} (h : s.Coherent m)
    (here : m.code[i]? = some op) (effect : op.effect xs = some e) (hv : (s.frame i).out.isSome ∨ s.unit i ≠ []) :
    ∃ row, (s.frame i).rows.head? = some row := by
  cases h.stage i (List.getElem?_eq_some_iff.mp here).1 with
  | untouched out _ unit => simp [out, unit] at hv
  | result built | statement built => exact ⟨_, built.row⟩
  | caught here' | shared here' =>
    obtain rfl := Option.some.inj (here.symm.trans here')
    cases effect

end State

/-! ## Steps that fail -/

namespace Lowering

variable {α β : Type} {P : Fault → Prop} {m : Method} {s s' : State} {i : Nat} {o : OperandId} {r : RegisterId}

/-- If a step fails from a state, the fault is of a kind. -/
def FailsBy (P : Fault → Prop) (x : LowerM α) (s : State) : Prop :=
  ∀ f, x.run s = .error f → P f

/-- The faults of popping words that are not there are of the kind. -/
def OnWords (P : Fault → Prop) (i : Nat) : Prop :=
  P (.stackUnderflow i) ∧ P (.malformedWidePair i)

theorem failsBy_pure {a : α} : FailsBy P (pure a) s := by
  intro f h
  cases h

theorem failsBy_get : FailsBy P get s := by
  intro f h
  cases h

theorem failsBy_modifyGet {f : State → α × State} : FailsBy P (modifyGet f) s := by
  intro f h
  cases h

theorem failsBy_modify {f : State → State} : FailsBy P (modify f) s :=
  failsBy_modifyGet

theorem failsBy_fail {f : Fault} (hf : P f) : FailsBy P (fail f : LowerM α) s := by
  intro f' h
  cases h
  exact hf

theorem failsBy_bind {x : LowerM α} {f : α → LowerM β} (hx : FailsBy P x s) (hf : ∀ a t, Yields x s a t → FailsBy P (f a) t) :
    FailsBy P (x >>= f) s := by
  intro e h
  rw [StateT.run_bind] at h
  cases hr : x.run s with
  | error e' =>
    rw [hr] at h
    cases h
    exact hx e hr
  | ok p => exact hf p.1 p.2 hr e (by rw [hr] at h; exact h)

/-- A state that is read cannot fail. -/
theorem failsBy_get_bind {f : State → LowerM α} (hf : FailsBy P (f s) s) : FailsBy P (get >>= f) s := by
  refine failsBy_bind failsBy_get fun a t h => ?_
  obtain ⟨rfl, rfl⟩ := yields_get.mp h
  exact hf

theorem failsBy_ite {p : Prop} [Decidable p] {x y : LowerM α} (hx : p → FailsBy P x s) (hy : ¬ p → FailsBy P y s) :
    FailsBy P (if p then x else y) s := by
  by_cases h : p
  · rw [if_pos h]
    exact hx h
  · rw [if_neg h]
    exact hy h

/-- Steps repeated over a list, with what holds before each of them. -/
theorem failsBy_mapM {Q : State → Prop} {f : α → LowerM β} {as : List α} (hs : Q s)
    (h : ∀ a ∈ as, ∀ t, Q t → FailsBy P (f a) t ∧ ∀ b t', Yields (f a) t b t' → Q t') : FailsBy P (as.mapM f) s := by
  induction as generalizing s with
  | nil => exact failsBy_pure
  | cons a as ih =>
    rw [List.mapM_cons]
    obtain ⟨ha, hnext⟩ := h a (by simp) s hs
    refine failsBy_bind ha fun b t hb => failsBy_bind ?_ fun _ _ _ => failsBy_pure
    exact ih (hnext b t hb) fun a' ha' => h a' (by simp [ha'])

theorem failsBy_forM {Q : State → Prop} {f : α → LowerM PUnit} {as : List α} (hs : Q s)
    (h : ∀ a ∈ as, ∀ t, Q t → FailsBy P (f a) t ∧ ∀ t', Yields (f a) t ⟨⟩ t' → Q t') : FailsBy P (as.forM f) s := by
  induction as generalizing s with
  | nil => exact failsBy_pure
  | cons a as ih =>
    obtain ⟨ha, hnext⟩ := h a (by simp) s hs
    exact failsBy_bind ha fun b t hb => ih (hnext t hb) fun a' ha' => h a' (by simp [ha'])

/-! ## Registers for operands -/

theorem failsBy_setUnit {d : Draft} (h : s.unit i = []) : FailsBy P (setUnit i d) s := by
  unfold setUnit
  exact failsBy_get_bind (failsBy_ite (fun _ => failsBy_modify) fun hn => absurd h hn)

/-- Nothing stands in the way of an operand that has no register yet. -/
theorem failsBy_bind_register (hc : s.Coherent m) (hk : s.Known o) (hn : (s.operand o).register = none) : FailsBy P (bind o r) s := by
  unfold bind
  refine failsBy_bind failsBy_modify fun _ t h => failsBy_get_bind ?_
  rw [yields_setRegister] at h
  subst h
  refine failsBy_setUnit ?_
  rw [bindTo_insn, bindTo_unit]
  exact hc.unit_of_unbound hk hn

theorem failsBy_spill (hc : s.Coherent m) (hk : s.Known o) (hn : (s.operand o).register = none) : FailsBy P (spill o) s := by
  unfold spill
  refine failsBy_bind failsBy_modifyGet fun r t h => ?_
  obtain ⟨-, rfl⟩ := yields_freshRegister.mp h
  exact failsBy_bind_register hc.fresh hk hn

theorem failsBy_settle {d : Demand} (hc : s.Coherent m) (hk : s.Known o) : FailsBy P (settle d o) s := by
  unfold settle
  refine failsBy_get_bind (failsBy_ite (fun h => ?_) fun _ => failsBy_pure)
  simp only [Bool.and_eq_true, Option.isNone_iff_eq_none] at h
  exact failsBy_spill hc hk h.1

theorem failsBy_freeze {atRisk : State → OperandId → Bool} (hc : s.Coherent m) (hk : s.Known o) : FailsBy P (freeze atRisk o) s := by
  unfold freeze
  refine failsBy_get_bind (failsBy_ite (fun h => ?_) fun _ => failsBy_pure)
  simp only [Bool.and_eq_true, Option.isNone_iff_eq_none] at h
  exact failsBy_spill hc hk h.1

/-! ## Operands from the stack -/

theorem failsBy_popWord (h : s.stack = [] → P (.stackUnderflow i)) : FailsBy P (popWord i) s := by
  unfold popWord
  refine failsBy_get_bind ?_
  split
  · exact failsBy_fail (h ‹_›)
  · exact failsBy_bind failsBy_modify fun _ _ _ => failsBy_pure

theorem failsBy_peekWord (h : s.stack = [] → P (.stackUnderflow i)) : FailsBy P (peekWord i) s := by
  unfold peekWord
  refine failsBy_get_bind ?_
  split
  · exact failsBy_fail (h ‹_›)
  · exact failsBy_pure

theorem failsBy_popNarrow (h : popOperand false s.stack = none → OnWords P i) :
    FailsBy P (popNarrow i) s := by
  unfold popNarrow
  refine failsBy_bind (failsBy_popWord fun hs => (h (by rw [hs]; rfl)).1) fun w t hw => ?_
  obtain ⟨rest, hs, -⟩ := yields_popWord.mp hw
  cases w with
  | operand p => exact failsBy_pure
  | wideHalf => exact failsBy_fail (h (by rw [hs]; rfl)).2

theorem failsBy_popWide (h : popOperand true s.stack = none → OnWords P i) :
    FailsBy P (popWide i) s := by
  unfold popWide
  refine failsBy_bind (failsBy_popNarrow fun hs => h ?_) fun p t hp => ?_
  · unfold popOperand at hs ⊢
    split at hs <;> simp_all
  have hnarrow : Yields (if false then popWide i else popNarrow i) s p t := hp
  obtain ⟨rest, hpop, rfl⟩ := yields_pop.mp hnarrow
  have hs : s.stack = .operand p :: rest := by
    unfold popOperand at hpop
    split at hpop <;> simp_all
  refine failsBy_bind (failsBy_popWord fun hrest => (h ?_).1) fun w t hw => ?_
  · rw [withStack_stack] at hrest
    rw [hs, hrest]
    rfl
  obtain ⟨rest', hrest, -⟩ := yields_popWord.mp hw
  rw [withStack_stack] at hrest
  cases w with
  | wideHalf => exact failsBy_pure
  | operand q =>
    refine failsBy_ite (fun _ => failsBy_pure) fun hne => failsBy_fail (h ?_).2
    rw [hs, hrest, popOperand, if_neg hne]

/-- Taking an operand fails where it cannot be popped. -/
theorem failsBy_take {d : Demand} {wide : Bool} (hc : s.Coherent m) (hk : s.StackKnown s.stack)
    (h : popOperand wide s.stack = none → OnWords P i) : FailsBy P (take i d wide) s := by
  have htake : take i d wide = (if wide then popWide i else popNarrow i) >>= fun o => do settle d o; return o := by
    cases wide <;> rfl
  have hpop : FailsBy P (if wide then popWide i else popNarrow i) s := by
    cases wide with
    | false => exact failsBy_popNarrow h
    | true => exact failsBy_popWide h
  rw [htake]
  refine failsBy_bind hpop fun o t hpop => ?_
  obtain ⟨rest, hrest, rfl⟩ := yields_pop.mp hpop
  have hchange : Change m true s (s.withStack rest) := .stack rest
  exact failsBy_bind (failsBy_settle (hchange.coherent hc) (hk o (mem_of_popOperand hrest).1)) fun _ _ _ => failsBy_pure

/-- What is left on the stack after an operand was taken exists. -/
theorem known_of_take {d : Demand} {wide : Bool} (h : Yields (take i d wide) s o s') (hc : s.Coherent m) (hk : s.StackKnown s.stack) :
    s'.Coherent m ∧ s'.StackKnown s'.stack := by
  obtain ⟨rest, hpop, hs, -⟩ := take_spec true h hc hk
  refine ⟨hs.changes.coherent hc, Spills.stackKnown hs hc fun p hp => hk p ((mem_of_popOperand hpop).2 _ hp)⟩

/-- Taking operands fails where they cannot be popped. -/
theorem failsBy_takeAll {first : Bool} {wants : List (Demand × Bool)} (hc : s.Coherent m) (hk : s.StackKnown s.stack)
    (h : popOperands (wants.map (·.2)) s.stack = none → OnWords P i) :
    FailsBy P (takeAll i first wants) s := by
  induction wants generalizing s with
  | nil => exact failsBy_pure
  | cons want wants ih =>
    rw [takeAll, List.mapM_cons]
    refine failsBy_bind (failsBy_take hc hk fun hnone => h ?_) fun o t ht => failsBy_bind ?_ fun _ _ _ => failsBy_pure
    · simp [popOperands, hnone]
    · obtain ⟨hct, hkt⟩ := known_of_take ht hc hk
      obtain ⟨rest, hpop, hs, -⟩ := take_spec true ht hc hk
      refine ih hct hkt fun hnone => h ?_
      rw [hs.stack] at hnone
      simp [popOperands, hpop, hnone]

theorem failsBy_freezes {atRisk : State → OperandId → Bool} {os : List OperandId} (hc : s.Coherent m) (hk : ∀ o ∈ os, s.Known o) :
    FailsBy P (os.forM (freeze atRisk)) s := by
  refine failsBy_forM (Q := fun t => t.Coherent m ∧ ∀ o ∈ os, t.Known o) ⟨hc, hk⟩ fun o ho t ht => ?_
  refine ⟨failsBy_freeze ht.1 (ht.2 o ho), fun t' h => ?_⟩
  obtain ⟨hs, -⟩ := freeze_spec true h ht.1 (ht.2 o ho)
  exact ⟨hs.changes.coherent ht.1, fun p hp => (hs.changes.extends ht.1).known (ht.2 p hp)⟩

theorem failsBy_freezeAll (hc : s.Coherent m) (hk : s.StackKnown s.stack) : FailsBy P freezeAll s :=
  failsBy_get_bind (failsBy_freezes hc fun _ ho => hk _ (mem_operandsOf.mp ho))

theorem failsBy_freezeReadersOf (hc : s.Coherent m) (hk : s.StackKnown s.stack) : FailsBy P (freezeReadersOf r) s :=
  failsBy_get_bind (failsBy_freezes hc fun _ ho => hk _ (mem_operandsOf.mp ho))

/-! ## Joins -/

theorem failsBy_rebind (hc : s.Coherent m) (hk : s.Known o) : FailsBy P (rebind o r) s := by
  unfold rebind
  refine failsBy_get_bind ?_
  split
  · rename_i hn
    exact failsBy_bind_register hc hk hn
  · rename_i q hq
    refine failsBy_ite (fun _ => failsBy_ite (fun _ => failsBy_modify) fun hd => ?_) fun _ => failsBy_pure
    exact absurd (hc.definesOperand (by simp [hq])) hd

theorem failsBy_bringInto (hc : s.Coherent m) (hk : s.Known o) : FailsBy P (bringInto o r) s := by
  unfold bringInto
  refine failsBy_get_bind ?_
  dsimp only
  split
  · rename_i hn
    exact failsBy_bind_register hc hk hn
  · exact failsBy_ite (fun _ => failsBy_modify) fun _ => failsBy_pure

theorem failsBy_meetingRegister {column : List OperandId} : FailsBy P (meetingRegister column) s := by
  unfold meetingRegister
  refine failsBy_get_bind ?_
  split
  · exact failsBy_pure
  · exact failsBy_modifyGet

theorem failsBy_joinAt {column : List OperandId} {shared : Option RegisterId} (hc : s.Coherent m)
    (hk : ∀ p ∈ column ++ [o], s.Known p) : FailsBy P (joinAt column shared o) s := by
  cases shared with
  | some q => exact failsBy_bind (failsBy_bringInto hc (hk o (by simp))) fun _ _ _ => failsBy_pure
  | none =>
    refine failsBy_bind failsBy_meetingRegister fun r t h => failsBy_bind ?_ fun _ _ _ => failsBy_pure
    obtain ⟨hq, hr, -⟩ := meetingRegister_spec true h hc
    have he := hq.changes.extends hc
    refine failsBy_forM (Q := fun t' => t'.Coherent m ∧ t.Extends t') ⟨hq.changes.coherent hc, .refl t⟩ fun p hp t' ht' => ?_
    have hkp : t'.Known p := ht'.2.known (he.known (hk p hp))
    refine ⟨failsBy_rebind ht'.1 hkp, fun t'' h' => ?_⟩
    have hq' : Quiet m true t' t'' := rebind_spec h' hkp (ht'.2.synthesized r hr)
    exact ⟨hq'.changes.coherent ht'.1, ht'.2.trans (hq'.changes.extends ht'.1)⟩

/-- Joining a row fails where the first row of the instruction is of another length. -/
theorem failsBy_joinInputs {row : List OperandId} (hc : s.Coherent m) (hk : ∀ o ∈ row, s.Known o)
    (h : (s.frame i).rows.head?.map List.length ≠ some row.length → P (.inconsistentMerge i)) : FailsBy P (joinInputs i row) s := by
  unfold joinInputs
  refine failsBy_ite (fun _ => failsBy_pure) fun _ => failsBy_get_bind (failsBy_ite (fun _ => ?_) fun hne => ?_)
  · refine failsBy_bind (failsBy_mapM (Q := fun t => t.Coherent m ∧ s.Extends t) ⟨hc, .refl s⟩ ?_) fun _ _ _ => failsBy_modify
    rintro ⟨o, j⟩ hp t ⟨hct, het⟩
    have hknown : ∀ p ∈ column (s.frame i).rows j ++ [o], t.Known p := by
      intro p hpc
      rcases List.mem_append.mp hpc with hpc | hpc
      · obtain ⟨row', hrow, hget⟩ := mem_column hpc
        exact het.known (hc.rows i row' hrow p (List.mem_of_getElem? hget))
      · rw [List.mem_singleton.mp hpc]
        exact het.known (hk o (List.fst_mem_of_mem_zipIdx hp))
    refine ⟨failsBy_joinAt hct hknown, fun r t' h => ?_⟩
    obtain ⟨hq, -⟩ := joinAt_spec h hct hknown fun q hq => het.synthesized q (hc.shared i j q (Option.join_eq_some_iff.mp hq))
    exact ⟨hq.changes.coherent hct, het.trans (hq.changes.extends hct)⟩
  · exact failsBy_bind (failsBy_fail (h hne)) fun _ _ h => absurd h yields_fail

/-! ## Results and statements -/

theorem failsBy_push {wide : Bool} : FailsBy P (push o wide) s := by
  unfold push
  cases wide
  · exact failsBy_modify
  · exact failsBy_bind failsBy_modify fun _ _ _ => failsBy_modify

/-- Asking for a slot fails where it does not exist. -/
theorem failsBy_slotRegister {k : Nat} (h : s.registers.maxLocals ≤ k → P (.invalidLocal k s.registers.maxLocals)) :
    FailsBy P (slotRegister k) s := by
  unfold slotRegister
  refine failsBy_get_bind ?_
  split
  · rename_i f hf
    refine failsBy_fail ?_
    unfold Registers.slot at hf
    split at hf
    · cases hf
      exact h ‹_›
    · split at hf <;> cases hf
  · exact failsBy_bind failsBy_modifyGet fun _ _ _ => failsBy_pure

section Effects
variable {op : Operation} {xs : List OperandId} {e : Effect OperandId}

theorem Ready.known_row (h : Ready m true i op xs e s) : ∀ o ∈ op.row xs, s.Known o :=
  fun o ho => h.known o (Operation.mem_row.mp ho)

/-- A later visit is joined with the first one, which remembers a row. -/
theorem Ready.failsBy_joinInputs (h : Ready m true i op xs e s) (visited : (s.frame i).out.isSome ∨ s.unit i ≠ [])
    (rows : ∀ row ∈ (s.frame i).rows, row.length ≠ xs.length → P (.inconsistentMerge i)) : FailsBy P (joinInputs i (op.row xs)) s := by
  obtain ⟨row, hrow⟩ := h.coherent.exists_row h.here h.effect visited
  refine Lowering.failsBy_joinInputs h.coherent h.known_row fun hne => rows row (List.mem_of_head? hrow) fun heq => hne ?_
  rw [hrow, Option.map_some, heq, Operation.length_row]

theorem failsBy_leaveResult {v : Rvalue OperandId} {wide : Option Bool} (h : Ready m true i op xs e s)
    (rows : ∀ row ∈ (s.frame i).rows, row.length ≠ xs.length → P (.inconsistentMerge i)) :
    FailsBy P (leaveResult i (op.row xs) wide v) s := by
  refine failsBy_bind ?_ fun _ _ _ => failsBy_push
  unfold produce
  refine failsBy_get_bind ?_
  split
  · rename_i o hout
    exact failsBy_bind (h.failsBy_joinInputs (Or.inl (by simp [hout])) rows) fun _ _ _ => failsBy_pure
  · exact failsBy_bind failsBy_modifyGet fun _ _ _ => failsBy_bind failsBy_modify fun _ _ _ =>
      failsBy_bind failsBy_modify fun _ _ _ => failsBy_pure

theorem failsBy_emit {d : Draft} (h : Ready m true i op xs e s)
    (rows : ∀ row ∈ (s.frame i).rows, row.length ≠ xs.length → P (.inconsistentMerge i)) : FailsBy P (emit i (op.row xs) d) s := by
  unfold emit
  refine failsBy_get_bind (failsBy_ite (fun hu => ?_) fun hne => h.failsBy_joinInputs (Or.inr hne) rows)
  refine failsBy_bind failsBy_modify fun _ t ht => failsBy_setUnit ?_
  obtain rfl := yields_modifyFrame.mp ht
  exact hu

/-- An effect is carried out unless its slot does not exist or its operands cannot be joined with those of other visits. -/
theorem failsBy_lowerEffect (h : Ready m true i op xs e s)
    (rows : ∀ row ∈ (s.frame i).rows, row.length ≠ xs.length → P (.inconsistentMerge i))
    (slot : ∀ k, e.slot? = some k → s.registers.maxLocals ≤ k → P (.invalidLocal k s.registers.maxLocals)) :
    FailsBy P (lowerEffect i (op.row xs) op.pushes e) s := by
  have nothing : e.leaves? = some false → op.pushes = none := fun hb => by simpa using Operation.isSome_pushes h.effect hb
  have later : ∀ {t : State}, Spills m true s s.stack t → ∀ row ∈ (t.frame i).rows, row.length ≠ xs.length → P (.inconsistentMerge i) := by
    intro t hs
    rwa [hs.frame]
  cases e with
  | constant | operator | read => exact failsBy_leaveResult h rows
  | load k =>
    refine failsBy_bind (failsBy_slotRegister (slot k rfl)) fun r t hslot => ?_
    have hs : Spills m true s s.stack t := (slotRegister_spec true hslot).1
    exact failsBy_leaveResult (h.spills hs) (later hs)
  | call c =>
    refine failsBy_ite (fun hp => ?_) fun hp => ?_
    · refine failsBy_bind (failsBy_emit h rows) fun _ t hemit => ?_
      obtain ⟨hch, -, hk⟩ := emitStatement_spec hemit h hp rfl
      exact failsBy_freezeAll (hch.coherent h.coherent) hk
    · refine failsBy_bind (failsBy_leaveResult h rows) fun _ t hleave => ?_
      obtain ⟨hch, -, hk⟩ := leaveResult_spec hleave h (Option.isSome_iff_ne_none.mpr hp) rfl
      exact failsBy_freezeAll (hch.coherent h.coherent) hk
  | store k v =>
    refine failsBy_bind (failsBy_slotRegister (slot k rfl)) fun r t hslot => ?_
    obtain ⟨hs, hused⟩ := slotRegister_spec true hslot
    have ht := h.spills hs
    refine failsBy_bind (failsBy_emit ht (later hs)) fun _ t' hemit => ?_
    obtain ⟨hch, -, hk⟩ := emitStatement_spec hemit ht (nothing rfl) (by simp [Effect.draft?, hused])
    exact failsBy_freezeReadersOf (hch.coherent ht.coherent) hk
  | increment k amount =>
    refine failsBy_bind (failsBy_slotRegister (slot k rfl)) fun r t hslot => ?_
    obtain ⟨hs, hused⟩ := slotRegister_spec true hslot
    have ht := h.spills hs
    refine failsBy_bind (failsBy_freezeReadersOf ht.coherent ht.stack) fun _ t' hf => ?_
    have hs' := (freezeReadersOf_spec true hf ht.coherent ht.stack hused).1
    exact failsBy_emit (ht.spills hs') (by rw [hs'.frame]; exact later hs)
  | write place v =>
    refine failsBy_bind (failsBy_emit h rows) fun _ t hemit => ?_
    obtain ⟨hch, -, hk⟩ := emitStatement_spec hemit h (nothing rfl) rfl
    exact failsBy_freezeAll (hch.coherent h.coherent) hk
  | _ => exact failsBy_emit h rows

end Effects

/-! ## Operations -/

theorem failsBy_lowerPlain {op : Operation} (plain : op.isPlain) (hc : s.Coherent m) (here : m.code[i]? = some op)
    (hk : s.StackKnown s.stack) : FailsBy (Fault.Warranted i op s) (lowerPlain i op) s := by
  unfold lowerPlain
  refine failsBy_bind (failsBy_get_bind failsBy_pure : FailsBy _ (firstVisit i) s) fun first t hfirst => ?_
  obtain ⟨rfl, rfl⟩ := yields_firstVisit.mp hfirst
  refine failsBy_bind (failsBy_takeAll hc hk fun hnone => ?_) fun popped t htake => ?_
  · have hfinds : op.finds t.stack = false := by
      rw [widths_of_wants] at hnone
      cases op with
      | shuffle => cases plain
      | _ => simp [Operation.finds, hnone]
    exact ⟨⟨rfl, hfinds⟩, ⟨rfl, hfinds⟩⟩
  · obtain ⟨rest, hpop, -⟩ := takeAll_spec true htake hc hk
    have hlen : popped.reverse.length = op.takes.length := by
      rw [List.length_reverse, length_of_popped hpop, widths_of_wants, List.length_reverse]
    split
    · rename_i e heffect
      obtain ⟨rest, -, hs, hr⟩ := ready_of_takeAll htake hc here hk heffect (fun h : true = false => nomatch h)
      refine failsBy_lowerEffect hr ?_ fun k hslot => ?_
      · rw [hs.frame, hlen]
        exact fun row hrow hne => ⟨rfl, row, hrow, hne⟩
      · rw [Operation.slot?_of_effect heffect] at hslot
        have hmax := hs.changes.maxLocals
        rw [hmax]
        exact fun hle => ⟨hslot, rfl, hle⟩
    · rename_i hnone
      have := Operation.isSome_effect plain hlen
      simp [hnone] at this

theorem failsBy_pushWords {ws : List Word} : FailsBy P (pushWords ws) s :=
  failsBy_forM (Q := fun _ => True) trivial fun _ _ _ _ => ⟨failsBy_modify, fun _ _ => trivial⟩

/-- Every group begins with an operand. -/
theorem popWords_eq_none {whole : Bool} {count : Count} {stack : Stack} (h : popOperand false stack = none) :
    popWords whole count stack = none := by
  unfold popOperand at h
  unfold popWords
  split at h <;> simp_all

/-- A group of one word is an operand. -/
theorem failsBy_one_bind {whole : Bool} {f : OperandId → LowerM α} (hc : s.Coherent m) (hk : s.StackKnown s.stack)
    (h : popWords whole .one s.stack = none → OnWords P i)
    (hf : ∀ o t words rest, popWords whole .one s.stack = some (words, rest) → t.stack = rest → t.Coherent m →
      t.StackKnown t.stack → FailsBy P (f o) t) : FailsBy P (take i .immediate false >>= f) s := by
  refine failsBy_bind (failsBy_take hc hk fun hnone => h (popWords_eq_none hnone)) fun o t ht => ?_
  have hg := group_one true whole ht hc hk
  obtain ⟨rest, hpop, hs⟩ := hg.pop
  obtain ⟨hct, hkt⟩ := hg.stackKnown hc hk
  exact hf o t _ rest hpop hs.stack hct hkt

/-- An operand and the word below it are a group of two words. -/
theorem failsBy_second (hc : s.Coherent m) (hk : s.StackKnown s.stack) (h : s.stack = [] → P (.stackUnderflow i)) :
    FailsBy P (secondWord i o) s ∧ FailsBy P (anyWord i) s := by
  have second : ∀ {p : OperandId} {rest : Stack}, s.stack = .operand p :: rest → FailsBy P (take i .immediate false) s := by
    intro p rest hs
    refine failsBy_take hc hk fun hnone => ?_
    rw [hs] at hnone
    cases hnone
  constructor
  · refine failsBy_bind (failsBy_peekWord h) fun w t hw => ?_
    obtain ⟨⟨rest, hs⟩, rfl⟩ := yields_peekWord.mp hw
    cases w with
    | wideHalf => exact failsBy_bind (failsBy_popWord h) fun _ _ _ => failsBy_pure
    | operand p => exact failsBy_bind (second hs) fun _ _ _ => failsBy_pure
  · refine failsBy_bind (failsBy_peekWord h) fun w t hw => ?_
    obtain ⟨⟨rest, hs⟩, rfl⟩ := yields_peekWord.mp hw
    cases w with
    | wideHalf => exact failsBy_popWord h
    | operand p => exact failsBy_bind (second hs) fun _ _ _ => failsBy_pure

theorem failsBy_two_bind {f : OperandId → Word → LowerM α} (hc : s.Coherent m) (hk : s.StackKnown s.stack)
    (h : popWords true .two s.stack = none → OnWords P i)
    (hf : ∀ o w t words rest, popWords true .two s.stack = some (words, rest) → t.stack = rest → t.Coherent m →
      t.StackKnown t.stack → FailsBy P (f o w) t) :
    FailsBy P (take i .immediate false >>= fun o => secondWord i o >>= fun w => f o w) s := by
  refine failsBy_bind (failsBy_take hc hk fun hnone => h (popWords_eq_none hnone)) fun o t ht => ?_
  obtain ⟨rest, hs, hspills⟩ := takeOne_spec true ht hc hk
  obtain ⟨hct, hkt⟩ := known_of_take ht hc hk
  refine failsBy_bind (failsBy_second hct hkt fun hnil => (h ?_).1).1 fun w t' ht' => ?_
  · rw [hspills.stack] at hnil
    rw [hs, hnil]
    rfl
  · have hg := group_two true ht ht' hc hk
    obtain ⟨rest', hpop, hs'⟩ := hg.pop
    obtain ⟨hct', hkt'⟩ := hg.stackKnown hc hk
    exact hf o w t' _ rest' hpop hs'.stack hct' hkt'

theorem failsBy_two_apart_bind {f : OperandId → Word → LowerM α} (hc : s.Coherent m) (hk : s.StackKnown s.stack)
    (h : popWords false .two s.stack = none → OnWords P i) (hf : ∀ o w t, FailsBy P (f o w) t) :
    FailsBy P (take i .immediate false >>= fun o => anyWord i >>= fun w => f o w) s := by
  refine failsBy_bind (failsBy_take hc hk fun hnone => h (popWords_eq_none hnone)) fun o t ht => ?_
  obtain ⟨rest, hs, hspills⟩ := takeOne_spec true ht hc hk
  obtain ⟨hct, hkt⟩ := known_of_take ht hc hk
  refine failsBy_bind (failsBy_second (o := o) hct hkt fun hnil => (h ?_).1).2 fun w t' _ => hf o w t'
  rw [hspills.stack] at hnil
  rw [hs, hnil]
  rfl

/-- A stack instruction fails where the words that it moves are not there. -/
theorem failsBy_lowerShuffle {how : Shuffle} {count : Count} (hc : s.Coherent m) (hk : s.StackKnown s.stack)
    (h : shuffleWords how count s.stack = none → OnWords P i) : FailsBy P (lowerShuffle i how count) s := by
  cases how with
  | pop =>
    have group : popWords false count s.stack = none → OnWords P i := fun hnone => h (by simp [shuffleWords, hnone])
    cases count with
    | one => exact failsBy_one_bind hc hk group fun _ _ _ _ _ _ _ _ => failsBy_pure
    | two => exact failsBy_two_apart_bind hc hk group fun _ _ _ => failsBy_pure
  | dup =>
    have group : popWords true count s.stack = none → OnWords P i := fun hnone => h (by simp [shuffleWords, hnone])
    cases count with
    | one => exact failsBy_one_bind hc hk group fun _ _ _ _ _ _ _ _ => failsBy_pushWords
    | two => exact failsBy_two_bind hc hk group fun _ _ _ _ _ _ _ _ _ => failsBy_pushWords
  | dupX1 =>
    have group : popWords true count s.stack = none → OnWords P i := fun hnone => h (by simp [shuffleWords, hnone])
    have below : ∀ {words rest}, popWords true count s.stack = some (words, rest) → popWords true .one rest = none → OnWords P i :=
      fun hpop hnone => h (by simp [shuffleWords, hpop, hnone])
    cases count with
    | one =>
      refine failsBy_one_bind hc hk group fun _ t words rest hpop ht hct hkt => ?_
      exact failsBy_one_bind hct hkt (ht ▸ below hpop) fun _ _ _ _ _ _ _ _ => failsBy_pushWords
    | two =>
      refine failsBy_two_bind hc hk group fun _ _ t words rest hpop ht hct hkt => ?_
      exact failsBy_one_bind hct hkt (ht ▸ below hpop) fun _ _ _ _ _ _ _ _ => failsBy_pushWords
  | dupX2 =>
    have group : popWords true count s.stack = none → OnWords P i := fun hnone => h (by simp [shuffleWords, hnone])
    have below : ∀ {words rest}, popWords true count s.stack = some (words, rest) → popWords false .two rest = none → OnWords P i :=
      fun hpop hnone => h (by simp [shuffleWords, hpop, hnone])
    cases count with
    | one =>
      refine failsBy_one_bind hc hk group fun _ t words rest hpop ht hct hkt => ?_
      exact failsBy_two_apart_bind hct hkt (ht ▸ below hpop) fun _ _ _ => failsBy_pushWords
    | two =>
      refine failsBy_two_bind hc hk group fun _ _ t words rest hpop ht hct hkt => ?_
      exact failsBy_two_apart_bind hct hkt (ht ▸ below hpop) fun _ _ _ => failsBy_pushWords
  | swap =>
    have group : popWords true .one s.stack = none → OnWords P i := fun hnone => h (by simp [shuffleWords, hnone])
    have below : ∀ {words rest}, popWords true .one s.stack = some (words, rest) → popWords true .one rest = none → OnWords P i :=
      fun hpop hnone => h (by simp [shuffleWords, hpop, hnone])
    refine failsBy_one_bind hc hk group fun _ t words rest hpop ht hct hkt => ?_
    exact failsBy_one_bind hct hkt (ht ▸ below hpop) fun _ _ _ _ _ _ _ _ => failsBy_pushWords

/-- The label of a handler that has bound no exception yet has no statement. -/
theorem failsBy_lowerLabel {l : Label} (hc : s.Coherent m) (here : m.code[i]? = some (.label l)) : FailsBy P (lowerLabel m i l) s := by
  unfold lowerLabel
  refine failsBy_ite (fun _ => failsBy_get_bind (failsBy_ite (fun _ => ?_) fun hentry => ?_)) fun _ => failsBy_pure
  · exact failsBy_ite (fun hu => failsBy_setUnit hu) fun _ => failsBy_pure
  · split
    · exact failsBy_push
    · rename_i hout
      refine failsBy_bind failsBy_modifyGet fun r t hr => failsBy_bind failsBy_modifyGet fun o t' ho =>
        failsBy_bind failsBy_modify fun _ t'' hm => failsBy_bind (failsBy_setUnit ?_) fun _ _ _ => failsBy_push
      obtain ⟨-, rfl⟩ := yields_freshRegister.mp hr
      obtain ⟨-, rfl⟩ := yields_newOperand.mp ho
      obtain rfl := yields_modifyFrame.mp hm
      show s.unit i = []
      cases hc.stage i (List.getElem?_eq_some_iff.mp here).1 with
      | untouched _ _ unit => exact unit
      | result built | statement built =>
        obtain rfl := Option.some.inj (here.symm.trans built.here)
        cases built.effect
      | caught _ _ _ out => simp [hout] at out
      | shared _ entry => simp [entry] at hentry

/-- In a coherent state every fault of lowering an operation is warranted by that operation and the state. -/
theorem failsBy_lowerOperation {op : Operation} (hc : s.Coherent m) (here : m.code[i]? = some op) (hk : s.StackKnown s.stack) :
    FailsBy (Fault.Warranted i op s) (lowerOperation m i op) s := by
  by_cases hp : op.isPlain
  · rw [lowerOperation_plain m i hp]
    exact failsBy_lowerPlain hp hc here hk
  · cases op with
    | shuffle how count =>
      refine failsBy_lowerShuffle hc hk fun hnone => ?_
      have hfinds : (Operation.shuffle how count).finds s.stack = false := by simp [Operation.finds, hnone]
      exact ⟨⟨rfl, hfinds⟩, ⟨rfl, hfinds⟩⟩
    | line number => exact failsBy_pure
    | label l => exact failsBy_lowerLabel hc here
    | unhandled opcode mnemonic => exact failsBy_fail ⟨rfl, rfl⟩
    | _ => exact absurd rfl hp

end Lowering

/-- A warranted fault is one of the method. -/
theorem Fault.Warranted.blamesMethod {f : Fault} {i : Nat} {op : Operation} {s : State} (h : f.Warranted i op s) : f.blamesMethod := by
  cases f <;> first | rfl | exact h.elim

end ThreeAddress
