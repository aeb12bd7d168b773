import ThreeAddress.Proofs.Cells.Bindings
import ThreeAddress.Proofs.Cells.Instruction

/-!
# Steps with cells

`Agrees` compares a step of lowering with cells to one without, from states that books relate: both fail in the same way, or both succeed
with one result and leave such states again. Steps that only make cells have no counterpart, and `Makes` says of them that they succeed.
Both are kept by every way to build a step from others.
-/

namespace ThreeAddress.Cells

open Lowering (operandsOf column definesOperand Yields)

variable {α β : Type} {m : Method} {L : Ledger} {a : CellState} {s : State} {i : Nat} {o : OperandId} {r : RegisterId}
  {row : List OperandId}

/-- Both steps fail in the same way, or both succeed with one result, which is as it should be. Cells and operands are only added. -/
def Agrees (m : Method) (L : Ledger) (a : CellState) (s : State) (x : CellM α) (y : LowerM α) (P : Ledger → α → Prop) : Prop :=
  Accord (fun p q => p.1 = q.1 ∧ ∃ L', L.Grows L' ∧ Books m L' p.2 q.2 ∧ P L' q.1) (x.run a) (y.run s)

/-- A step that makes cells succeeds, with a result that is as it should be. -/
def Makes (m : Method) (L : Ledger) (a : CellState) (s : State) (x : CellM α) (P : Ledger → α → Prop) : Prop :=
  ∃ u a' L', x.run a = .ok (u, a') ∧ L.Grows L' ∧ Books m L' a' s ∧ P L' u

/-- Nothing is asked of the result. -/
abbrev Anything : Ledger → α → Prop :=
  fun _ _ => True

/-! ## Building steps -/

section
variable {x : CellM α} {y : LowerM α} {P : Ledger → α → Prop} {Q : Ledger → β → Prop}

theorem agrees_pure {u : α} (h : Books m L a s) (hp : P L u) : Agrees m L a s (pure u) (pure u) P :=
  ⟨rfl, L, .refl L, h, hp⟩

theorem agrees_fail {f : Fault} : Agrees m L a s (fail f : CellM α) (Lowering.fail f) P :=
  rfl

theorem agrees_get_bind {f : CellState → CellM β} {g : State → LowerM β} (h : Agrees m L a s (f a) (g s) Q) :
    Agrees m L a s (get >>= f) (get >>= g) Q :=
  h

theorem agrees_modify {f : CellState → CellState} {g : State → State} {L' : Ledger} (h : Books m L' (f a) (g s)) (hg : L.Grows L') :
    Agrees m L a s (modify f : CellM PUnit) (modify g) Anything :=
  ⟨rfl, L', hg, h, trivial⟩

/-- How the step without cells succeeds is known to what follows. -/
theorem agrees_bind_yields {f : α → CellM β} {g : α → LowerM β} (hx : Agrees m L a s x y P)
    (hf : ∀ u L' a' s', Yields y s u s' → L.Grows L' → Books m L' a' s' → P L' u → Agrees m L' a' s' (f u) (g u) Q) :
    Agrees m L a s (x >>= f) (y >>= g) Q := by
  refine Accord.bind (Accord.with_ok hx) ?_
  rintro ⟨u, a'⟩ ⟨_, s'⟩ ⟨-, hy, rfl, L', hg, hb, hp⟩
  exact Accord.mono (hf u L' a' s' hy hg hb hp) fun _ _ ⟨hu, L'', hg', hb', hq⟩ => ⟨hu, L'', hg.trans hg', hb', hq⟩

theorem agrees_bind {f : α → CellM β} {g : α → LowerM β} (hx : Agrees m L a s x y P)
    (hf : ∀ u L' a' s', L.Grows L' → Books m L' a' s' → P L' u → Agrees m L' a' s' (f u) (g u) Q) :
    Agrees m L a s (x >>= f) (y >>= g) Q :=
  agrees_bind_yields hx fun u L' a' s' _ => hf u L' a' s'

theorem agrees_ite {p q : Prop} [Decidable p] [Decidable q] {x' : CellM α} {y' : LowerM α} (hp : p ↔ q) (hx : q → Agrees m L a s x y P)
    (hy : ¬ q → Agrees m L a s x' y' P) : Agrees m L a s (if p then x else x') (if q then y else y') P := by
  by_cases h : q
  · rw [if_pos h, if_pos (hp.mpr h)]
    exact hx h
  · rw [if_neg h, if_neg (mt hp.mp h)]
    exact hy h

/-- A step for each element of a list, where the results stay as they should be while the ledger grows. -/
theorem agrees_mapM (hQ : ∀ {L L'} b, Ledger.Grows L L' → Q L b → Q L' b) {f : α → CellM β} {g : α → LowerM β} {us : List α}
    (h : Books m L a s) (hf : ∀ u ∈ us, ∀ L' a' s', L.Grows L' → Books m L' a' s' → Agrees m L' a' s' (f u) (g u) Q) :
    Agrees m L a s (us.mapM f) (us.mapM g) fun L bs => ∀ b ∈ bs, Q L b := by
  induction us generalizing L a s with
  | nil => exact agrees_pure h fun b hb => (by cases hb)
  | cons u us ih =>
    rw [List.mapM_cons, List.mapM_cons]
    refine agrees_bind (hf u List.mem_cons_self L a s (.refl L) h) fun b L₁ a₁ s₁ hg₁ h₁ hb => ?_
    refine agrees_bind (ih h₁ fun v hv L' a' s' hg => hf v (List.mem_cons_of_mem u hv) L' a' s' (hg₁.trans hg))
      fun bs L₂ a₂ s₂ hg₂ h₂ hbs => ?_
    exact agrees_pure h₂ fun c hc => (List.mem_cons.mp hc).elim (fun heq => heq ▸ hQ b hg₂ hb) (hbs c)

theorem agrees_forM {f : α → CellM PUnit} {g : α → LowerM PUnit} {us : List α} (h : Books m L a s)
    (hf : ∀ u ∈ us, ∀ L' a' s', L.Grows L' → Books m L' a' s' → Agrees m L' a' s' (f u) (g u) Anything) :
    Agrees m L a s (us.forM f) (us.forM g) Anything := by
  induction us generalizing L a s with
  | nil => exact agrees_pure h trivial
  | cons u us ih =>
    refine agrees_bind (hf u List.mem_cons_self L a s (.refl L) h) fun _ L' a' s' hg h' _ => ?_
    exact ih h' fun v hv L'' a'' s'' hg' => hf v (List.mem_cons_of_mem u hv) L'' a'' s'' (hg.trans hg')

end

/-! ## Making cells -/

section
variable {x : CellM α} {y : LowerM β} {P : Ledger → α → Prop} {Q : Ledger → β → Prop}

theorem makes_pure {u : α} (h : Books m L a s) (hp : P L u) : Makes m L a s (pure u) P :=
  ⟨u, a, L, rfl, .refl L, h, hp⟩

theorem makes_bind {f : α → CellM β} (hx : Makes m L a s x P)
    (hf : ∀ u L' a', L.Grows L' → Books m L' a' s → P L' u → Makes m L' a' s (f u) Q) : Makes m L a s (x >>= f) Q := by
  obtain ⟨u, a', L', hrun, hg, hb, hp⟩ := hx
  obtain ⟨v, a'', L'', hrun', hg', hb', hq⟩ := hf u L' a' hg hb hp
  refine ⟨v, a'', L'', ?_, hg.trans hg', hb', hq⟩
  rw [StateT.run_bind, hrun]
  exact hrun'

/-- Cells are made before a step that has a counterpart. -/
theorem Makes.agrees {f : α → CellM β} (hx : Makes m L a s x P)
    (hf : ∀ u L' a', L.Grows L' → Books m L' a' s → P L' u → Agrees m L' a' s (f u) y Q) : Agrees m L a s (x >>= f) y Q := by
  obtain ⟨u, a', L', hrun, hg, hb, hp⟩ := hx
  have hstep := hf u L' a' hg hb hp
  unfold Agrees
  rw [StateT.run_bind, hrun]
  exact Accord.mono hstep fun _ _ ⟨hu, L'', hg', hb', hq⟩ => ⟨hu, L'', hg.trans hg', hb', hq⟩

/-- Every use stands for its operand. -/
theorem makes_use (h : Books m L a s) (hk : L.Known o) : Makes m L a s (use o) fun L k => L.read? k = some o :=
  ⟨a.nextCell, _, _, rfl, .add L _, h.use hk, Ledger.read?_eq_some.mpr h.holds.owner?_nextCell⟩

/-- A new cell that is never written again. -/
theorem makes_newCell (h : Books m L a s) (v : Rvalue CellId) :
    Makes m L a s (newCell v) fun L k => L.owner? k = some (.fixed v) :=
  ⟨a.nextCell, _, _, rfl, .add L _, h.addFixed v, h.holds.owner?_nextCell⟩

theorem makes_uses (h : Books m L a s) (hrow : ∀ o ∈ row, L.Known o) : Makes m L a s (row.mapM use) fun L ks => L.ReadsAll ks row := by
  induction row generalizing L a with
  | nil => exact makes_pure h .nil
  | cons o row ih =>
    rw [List.mapM_cons]
    refine makes_bind (makes_use h (hrow o List.mem_cons_self)) fun k L' a' hg h' hk => ?_
    refine makes_bind (ih h' fun p hp => hg.known (hrow p (List.mem_cons_of_mem o hp))) fun ks L'' a'' hg' h'' hks => ?_
    exact makes_pure h'' (.cons (hg'.read? hk) hks)

end

/-! ## Registers and statements -/

theorem agrees_freshRegister (h : Books m L a s) : Agrees m L a s freshRegister Lowering.freshRegister Anything := by
  have hb : Books m L (a.withRegisters a.registers.fresh.2) (s.withRegisters s.registers.fresh.2) := by
    rw [h.registers]
    exact h.withRegisters _
  exact ⟨congrArg (fun rs : Registers => rs.fresh.1) h.registers, L, .refl L, hb, trivial⟩

theorem agrees_slotRegister (h : Books m L a s) (k : Nat) : Agrees m L a s (slotRegister k) (Lowering.slotRegister k) Anything := by
  refine agrees_get_bind ?_
  rw [h.registers]
  cases s.registers.slot k with
  | error f => exact agrees_fail
  | ok p => exact ⟨rfl, L, .refl L, h.withRegisters p.2, trivial⟩

/-- The first statement of an instruction. -/
theorem agrees_setUnit (h : Books m L a s) (hi : i < m.code.length) {p : Pending} {d : Draft} (hp : p.Renders L d) :
    Agrees m L a s (setUnit i p) (Lowering.setUnit i d) Anything := by
  refine agrees_get_bind (agrees_ite h.unit_eq_nil (fun hu => ?_) fun _ => agrees_fail)
  exact agrees_modify (h.modifyUnit hi (.cons hp .nil) (Or.inl (h.unit_eq_nil.mpr hu))) (.refl L)

/-- The new frame refers to operands that exist, and to cells that stand for them. -/
theorem agrees_modifyFrame (h : Books m L a s) (hi : i < m.code.length) {f : CellFrame → CellFrame} {g : Frame → Frame}
    (frame : (f (a.frame i)).toFrame = g (s.frame i))
    (inputs : ∀ row, (g (s.frame i)).rows.head? = some row → L.ReadsAll (f (a.frame i)).uses row)
    (rows : ∀ row ∈ (g (s.frame i)).rows, ∀ o ∈ row, L.Known o) (out : ∀ o, (g (s.frame i)).out = some o → L.Known o) :
    Agrees m L a s (modifyFrame i f) (Lowering.modifyFrame i g) Anything :=
  agrees_modify (h.modifyFrame hi frame inputs rows out) (.refl L)

/-! ## Operands -/

/-- A new operand, produced where no handler has an entry. -/
theorem agrees_newOperand (h : Books m L a s) (hi : i < m.code.length) (entry : s.handlerEntry? i = none) {v : Rvalue CellId}
    {w : Rvalue OperandId} (reads : L.Reads v w) :
    Agrees m L a s (newOperand i v none) (Lowering.newOperand i w none) Ledger.Known :=
  ⟨h.nextOperand.symm, L.addOperand, .addOperand L, h.withOperand hi reads entry, Nat.lt_succ_of_le (Nat.le_of_eq h.sizes.2)⟩

/-- Some cells are written one after the other. -/
theorem run_setCells (a : CellState) (ks : List CellId) (v : Rvalue CellId) :
    (ks.forM fun k => setCell k v).run a = .ok (⟨⟩, a.write ks v) := by
  induction ks generalizing a with
  | nil => rfl
  | cons k ks ih => exact ih (a.write [k] v)

theorem run_updateUses (a : CellState) (o : OperandId) : (updateUses o).run a = .ok (⟨⟩, a.write (a.operand o).uses (a.content o)) :=
  run_setCells a _ _

/-- An instruction gets its first statement unless it has one already. -/
theorem run_setUnit (a : CellState) (i : Nat) (p : Pending) :
    (setUnit i p).run a = if a.unit i = [] then .ok (⟨⟩, a.modifyUnit i fun _ => [p]) else .error (.unitCollision i) := by
  have run : (setUnit i p).run a = (if a.unit i = [] then modify fun s => { s with units := s.units.modify i fun _ => [p] }
      else fail (.unitCollision i) : CellM Unit).run a := rfl
  rw [run]
  split <;> rfl

/-- The same without cells. -/
theorem run_setUnit_plain (s : State) (i : Nat) (d : Draft) :
    (Lowering.setUnit i d).run s = if s.unit i = [] then .ok (⟨⟩, s.modifyUnit i fun _ => [d]) else .error (.unitCollision i) := by
  have run : (Lowering.setUnit i d).run s = (if s.unit i = [] then modify fun t => { t with units := t.units.modify i fun _ => [d] }
      else Lowering.fail (.unitCollision i) : LowerM Unit).run s := rfl
  rw [run]
  split <;> rfl

/-- The operand is evaluated into the register unless its instruction has statements already. -/
theorem run_bind (hk : o.index < a.operands.size) : (bind o r).run a =
    if a.unit (a.operand o).insn = [] then .ok (⟨⟩, a.bound o r) else .error (.unitCollision (a.operand o).insn) := by
  have operand : (a.bindTo o r).operand o = { a.operand o with register := some r } := (CellState.operand_bindTo hk).trans (if_pos rfl)
  have run : (bind o r).run a = (do
      setUnit ((a.bindTo o r).operand o).insn (.assign a.nextCell ⟨((a.bindTo o r).addCell (.register r)).cells.size⟩)
      updateUses o : CellM Unit).run (((a.bindTo o r).addCell (.register r)).addCell ((a.bindTo o r).operand o).value) := rfl
  have unit : ∀ v, (((a.bindTo o r).addCell (.register r)).addCell v).unit (a.operand o).insn = a.unit (a.operand o).insn := fun _ => rfl
  rw [run, operand, CellState.size_addCell, StateT.run_bind, run_setUnit, unit]
  by_cases hu : a.unit (a.operand o).insn = []
  · have assigned : (a.assigned o r).operand o = { a.operand o with register := some r } := operand
    rw [if_pos hu, if_pos hu]
    refine (run_updateUses (a.assigned o r) o).trans ?_
    rw [CellState.content, assigned]
    rfl
  · rw [if_neg hu, if_neg hu]
    rfl

/-- An operand without a register is evaluated into one. -/
theorem agrees_bind_register (h : Books m L a s) (hk : L.Known o) (hn : (s.operand o).register = none) (r : RegisterId) :
    Agrees m L a s (bind o r) (Lowering.bind o r) Anything := by
  have run : (Lowering.bind o r).run s = (Lowering.setUnit ((s.bindTo o r).operand o).insn (.define o)).run (s.bindTo o r) := rfl
  unfold Agrees
  rw [run, run_bind (h.sizes.1 ▸ hk : o.index < a.operands.size), run_setUnit_plain, State.bindTo_insn, State.bindTo_unit, h.insn]
  by_cases hu : s.unit (s.operand o).insn = []
  · rw [if_pos hu, if_pos (h.unit_eq_nil.mpr hu)]
    exact ⟨rfl, _, (Ledger.Grows.add L _).trans (.add _ _), h.bind hk hn hu r, trivial⟩
  · rw [if_neg hu, if_neg (mt h.unit_eq_nil.mp hu)]
    rfl

theorem agrees_spill (h : Books m L a s) (hk : L.Known o) (hn : (s.operand o).register = none) :
    Agrees m L a s (spill o) (Lowering.spill o) Anything := by
  refine agrees_bind_yields (agrees_freshRegister h) fun r L' a' s' hy hg h' _ => ?_
  obtain ⟨-, rfl⟩ := Lowering.yields_freshRegister.mp hy
  exact agrees_bind_register h' (hg.known hk) hn r

/-! ## The stack -/

/-- The operand of a word, if it is one, exists. -/
def WordKnown (L : Ledger) (w : Word) : Prop :=
  ∀ o, w = .operand o → L.Known o

theorem WordKnown.mono {L' : Ledger} {w : Word} (h : WordKnown L w) (hg : L.Grows L') : WordKnown L' w :=
  fun o ho => hg.known (h o ho)

theorem wordKnown_operand : WordKnown L (.operand o) ↔ L.Known o :=
  ⟨fun h => h o rfl, fun hk _ heq => Word.operand.inj heq ▸ hk⟩

theorem wordKnown_wideHalf : WordKnown L .wideHalf :=
  fun _ heq => by cases heq

theorem agrees_pushWord (h : Books m L a s) {w : Word} (hw : WordKnown L w) :
    Agrees m L a s (pushWord w) (Lowering.pushWord w) Anything := by
  refine agrees_modify ?_ (.refl L)
  rw [h.stack]
  exact h.withStack fun o ho => (List.mem_cons.mp ho).elim (fun heq => hw o heq.symm) (h.stackKnown o)

theorem agrees_push (h : Books m L a s) (hk : L.Known o) (wide : Bool) : Agrees m L a s (push o wide) (Lowering.push o wide) Anything := by
  cases wide with
  | false => exact agrees_pushWord h (wordKnown_operand.mpr hk)
  | true =>
    refine agrees_bind (agrees_pushWord h wordKnown_wideHalf) fun _ L' a' s' hg h' _ => ?_
    exact agrees_pushWord h' (wordKnown_operand.mpr (hg.known hk))

theorem agrees_pushWords (h : Books m L a s) {ws : List Word} (hws : ∀ w ∈ ws, WordKnown L w) :
    Agrees m L a s (pushWords ws) (Lowering.pushWords ws) Anything :=
  agrees_forM h fun w hw _ _ _ hg h' => agrees_pushWord h' ((hws w hw).mono hg)

theorem agrees_popWord (h : Books m L a s) (i : Nat) : Agrees m L a s (popWord i) (Lowering.popWord i) WordKnown := by
  refine agrees_get_bind ?_
  have hk := h.stackKnown
  rw [h.stack]
  cases hs : s.stack with
  | nil => exact agrees_fail
  | cons w rest =>
    rw [hs] at hk
    exact ⟨rfl, L, .refl L, h.withStack fun o ho => hk o (List.mem_cons_of_mem w ho), fun o ho => hk o (ho ▸ List.mem_cons_self)⟩

theorem agrees_peekWord (h : Books m L a s) (i : Nat) : Agrees m L a s (peekWord i) (Lowering.peekWord i) WordKnown := by
  refine agrees_get_bind ?_
  rw [h.stack]
  cases hs : s.stack with
  | nil => exact agrees_fail
  | cons w rest => exact agrees_pure h fun o ho => h.stackKnown o (by rw [hs, ho]; exact List.mem_cons_self)

theorem agrees_popNarrow (h : Books m L a s) (i : Nat) : Agrees m L a s (popNarrow i) (Lowering.popNarrow i) Ledger.Known := by
  refine agrees_bind (agrees_popWord h i) fun w L' a' s' _ h' hw => ?_
  cases w with
  | wideHalf => exact agrees_fail
  | operand o => exact agrees_pure h' (wordKnown_operand.mp hw)

theorem agrees_popWide (h : Books m L a s) (i : Nat) : Agrees m L a s (popWide i) (Lowering.popWide i) Ledger.Known := by
  refine agrees_bind (agrees_popNarrow h i) fun o L₁ a₁ s₁ _ h₁ ho => ?_
  refine agrees_bind (agrees_popWord h₁ i) fun w L₂ a₂ s₂ hg h₂ _ => ?_
  have hk := hg.known ho
  cases w with
  | wideHalf => exact agrees_pure h₂ hk
  | operand p => exact agrees_ite Iff.rfl (fun _ => agrees_pure h₂ hk) fun _ => agrees_fail

/-- A value meets a demand with cells exactly if it does without. -/
theorem accepts_eq {v : Rvalue CellId} {w : Rvalue OperandId} (hr : L.Reads v w) (d : Demand) : accepts d v = d.accepts w := by
  rcases hr.cases with ⟨i, rfl, rfl⟩ | ⟨e, e', rfl, rfl⟩ | ⟨e, e', rfl, rfl⟩ <;> cases d <;> first | rfl | (cases i <;> rfl)

theorem agrees_settle (h : Books m L a s) (hk : L.Known o) (d : Demand) : Agrees m L a s (settle d o) (Lowering.settle d o) Anything := by
  refine agrees_get_bind (agrees_ite ?_ (fun hd => agrees_spill h hk ?_) fun _ => agrees_pure h trivial)
  · rw [h.register, accepts_eq (h.value o)]
  · exact Option.isNone_iff_eq_none.mp (Bool.and_eq_true_iff.mp hd).1

theorem agrees_take (h : Books m L a s) (i : Nat) (d : Demand) (wide : Bool) :
    Agrees m L a s (take i d wide) (Lowering.take i d wide) Ledger.Known := by
  have settled : ∀ o L' a' s', Books m L' a' s' → L'.Known o →
      Agrees m L' a' s' (do settle d o; return o) (do Lowering.settle d o; return o) Ledger.Known := fun o L' a' s' h' ho =>
    agrees_bind (agrees_settle h' ho d) fun _ _ _ _ hg h'' _ => agrees_pure h'' (hg.known ho)
  cases wide with
  | false => exact agrees_bind (agrees_popNarrow h i) fun o L' a' s' _ h' ho => settled o L' a' s' h' ho
  | true => exact agrees_bind (agrees_popWide h i) fun o L' a' s' _ h' ho => settled o L' a' s' h' ho

theorem known_of_mem_operandsOf {stack : Stack} (hk : ∀ o, .operand o ∈ stack → L.Known o) (ho : o ∈ operandsOf stack) : L.Known o := by
  simp only [operandsOf, List.mem_filterMap, List.mem_reverse] at ho
  obtain ⟨w, hw, ho⟩ := ho
  cases w with
  | wideHalf => cases ho
  | operand p =>
    obtain rfl := Option.some.inj ho
    exact hk p hw

/-- Whether an operand without a register is at risk is told alike. -/
theorem agrees_freezeEach (h : Books m L a s) {risk : CellState → Rvalue CellId → Bool} {risk' : State → OperandId → Bool}
    (hrisk : ∀ L a s o, Books m L a s → (s.operand o).register = none → risk a (a.operand o).value = risk' s o) :
    Agrees m L a s ((operandsOf a.stack).forM (freeze risk)) ((operandsOf s.stack).forM (Lowering.freeze risk')) Anything := by
  rw [h.stack]
  refine agrees_forM h fun o ho L' a' s' hg h' => agrees_get_bind ?_
  have hk := hg.known (known_of_mem_operandsOf h.stackKnown ho)
  refine agrees_ite ?_ (fun hd => agrees_spill h' hk (Option.isNone_iff_eq_none.mp (Bool.and_eq_true_iff.mp hd).1))
    fun _ => agrees_pure h' trivial
  rw [h'.register]
  cases hn : (s'.operand o).register with
  | none => rw [hrisk L' a' s' o h' hn]
  | some r => exact Iff.rfl

theorem agrees_freezeAll (h : Books m L a s) : Agrees m L a s freezeAll Lowering.freezeAll Anything := by
  refine agrees_get_bind (agrees_freezeEach h fun L a s o h _ => ?_)
  rcases (h.value o).cases with ⟨i, hv, hw⟩ | ⟨e, e', hv, hw⟩ | ⟨e, e', hv, hw⟩ <;> rw [hv, hw] <;> rfl

theorem agrees_freezeReadersOf (h : Books m L a s) (r : RegisterId) :
    Agrees m L a s (freezeReadersOf r) (Lowering.freezeReadersOf r) Anything :=
  agrees_get_bind (agrees_freezeEach h fun _ _ _ _ h hn => h.mentions r hn)

end ThreeAddress.Cells
