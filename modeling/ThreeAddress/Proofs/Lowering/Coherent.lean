import ThreeAddress.Proofs.Lowering.Effects
import ThreeAddress.Proofs.Lowering.Updates

/-!
# Coherent states

`Coherent` is what holds of the state of lowering between any two steps, apart from the stack: every instruction is at one `Stage`, every
operand is the result of its instruction or the exception of a handler's entry, a value mentions only earlier operands that need no
evaluation, and the registers of operands are none of the registers of local slots. `Extends` is what every step keeps.
-/

namespace ThreeAddress

/-- The statements that copy an operand into registers. -/
def copies (o : OperandId) (rs : List RegisterId) : List Draft :=
  rs.map (.copy · o)

namespace State

/-- An instruction was built from the operands of its first visit. -/
structure Built (m : Method) (s : State) (i : Nat) (op : Operation) (xs : List OperandId) (e : Effect OperandId) : Prop where
  here : m.code[i]? = some op
  effect : op.effect xs = some e
  row : (s.frame i).rows.head? = some (op.row xs)

/-- What lowering has made of an instruction so far. -/
inductive Stage (m : Method) (s : State) (i : Nat) : Prop where
  /-- It was not visited, or leaves nothing behind. -/
  | untouched (out : (s.frame i).out = none) (rows : (s.frame i).rows = []) (unit : s.unit i = [])
  /-- It has a result, which is evaluated there once it has a register, and copied into others where joins ask for that. -/
  | result {op : Operation} {xs : List OperandId} {e : Effect OperandId} {o : OperandId} (built : s.Built m i op xs e)
      (pushes : op.pushes.isSome) (out : (s.frame i).out = some o)
      (value : e.rvalue? s.registers.slot? = some (s.operand o).value)
      (unbound : (s.operand o).register = none → s.unit i = [])
      (bound : (s.operand o).register.isSome → ∃ rs, s.unit i = .define o :: copies o rs ∧ ∀ r ∈ rs, s.Synthesized r)
  /-- It has a statement. -/
  | statement {op : Operation} {xs : List OperandId} {e : Effect OperandId} {d : Draft} (built : s.Built m i op xs e)
      (pushes : op.pushes = none) (out : (s.frame i).out = none) (draft : e.draft? s.registers.slot? = some d)
      (unit : s.unit i = [d])
  /-- It is the label of a handler that binds the caught exception. -/
  | caught {l : Label} {o : OperandId} (here : m.code[i]? = some (.label l)) (handler : l ∈ m.handlerLabels)
      (entry : s.handlerEntry? i = none) (out : (s.frame i).out = some o) (rows : (s.frame i).rows = [])
      (value : (s.operand o).value = .ref .caughtException)
      (bound : (s.operand o).register.isSome) (unit : ∃ rs, s.unit i = .caught o :: copies o rs ∧ ∀ r ∈ rs, s.Synthesized r)
  /-- It is the label of a handler with an entry of its own. -/
  | shared {e : HandlerEntry} (here : m.code[i]? = some (.label e.label)) (entry : s.handlerEntry? i = some e)
      (out : (s.frame i).out = none)
      (rows : (s.frame i).rows = [])
      (unit : ∃ rs, (s.unit i = copies e.operand rs ∨ s.unit i = .nop :: copies e.operand rs) ∧ ∀ r ∈ rs, s.Synthesized r)

/-- What holds between any two steps of lowering. -/
structure Coherent (m : Method) (s : State) : Prop where
  frames_size : s.frames.size = m.code.length
  units_size : s.units.size = m.code.length
  slot_lt : ∀ k r, s.registers.slot? k = some r → r.index < s.registers.all.size
  slot_inj : ∀ k k' r, s.registers.slot? k = some r → s.registers.slot? k' = some r → k = k'
  register : ∀ o r, (s.operand o).register = some r → s.Synthesized r
  shared : ∀ (i j : Nat) (r : RegisterId), (s.frame i).shared[j]? = some (some r) → s.Synthesized r
  rows : ∀ i row, row ∈ (s.frame i).rows → ∀ o ∈ row, s.Known o
  entry : ∀ i e, s.handlerEntry? i = some e → s.Known e.operand ∧ (s.operand e.operand).insn = i ∧
    (s.operand e.operand).value = .ref .caughtException ∧ (s.operand e.operand).register.isSome ∧
    m.code[i]? = some (.label e.label)
  owned : ∀ o, s.Known o → (s.frame (s.operand o).insn).out = some o ∨
    ∃ e, s.handlerEntry? (s.operand o).insn = some e ∧ e.operand = o
  out : ∀ i o, (s.frame i).out = some o → s.Known o ∧ (s.operand o).insn = i
  operands : ∀ o, s.Known o → ∀ q ∈ (s.operand o).value.operands, q.index < o.index ∧ (s.content q).isImmediate
  stage : ∀ i, i < m.code.length → s.Stage m i

/-- What every step of lowering keeps. -/
structure Extends (s s' : State) : Prop where
  size : s.operands.size ≤ s'.operands.size
  insn : ∀ o, s.Known o → (s'.operand o).insn = (s.operand o).insn
  value : ∀ o, s.Known o → (s'.operand o).value = (s.operand o).value
  bound : ∀ o, (s.operand o).register.isSome → (s'.operand o).register.isSome
  out : ∀ i o, (s.frame i).out = some o → (s'.frame i).out = some o
  rows : ∀ i, (s.frame i).rows <+: (s'.frame i).rows
  slot : ∀ k r, s.registers.slot? k = some r → s'.registers.slot? k = some r
  synthesized : ∀ r, s.Synthesized r → s'.Synthesized r
  unit : ∀ i, s.unit i ≠ [] → s'.unit i ≠ []
  entries : s'.handlerEntries = s.handlerEntries

variable {m : Method} {s s' s'' : State} {i : Nat} {o : OperandId} {r : RegisterId}

/-! ## What is kept -/

theorem Extends.refl (s : State) : s.Extends s :=
  ⟨Nat.le_refl _, fun _ _ => rfl, fun _ _ => rfl, fun _ h => h, fun _ _ h => h, fun _ => List.prefix_refl _, fun _ _ h => h,
    fun _ h => h, fun _ h => h, rfl⟩

theorem Extends.known (h : s.Extends s') (hk : s.Known o) : s'.Known o :=
  Nat.lt_of_lt_of_le hk h.size

theorem Extends.trans (h : s.Extends s') (h' : s'.Extends s'') : s.Extends s'' where
  size := Nat.le_trans h.size h'.size
  insn o hk := (h'.insn o (h.known hk)).trans (h.insn o hk)
  value o hk := (h'.value o (h.known hk)).trans (h.value o hk)
  bound o hb := h'.bound o (h.bound o hb)
  out i o ho := h'.out i o (h.out i o ho)
  rows i := (h.rows i).trans (h'.rows i)
  slot k r hs := h'.slot k r (h.slot k r hs)
  synthesized r hr := h'.synthesized r (h.synthesized r hr)
  unit i hu := h'.unit i (h.unit i hu)
  entries := h'.entries.trans h.entries

theorem Extends.handlerEntry? (h : s.Extends s') (i : Nat) : s'.handlerEntry? i = s.handlerEntry? i := by
  simp only [ State.handlerEntry?, h.entries]

/-- The first row of an instruction stays. -/
theorem Extends.head_rows (h : s.Extends s') {row : List OperandId} (hr : (s.frame i).rows.head? = some row) :
    (s'.frame i).rows.head? = some row := by
  obtain ⟨rest, hrest⟩ := h.rows i
  rw [← hrest, List.head?_append, hr, Option.some_or]

/-- What needs no evaluation never needs any. -/
theorem Extends.isImmediate (h : s.Extends s') (hk : s.Known o) (hi : (s.content o).isImmediate) :
    (s'.content o).isImmediate := by
  unfold content at hi ⊢
  cases hr' : (s'.operand o).register with
  | some r => rfl
  | none =>
    cases hr : (s.operand o).register with
    | some r =>
      have := h.bound o (by simp [hr])
      simp [hr'] at this
    | none =>
      simp only [hr] at hi
      rw [h.value o hk]
      exact hi

/-- The content of an operand with a register is that register. -/
theorem content_of_register (h : (s.operand o).register = some r) : s.content o = .register r := by
  simp [content, h]

theorem content_of_unbound (h : (s.operand o).register = none) : s.content o = (s.operand o).value := by
  simp [content, h]

/-! ## Stages -/

/-- Nothing is left of an instruction that has neither a result nor a statement. -/
theorem Stage.of_fresh (h : s.Stage m i) (out : (s.frame i).out = none) (unit : s.unit i = []) : (s.frame i).rows = [] := by
  cases h with
  | untouched _ rows _ => exact rows
  | result _ _ out' => simp [out] at out'
  | statement _ _ _ _ unit' => simp [unit] at unit'
  | caught _ _ _ out' => simp [out] at out'
  | shared _ _ _ rows => exact rows

/-- An operation that pushes a value and has no result yet leaves nothing behind. -/
theorem Stage.of_no_result {op : Operation} {xs : List OperandId} {e : Effect OperandId} (h : s.Stage m i)
    (here : m.code[i]? = some op) (effect : op.effect xs = some e) (pushes : op.pushes.isSome) (out : (s.frame i).out = none) :
    s.unit i = [] := by
  cases h with
  | untouched _ _ unit => exact unit
  | result _ _ out' | caught _ _ _ out' => simp [out] at out'
  | statement built pushes' =>
    obtain rfl := Option.some.inj (here.symm.trans built.here)
    simp [pushes'] at pushes
  | shared here' =>
    obtain rfl := Option.some.inj (here.symm.trans here')
    cases effect

/-- An operation that pushes nothing and has no statement yet leaves nothing behind. -/
theorem Stage.of_no_statement {op : Operation} {xs : List OperandId} {e : Effect OperandId} (h : s.Stage m i)
    (here : m.code[i]? = some op) (effect : op.effect xs = some e) (pushes : op.pushes = none) (unit : s.unit i = []) :
    (s.frame i).out = none ∧ (s.frame i).rows = [] := by
  cases h with
  | untouched out rows _ => exact ⟨out, rows⟩
  | result built pushes' =>
    obtain rfl := Option.some.inj (here.symm.trans built.here)
    simp [pushes] at pushes'
  | statement _ _ _ _ unit' => simp [unit] at unit'
  | caught here' =>
    obtain rfl := Option.some.inj (here.symm.trans here')
    simp [Operation.effect] at effect
  | shared _ _ out rows => exact ⟨out, rows⟩

/-- A stage depends on little of the state. -/
theorem Stage.mono (h : s.Stage m i) (frame : s'.frame i = s.frame i) (unit : s'.unit i = s.unit i)
    (operand : ∀ o, (s.frame i).out = some o → s'.operand o = s.operand o)
    (slot : ∀ k r, s.registers.slot? k = some r → s'.registers.slot? k = some r)
    (synthesized : ∀ r, s.Synthesized r → s'.Synthesized r) (entries : s'.handlerEntries = s.handlerEntries) :
    s'.Stage m i := by
  cases h with
  | untouched out rows hunit => exact .untouched (by rw [frame, out]) (by rw [frame, rows]) (by rw [unit, hunit])
  | @result op xs e o built pushes out value unbound bound =>
    rw [← frame] at out
    have ho := operand o (by rw [← frame, out])
    refine .result ⟨built.here, built.effect, by rw [frame, built.row]⟩ pushes out ?_ ?_ ?_
    · rw [ho]
      exact Effect.rvalue?_mono slot value
    · rw [ho, unit]
      exact unbound
    · rw [ho, unit]
      intro hb
      obtain ⟨rs, hu, hrs⟩ := bound hb
      exact ⟨rs, hu, fun r hr => synthesized r (hrs r hr)⟩
  | statement built pushes out draft hunit =>
    exact .statement ⟨built.here, built.effect, by rw [frame, built.row]⟩ pushes (by rw [frame, out])
      (Effect.draft?_mono slot draft) (by rw [unit, hunit])
  | @caught l o here handler entry out rows value bound hunit =>
    rw [← frame] at out
    have ho := operand o (by rw [← frame, out])
    obtain ⟨rs, hu, hrs⟩ := hunit
    exact .caught here handler (by simpa only [ handlerEntry?, entries] using entry) out (by rw [frame, rows]) (by rw [ho, value])
      (by rw [ho, bound]) ⟨rs, by rw [unit, hu], fun r hr => synthesized r (hrs r hr)⟩
  | @shared e here entry out rows hunit =>
    obtain ⟨rs, hu, hrs⟩ := hunit
    refine .shared (e := e) here ?_ (by rw [frame, out]) (by rw [frame, rows])
      ⟨rs, by rw [unit]; exact hu, fun r hr => synthesized r (hrs r hr)⟩
    simpa only [ handlerEntry?, entries] using entry

/-- The operand that an instruction is known for: its result, or the exception of its entry. -/
theorem Coherent.owner (h : s.Coherent m) (hk : s.Known o) : (s.operand o).insn < m.code.length := by
  rcases h.owned o hk with ho | ⟨e, he, -⟩
  · rw [← h.frames_size]
    refine lt_of_frame_ne_default fun hd => ?_
    rw [hd] at ho
    simp [default, instInhabitedFrame.default] at ho
  · obtain ⟨-, -, -, -, hl⟩ := h.entry _ e he
    exact (List.getElem?_eq_some_iff.mp hl).1

/-! ## Statements of units -/

/-- What a statement is there for that stands at a place in the unit of an instruction. -/
inductive Drafted (m : Method) (s : State) (i : Nat) : Nat → Draft → Prop where
  /-- It evaluates the result, which has a register. -/
  | result {op : Operation} {xs : List OperandId} {e : Effect OperandId} {o : OperandId} (built : s.Built m i op xs e)
      (out : (s.frame i).out = some o) (value : e.rvalue? s.registers.slot? = some (s.operand o).value)
      (bound : (s.operand o).register.isSome) : Drafted m s i 0 (.define o)
  /-- It does what the operation does. -/
  | statement {op : Operation} {xs : List OperandId} {e : Effect OperandId} {d : Draft} (built : s.Built m i op xs e)
      (draft : e.draft? s.registers.slot? = some d) : Drafted m s i 0 d
  /-- It binds the exception at the label of a handler without an entry. -/
  | caught {l : Label} {o : OperandId} (here : m.code[i]? = some (.label l)) (handler : l ∈ m.handlerLabels)
      (entry : s.handlerEntry? i = none) (out : (s.frame i).out = some o) (bound : (s.operand o).register.isSome) :
      Drafted m s i 0 (.caught o)
  /-- It stands in front of the copies of what an entry binds. -/
  | nop : Drafted m s i 0 .nop
  /-- It copies what the instruction leaves behind where operands are joined. -/
  | copy {k : Nat} {o : OperandId} {r : RegisterId} (known : s.Known o) (bound : (s.operand o).register.isSome)
      (synthesized : s.Synthesized r) : Drafted m s i k (.copy r o)

/-- Every statement of a unit is there for something. -/
theorem Coherent.drafted {k : Nat} {d : Draft} (h : s.Coherent m) (hi : i < m.code.length) (hd : (s.unit i)[k]? = some d) :
    s.Drafted m i k d := by
  have copied : ∀ {n k : Nat} {p : OperandId} {rs : List RegisterId}, s.Known p → (s.operand p).register.isSome →
      (∀ r ∈ rs, s.Synthesized r) → (copies p rs)[n]? = some d → s.Drafted m i k d := by
    intro n k p rs hk hb hrs hn
    obtain ⟨r, hr, rfl⟩ := List.mem_map.mp (List.mem_of_getElem? hn)
    exact .copy hk hb (hrs r hr)
  cases h.stage i hi with
  | untouched _ _ unit => simp [unit] at hd
  | @result op xs e p built _ out value unbound bound =>
    by_cases hr : (s.operand p).register = none
    · simp [unbound hr] at hd
    · have hb := Option.isSome_iff_ne_none.mpr hr
      obtain ⟨rs, hunit, hrs⟩ := bound hb
      rw [hunit] at hd
      cases k with
      | zero =>
        cases hd
        exact .result built out value hb
      | succ k => exact copied (h.out i p out).1 hb hrs hd
  | statement built _ _ draft unit =>
    rw [unit] at hd
    cases k with
    | zero =>
      cases hd
      exact .statement built draft
    | succ k => cases hd
  | @caught l p here handler entry out _ _ bound unit =>
    obtain ⟨rs, hunit, hrs⟩ := unit
    rw [hunit] at hd
    cases k with
    | zero =>
      cases hd
      exact .caught here handler entry out bound
    | succ k => exact copied (h.out i p out).1 bound hrs hd
  | shared _ entry _ _ unit =>
    obtain ⟨hk, -, -, hb, -⟩ := h.entry i _ entry
    obtain ⟨rs, hunit | hunit, hrs⟩ := unit <;> rw [hunit] at hd
    · exact copied hk hb hrs hd
    · cases k with
      | zero =>
        cases hd
        exact .nop
      | succ k => exact copied hk hb hrs hd

/-- Every statement of a unit is there for something, wherever it stands. -/
theorem Coherent.exists_drafted {d : Draft} (h : s.Coherent m) (hi : i < m.code.length) (hd : d ∈ s.unit i) : ∃ k, s.Drafted m i k d := by
  obtain ⟨k, hk⟩ := List.getElem?_of_mem hd
  exact ⟨k, h.drafted hi hk⟩

/-- An instruction whose result has a register has a statement. -/
theorem Coherent.unit_ne_nil (h : s.Coherent m) (hout : (s.frame i).out = some o) (hr : (s.operand o).register.isSome) :
    s.unit i ≠ [] := by
  obtain ⟨hk, hinsn⟩ := h.out i o hout
  cases h.stage i (hinsn ▸ h.owner hk) with
  | untouched out | statement _ _ out | shared _ _ out => simp [hout] at out
  | result _ _ out _ _ bound =>
    obtain rfl := Option.some.inj (hout.symm.trans out)
    obtain ⟨rs, hunit, -⟩ := bound hr
    simp [hunit]
  | caught _ _ _ _ _ _ _ unit =>
    obtain ⟨rs, hunit, -⟩ := unit
    simp [hunit]

/-- Every operand of the first visit of an instruction exists. -/
theorem Coherent.known_of_built {op : Operation} {xs : List OperandId} {e : Effect OperandId} (h : s.Coherent m) (hb : s.Built m i op xs e)
    (ho : o ∈ e.operands) : s.Known o :=
  h.rows i _ (List.mem_of_head? hb.row) o (Operation.mem_row.mpr (Operation.mem_of_mem_operands hb.effect ho))

end State
end ThreeAddress
