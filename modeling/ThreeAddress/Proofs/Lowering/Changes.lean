import Mathlib.Logic.Relation
import ThreeAddress.Proofs.Lowering.Coherent

/-!
# Changes

Lowering works on its state in a few kinds of changes, each with what it presupposes. Every change keeps a state coherent and extends it.
A change that moves an operand from one register to another, or two operands into one, happens at joins alone; `Change m false` are the
changes without these.
-/

namespace ThreeAddress
namespace State

/-- A single change of the state. -/
inductive Change (m : Method) (shares : Bool) (s : State) : State → Prop where
  | stack (stack : Stack) : Change m shares s (s.withStack stack)
  /-- A local slot is asked for. -/
  | slot {k : Nat} {r : RegisterId} {rs : Registers} (slot : s.registers.slot k = .ok (r, rs)) :
      Change m shares s (s.withRegisters rs)
  /-- A new register that belongs to no slot. -/
  | fresh : Change m shares s (s.withRegisters s.registers.fresh.2)
  /-- An operand is evaluated into a register. -/
  | bind {o : OperandId} {r : RegisterId} (known : s.Known o) (unbound : (s.operand o).register = none)
      (empty : s.unit (s.operand o).insn = []) (synthesized : s.Synthesized r)
      (free : shares = false → ∀ p, (s.operand p).register ≠ some r) :
      Change m shares s ((s.bindTo o r).modifyUnit (s.operand o).insn fun _ => [.define o])
  /-- The register of an operand is renamed. -/
  | rename {o : OperandId} {q r : RegisterId} (share : shares = true) (register : (s.operand o).register = some q)
      (synthesized : s.Synthesized r) : Change m shares s (s.bindTo o r)
  /-- An operand is copied into another register where it is produced. -/
  | copy {o : OperandId} {q r : RegisterId} (share : shares = true) (register : (s.operand o).register = some q)
      (synthesized : s.Synthesized r) : Change m shares s (s.modifyUnit (s.operand o).insn (· ++ [.copy r o]))
  /-- The operands of a later visit are remembered, with the registers that the visits share. -/
  | record {i : Nat} {row first : List OperandId} {shared : List RegisterId} (head : (s.frame i).rows.head? = some first)
      (known : ∀ o ∈ row, s.Known o) (synthesized : ∀ r ∈ shared, s.Synthesized r)
      (alike : shares = false → row = first ∧
        ∀ (j : Nat) (r : RegisterId), shared[j]? = some r → ∃ o, first[j]? = some o ∧ (s.operand o).register = some r) :
      Change m shares s (s.modifyFrame i fun f => { f with rows := f.rows ++ [row], shared := shared.map some })
  /-- The result of a first visit. -/
  | result {i : Nat} {op : Operation} {xs : List OperandId} {e : Effect OperandId} {v : Rvalue OperandId}
      (here : m.code[i]? = some op) (effect : op.effect xs = some e) (pushes : op.pushes.isSome)
      (value : e.rvalue? s.registers.slot? = some v) (out : (s.frame i).out = none) (empty : s.unit i = [])
      (known : ∀ o ∈ xs, s.Known o) (immediate : ∀ o ∈ xs, (s.content o).isImmediate) :
      Change m shares s ((s.withOperand ⟨i, v, none⟩).modifyFrame i fun _ =>
        { out := some s.nextOperand, rows := [op.row xs], shared := (op.row xs).map fun _ => none })
  /-- The statement of a first visit. -/
  | statement {i : Nat} {op : Operation} {xs : List OperandId} {e : Effect OperandId} {d : Draft} (here : m.code[i]? = some op)
      (effect : op.effect xs = some e) (pushes : op.pushes = none) (draft : e.draft? s.registers.slot? = some d)
      (empty : s.unit i = []) (known : ∀ o ∈ xs, s.Known o) (settled : ∀ o ∈ d.demanded, (s.content o).isImmediate) :
      Change m shares s ((s.modifyFrame i fun f =>
        { f with rows := [op.row xs], shared := (op.row xs).map fun _ => none }).modifyUnit i fun _ => [d])
  /-- The label of a handler binds the exception. -/
  | caught {i : Nat} {l : Label} (here : m.code[i]? = some (.label l)) (handler : l ∈ m.handlerLabels)
      (entry : s.handlerEntry? i = none) (out : (s.frame i).out = none) (empty : s.unit i = []) :
      Change m shares s ((((s.withRegisters s.registers.fresh.2).withOperand
        ⟨i, .ref .caughtException, some s.registers.fresh.1⟩).modifyFrame i fun f => { f with out := some s.nextOperand }).modifyUnit i
          fun _ => [.caught s.nextOperand])
  /-- The label of a handler with an entry of its own. -/
  | nop {i : Nat} {e : HandlerEntry} (entry : s.handlerEntry? i = some e) (empty : s.unit i = []) :
      Change m shares s (s.modifyUnit i fun _ => [.nop])

variable {m : Method} {shares : Bool} {s s' s'' : State} {i : Nat} {o : OperandId} {r : RegisterId}

/-! ## Registers -/

theorem Synthesized.fresh (h : s.Synthesized r) : (s.withRegisters s.registers.fresh.2).Synthesized r :=
  ⟨by simpa using Nat.lt_succ_of_lt h.1, h.2⟩

theorem Synthesized.slot {k : Nat} {q : RegisterId} {rs : Registers} (h : s.Synthesized r)
    (hs : s.registers.slot k = .ok (q, rs)) : (s.withRegisters rs).Synthesized r := by
  refine ⟨Nat.lt_of_lt_of_le h.1 (Registers.size_le_slot hs), fun k' hk' => ?_⟩
  rcases Registers.slot?_slot hs hk' with hold | ⟨-, hnew, -⟩
  · exact h.2 k' hold
  · exact absurd h.1 (by omega)

/-- A fresh register belongs to no slot. -/
theorem Coherent.synthesized_fresh (h : s.Coherent m) : (s.withRegisters s.registers.fresh.2).Synthesized s.registers.fresh.1 :=
  ⟨by simp, fun k hk => absurd (h.slot_lt k _ hk) (by simp)⟩

/-- No operand has a fresh register. -/
theorem Coherent.fresh_free (h : s.Coherent m) (p : OperandId) : (s.operand p).register ≠ some s.registers.fresh.1 := by
  intro hp
  have := (h.register p _ hp).1
  simp at this

/-- The registers may grow, if old slots keep their registers and new slots get new ones. -/
theorem Coherent.withRegisters {rs : Registers} (h : s.Coherent m)
    (slot : ∀ k r, s.registers.slot? k = some r → rs.slot? k = some r)
    (synthesized : ∀ r, s.Synthesized r → (s.withRegisters rs).Synthesized r)
    (slot_lt : ∀ k r, rs.slot? k = some r → r.index < rs.all.size)
    (slot_inj : ∀ k k' r, rs.slot? k = some r → rs.slot? k' = some r → k = k') : (s.withRegisters rs).Coherent m where
  frames_size := h.frames_size
  units_size := h.units_size
  slot_lt := slot_lt
  slot_inj := slot_inj
  register o r hr := synthesized r (h.register o r hr)
  shared i j r hr := synthesized r (h.shared i j r hr)
  rows := h.rows
  entry := h.entry
  owned := h.owned
  out := h.out
  operands := h.operands
  stage i hi := (h.stage i hi).mono rfl rfl (fun _ _ => rfl) slot synthesized rfl

theorem Extends.withRegisters {rs : Registers} (slot : ∀ k r, s.registers.slot? k = some r → rs.slot? k = some r)
    (synthesized : ∀ r, s.Synthesized r → (s.withRegisters rs).Synthesized r) : s.Extends (s.withRegisters rs) :=
  { Extends.refl s with slot, synthesized }

theorem Extends.fresh (s : State) : s.Extends (s.withRegisters s.registers.fresh.2) :=
  .withRegisters (fun _ _ hr => hr) fun _ hr => hr.fresh

/-- A slot that is asked for has a register of its own. -/
theorem Coherent.slot {k : Nat} {q : RegisterId} {rs : Registers} (h : s.Coherent m) (hs : s.registers.slot k = .ok (q, rs)) :
    (s.withRegisters rs).Coherent m := by
  have lt_or_new : ∀ {k' : Nat} {r : RegisterId}, rs.slot? k' = some r →
      s.registers.slot? k' = some r ∨ (k' = k ∧ r.index = s.registers.all.size ∧ rs.all.size = s.registers.all.size + 1) :=
    Registers.slot?_slot hs
  refine h.withRegisters (fun k' r hr => Registers.slot?_of_slot hs hr) (fun r hr => hr.slot hs) ?_ ?_
  · intro k' r hr
    rcases lt_or_new hr with hold | ⟨-, hidx, hsize⟩
    · exact Nat.lt_of_lt_of_le (h.slot_lt k' r hold) (Registers.size_le_slot hs)
    · omega
  · intro k₁ k₂ r h₁ h₂
    rcases lt_or_new h₁ with o₁ | ⟨e₁, i₁, -⟩ <;> rcases lt_or_new h₂ with o₂ | ⟨e₂, i₂, -⟩
    · exact h.slot_inj k₁ k₂ r o₁ o₂
    · exact absurd (h.slot_lt k₁ r o₁) (by omega)
    · exact absurd (h.slot_lt k₂ r o₂) (by omega)
    · rw [e₁, e₂]

theorem Coherent.fresh (h : s.Coherent m) : (s.withRegisters s.registers.fresh.2).Coherent m :=
  h.withRegisters (fun _ _ hr => hr) (fun _ hr => hr.fresh)
    (fun k r hr => by simpa using Nat.lt_succ_of_lt (h.slot_lt k r hr)) h.slot_inj

/-! ## Registers of operands -/

/-- What needs no evaluation depends on the operand alone. -/
theorem content_congr (h : s'.operand o = s.operand o) : s'.content o = s.content o := by
  unfold content
  rw [h]

/-- Whatever register an operand gets, every operand that has one keeps one. -/
theorem isSome_bindTo (p : OperandId) (h : (s.operand p).register.isSome) : ((s.bindTo o r).operand p).register.isSome := by
  by_cases hp : p = o
  · subst hp
    obtain ⟨q, hq⟩ := Option.isSome_iff_exists.mp h
    rw [operand_bindTo_self (known_of_register hq)]
    rfl
  · rwa [operand_bindTo_of_ne hp]

theorem Extends.bindTo (s : State) (o : OperandId) (r : RegisterId) : s.Extends (s.bindTo o r) where
  size := by simp
  insn _ _ := bindTo_insn
  value _ _ := bindTo_value
  bound := isSome_bindTo
  out _ _ h := h
  rows _ := List.prefix_refl _
  slot _ _ h := h
  synthesized _ h := h
  unit _ h := h
  entries := rfl

theorem Extends.modifyUnit {f : List Draft → List Draft} (h : ∀ ds, ds ≠ [] → f ds ≠ []) : s.Extends (s.modifyUnit i f) :=
  { Extends.refl s with
    unit := by
      intro j hj
      rcases unit_modifyUnit_or s i f j with hu | ⟨rfl, hu⟩ <;> rw [hu]
      · exact hj
      · exact h _ hj
    entries := rfl }

theorem Extends.modifyFrame {f : Frame → Frame} (out : ∀ o, (s.frame i).out = some o → (f (s.frame i)).out = some o)
    (rows : (s.frame i).rows <+: (f (s.frame i)).rows) : s.Extends (s.modifyFrame i f) :=
  { Extends.refl s with
    out := by
      intro j o hj
      rcases frame_modifyFrame_or s i f j with hf | ⟨rfl, hf⟩ <;> rw [hf]
      · exact hj
      · exact out o hj
    rows := by
      intro j
      rcases frame_modifyFrame_or s i f j with hf | ⟨rfl, hf⟩ <;> rewrite [hf]
      · exact List.prefix_refl _
      · exact rows
    entries := rfl }

theorem Extends.withOperand (s : State) (p : Operand) : s.Extends (s.withOperand p) where
  size := by simp
  insn _ hk := by rw [hk.operand_withOperand]
  value _ hk := by rw [hk.operand_withOperand]
  bound o h := by
    obtain ⟨q, hq⟩ := Option.isSome_iff_exists.mp h
    rwa [(known_of_register hq).operand_withOperand]
  out _ _ h := h
  rows _ := List.prefix_refl _
  slot _ _ h := h
  synthesized _ h := h
  unit _ h := h
  entries := rfl

/-- Every change keeps what there is. -/
theorem Change.extends (h : Change m shares s s') (hc : s.Coherent m) : s.Extends s' := by
  cases h with
  | stack => exact { Extends.refl s with }
  | slot slot => exact .withRegisters (fun _ _ hr => Registers.slot?_of_slot slot hr) fun _ hr => hr.slot slot
  | fresh => exact .fresh s
  | bind => exact (Extends.bindTo ..).trans (.modifyUnit (by simp))
  | rename => exact .bindTo ..
  | copy => exact .modifyUnit (by simp)
  | record => exact .modifyFrame (by simp) (by simp)
  | result here effect pushes value out empty =>
    have hrows := (hc.stage _ (List.getElem?_eq_some_iff.mp here).1).of_fresh out empty
    refine (Extends.withOperand ..).trans (.modifyFrame ?_ ?_)
    · simp [out]
    · simp [hrows]
  | statement here effect pushes draft empty =>
    obtain ⟨-, hrows⟩ := (hc.stage _ (List.getElem?_eq_some_iff.mp here).1).of_no_statement here effect pushes empty
    exact (Extends.modifyFrame (by simp) (by simp [hrows])).trans (.modifyUnit (by simp))
  | caught here handler entry out empty =>
    refine Extends.trans ?_ (.modifyUnit (by simp))
    refine Extends.trans ?_ (.modifyFrame (by simp [out]) (by simp))
    exact (Extends.fresh s).trans (.withOperand ..)
  | nop => exact .modifyUnit (by simp)

/-! ## Coherence -/

/-- The register of an operand after another was bound is synthesized if it was before. -/
theorem Coherent.register_bindTo (h : s.Coherent m) (hr : s.Synthesized r) (p : OperandId) (q : RegisterId)
    (hp : ((s.bindTo o r).operand p).register = some q) : s.Synthesized q := by
  by_cases hpo : p = o
  · subst hpo
    by_cases hk : s.Known p
    · rw [operand_bindTo_self hk] at hp
      simp only [Option.some.injEq] at hp
      exact hp ▸ hr
    · have := known_of_register hp
      exact absurd (by simpa [Known] using this) hk
  · rw [operand_bindTo_of_ne hpo] at hp
    exact h.register p q hp

/-- What an operand and its unit are after it was bound decides whether the state is still coherent. -/
theorem Coherent.of_bindTo {f : List Draft → List Draft} (h : s.Coherent m) (hr : s.Synthesized r)
    (stage : (s.operand o).insn < m.code.length →
      ((s.bindTo o r).modifyUnit (s.operand o).insn f).Stage m (s.operand o).insn) :
    ((s.bindTo o r).modifyUnit (s.operand o).insn f).Coherent m where
  frames_size := h.frames_size
  units_size := by simpa using h.units_size
  slot_lt := h.slot_lt
  slot_inj := h.slot_inj
  register p q hp := h.register_bindTo hr p q hp
  shared := h.shared
  rows i row hrow o ho := by simpa [Known] using h.rows i row hrow o ho
  entry i e he := by
    obtain ⟨hk, hi, hv, hb, hl⟩ := h.entry i e he
    exact ⟨by simpa [Known] using hk, by simpa using hi, by simpa using hv, isSome_bindTo _ hb, hl⟩
  owned p hk := by
    simp only [modifyUnit_operand, modifyUnit_frame, bindTo_insn, bindTo_frame]
    exact h.owned p (by simpa [Known] using hk)
  out i p hp := by
    obtain ⟨hk, hi⟩ := h.out i p hp
    exact ⟨by simpa [Known] using hk, by simpa using hi⟩
  operands p hk q hq := by
    have hk' : s.Known p := by simpa [Known] using hk
    simp only [modifyUnit_operand, bindTo_value] at hq
    obtain ⟨hlt, hi⟩ := h.operands p hk' q hq
    exact ⟨hlt, (Extends.bindTo s o r).isImmediate (Nat.lt_trans hlt hk') hi⟩
  stage j hj := by
    by_cases hji : j = (s.operand o).insn
    · subst hji
      exact stage hj
    · refine (h.stage j hj).mono rfl ?_ ?_ (fun _ _ hr => hr) (fun _ hr => hr) rfl
      · rw [unit_modifyUnit_of_ne hji, bindTo_unit]
      · intro p hp
        rw [modifyUnit_operand, operand_bindTo_of_ne]
        rintro rfl
        exact hji (h.out j p hp).2.symm

theorem Coherent.bind (h : s.Coherent m) (known : s.Known o) (unbound : (s.operand o).register = none)
    (synthesized : s.Synthesized r) :
    ((s.bindTo o r).modifyUnit (s.operand o).insn fun _ => [.define o]).Coherent m := by
  refine h.of_bindTo synthesized fun hi => ?_
  have hout : (s.frame (s.operand o).insn).out = some o := by
    rcases h.owned o known with ho | ⟨e, he, rfl⟩
    · exact ho
    · obtain ⟨-, -, -, hb, -⟩ := h.entry _ e he
      simp [unbound] at hb
  cases h.stage _ hi with
  | untouched out | statement _ _ out | shared _ _ out => simp [hout] at out
  | caught _ _ _ out _ _ bound =>
    obtain rfl := Option.some.inj (hout.symm.trans out)
    simp [unbound] at bound
  | @result op xs e p built pushes out value =>
    obtain rfl := Option.some.inj (hout.symm.trans out)
    refine .result ⟨built.here, built.effect, built.row⟩ pushes out ?_ ?_ ?_
    · simpa using value
    · simp [operand_bindTo_self known]
    · intro _
      refine ⟨[], ?_, by simp⟩
      rw [unit_modifyUnit_self (by simpa [h.units_size] using hi)]
      rfl

theorem Coherent.rename {q : RegisterId} (h : s.Coherent m) (register : (s.operand o).register = some q)
    (synthesized : s.Synthesized r) : (s.bindTo o r).Coherent m := by
  have hk := known_of_register register
  rw [← modifyUnit_id (s := s.bindTo o r)]
  refine h.of_bindTo synthesized fun hi => ?_
  rw [modifyUnit_id]
  have hb : (s.operand o).register.isSome := by simp [register]
  cases h.stage _ hi with
  | untouched out rows unit => exact .untouched out rows unit
  | statement built pushes out draft unit => exact .statement ⟨built.here, built.effect, built.row⟩ pushes out draft unit
  | shared here entry out rows unit => exact .shared here entry out rows unit
  | caught here handler entry out rows value bound unit =>
    exact .caught here handler entry out rows (by simpa using value) (isSome_bindTo _ bound) unit
  | @result op xs e p built pushes out value unbound bound =>
    refine .result ⟨built.here, built.effect, built.row⟩ pushes out (by simpa using value) ?_ ?_
    · intro hn
      refine unbound ?_
      cases hp : (s.operand p).register with
      | none => rfl
      | some q' =>
        have hsome : ((s.bindTo o r).operand p).register.isSome := isSome_bindTo p (by rw [hp]; rfl)
        simp [hn] at hsome
    · intro _
      refine bound ?_
      rcases h.owned o hk with ho | ⟨e', he', -⟩
      · obtain rfl := Option.some.inj (ho.symm.trans out)
        exact hb
      · obtain ⟨-, -, -, -, hl⟩ := h.entry _ e' he'
        obtain rfl := Option.some.inj (built.here.symm.trans hl)
        cases pushes

/-- Only the stage of the instruction matters when its unit changes. -/
theorem Coherent.modifyUnit {f : List Draft → List Draft} (h : s.Coherent m)
    (stage : i < m.code.length → (s.modifyUnit i f).Stage m i) : (s.modifyUnit i f).Coherent m :=
  { h with
    units_size := by simpa using h.units_size
    stage := by
      intro j hj
      by_cases hji : j = i
      · subst hji
        exact stage hj
      · exact (h.stage j hj).mono rfl (unit_modifyUnit_of_ne hji) (fun _ _ => rfl) (fun _ _ hr => hr) (fun _ hr => hr) rfl }

/-- Only the stage, the rows and the shared registers of an instruction matter when its unit and its frame change but for its result. -/
theorem Coherent.modify {f : List Draft → List Draft} {g : Frame → Frame} (h : s.Coherent m)
    (out : (g (s.frame i)).out = (s.frame i).out) (rows : ∀ row ∈ (g (s.frame i)).rows, ∀ o ∈ row, s.Known o)
    (shared : ∀ (j : Nat) (r : RegisterId), (g (s.frame i)).shared[j]? = some (some r) → s.Synthesized r)
    (stage : i < m.code.length → ((s.modifyFrame i g).modifyUnit i f).Stage m i) :
    ((s.modifyFrame i g).modifyUnit i f).Coherent m := by
  have hframe := frame_modifyFrame_or s i g
  have hout : ∀ j, ((s.modifyFrame i g).frame j).out = (s.frame j).out := by
    intro j
    rcases hframe j with hj | ⟨rfl, hj⟩
    · rw [hj]
    · rw [hj, out]
  exact
    { h with
      frames_size := by simpa using h.frames_size
      units_size := by simpa using h.units_size
      shared := by
        intro j k r hr
        rw [modifyUnit_frame] at hr
        rcases hframe j with hj | ⟨rfl, hj⟩
        · exact h.shared j k r (by rwa [hj] at hr)
        · exact shared k r (by rwa [hj] at hr)
      rows := by
        intro j row hrow
        rw [modifyUnit_frame] at hrow
        rcases hframe j with hj | ⟨rfl, hj⟩
        · exact h.rows j row (by rwa [hj] at hrow)
        · exact rows row (by rwa [hj] at hrow)
      owned := by
        intro o hk
        rw [modifyUnit_frame, hout]
        exact h.owned o hk
      out := by
        intro j o ho
        rw [modifyUnit_frame, hout] at ho
        exact h.out j o ho
      stage := by
        intro j hj
        by_cases hji : j = i
        · subst hji
          exact stage hj
        · exact (h.stage j hj).mono (frame_modifyFrame_of_ne hji) (unit_modifyUnit_of_ne hji) (fun _ _ => rfl)
            (fun _ _ hr => hr) (fun _ hr => hr) rfl }

theorem Coherent.copy {q : RegisterId} (h : s.Coherent m) (register : (s.operand o).register = some q)
    (synthesized : s.Synthesized r) : (s.modifyUnit (s.operand o).insn (· ++ [.copy r o])).Coherent m := by
  have hk := known_of_register register
  refine h.modifyUnit fun hi => ?_
  have hu : (s.modifyUnit (s.operand o).insn (· ++ [.copy r o])).unit (s.operand o).insn =
      s.unit (s.operand o).insn ++ [.copy r o] := unit_modifyUnit_self (by rwa [h.units_size])
  have more : ∀ rs, (∀ q ∈ rs, s.Synthesized q) → ∀ q ∈ rs ++ [r], s.Synthesized q := by
    intro rs hrs q hq
    rcases List.mem_append.mp hq with hq | hq
    · exact hrs q hq
    · rwa [List.mem_singleton.mp hq]
  have hcopies : ∀ rs, copies o rs ++ [.copy r o] = copies o (rs ++ [r]) := by
    intro rs
    simp [copies]
  rcases h.owned o hk with hout | ⟨e, he, heo⟩
  · -- The operand is the result of the instruction.
    cases h.stage _ hi with
    | untouched out | statement _ _ out | shared _ _ out => simp [hout] at out
    | @result op xs e p built pushes out value unbound bound =>
      obtain rfl := Option.some.inj (hout.symm.trans out)
      obtain ⟨rs, hunit, hrs⟩ := bound (by simp [register])
      refine .result ⟨built.here, built.effect, built.row⟩ pushes out value (by simp [register]) fun _ => ⟨rs ++ [r], ?_, more rs hrs⟩
      rw [hu, hunit, List.cons_append, hcopies]
    | @caught l p here handler entry out rows value bound unit =>
      obtain rfl := Option.some.inj (hout.symm.trans out)
      obtain ⟨rs, hunit, hrs⟩ := unit
      refine .caught here handler entry out rows value bound ⟨rs ++ [r], ?_, more rs hrs⟩
      rw [hu, hunit, List.cons_append, hcopies]
  · -- The operand is the exception of the entry of the handler.
    obtain ⟨-, -, -, -, hl⟩ := h.entry _ e he
    cases h.stage _ hi with
    | untouched out rows unit =>
      exact .shared hl he out rows ⟨[r], Or.inl (by rw [hu, unit, heo]; rfl), more [] (by simp)⟩
    | result built pushes =>
      obtain rfl := Option.some.inj (built.here.symm.trans hl)
      cases pushes
    | statement built =>
      obtain rfl := Option.some.inj (built.here.symm.trans hl)
      cases built.effect
    | caught _ _ entry => simp [he] at entry
    | @shared e' here entry out rows unit =>
      obtain rfl := Option.some.inj (he.symm.trans entry)
      obtain ⟨rs, hunit, hrs⟩ := unit
      refine .shared here entry out rows ⟨rs ++ [r], ?_, more rs hrs⟩
      rw [hu, heo]
      rw [heo] at hunit
      rcases hunit with hunit | hunit
      · exact Or.inl (by rw [hunit, hcopies])
      · exact Or.inr (by rw [hunit, List.cons_append, hcopies])

theorem Coherent.record {row first : List OperandId} {shared : List RegisterId} (h : s.Coherent m)
    (head : (s.frame i).rows.head? = some first) (known : ∀ o ∈ row, s.Known o) (synthesized : ∀ r ∈ shared, s.Synthesized r) :
    (s.modifyFrame i fun f => { f with rows := f.rows ++ [row], shared := shared.map some }).Coherent m := by
  rw [← modifyUnit_id (s := s.modifyFrame i _) (i := i)]
  refine h.modify rfl ?_ ?_ fun hi => ?_
  · intro row' hrow
    rcases List.mem_append.mp hrow with hrow | hrow
    · exact h.rows i row' hrow
    · rw [List.mem_singleton.mp hrow]
      exact known
  · intro j r hr
    simp only [List.getElem?_map, Option.map_eq_some_iff, Option.some.injEq] at hr
    obtain ⟨q, hq, rfl⟩ := hr
    exact synthesized q (List.mem_of_getElem? hq)
  · rw [modifyUnit_id]
    have hf := frame_modifyFrame_self (g := fun f => { f with rows := f.rows ++ [row], shared := shared.map some })
      (by rwa [h.frames_size] : i < s.frames.size)
    have hhead : (s.frame i).rows.head? = ((s.frame i).rows ++ [row]).head? := by
      rw [List.head?_append, head, Option.some_or]
    cases h.stage i hi with
    | untouched _ rows | caught _ _ _ _ rows | shared _ _ _ rows => simp [rows] at head
    | result built pushes out value unbound bound =>
      refine .result ⟨built.here, built.effect, ?_⟩ pushes ?_ value unbound bound
      · rw [hf, ← hhead, built.row]
      · rw [hf, out]
    | statement built pushes out draft unit =>
      refine .statement ⟨built.here, built.effect, ?_⟩ pushes ?_ draft unit
      · rw [hf, ← hhead, built.row]
      · rw [hf, out]

theorem Coherent.nop {e : HandlerEntry} (h : s.Coherent m) (entry : s.handlerEntry? i = some e) :
    (s.modifyUnit i fun _ => [.nop]).Coherent m := by
  obtain ⟨-, -, -, -, hl⟩ := h.entry i e entry
  refine h.modifyUnit fun hi => ?_
  have hu : (s.modifyUnit i fun _ => [.nop]).unit i = [.nop] := unit_modifyUnit_self (by rwa [h.units_size])
  have shared : ∀ (out : (s.frame i).out = none) (rows : (s.frame i).rows = []), (s.modifyUnit i fun _ => [.nop]).Stage m i :=
    fun out rows => .shared hl entry out rows ⟨[], Or.inr hu, by simp⟩
  cases h.stage i hi with
  | untouched out rows => exact shared out rows
  | shared _ _ out rows => exact shared out rows
  | result built pushes =>
    obtain rfl := Option.some.inj (built.here.symm.trans hl)
    cases pushes
  | statement built =>
    obtain rfl := Option.some.inj (built.here.symm.trans hl)
    cases built.effect
  | caught _ _ entry' => simp [entry] at entry'

/-- A new operand that becomes the result of an instruction without one. -/
theorem Coherent.withResult {p : Operand} {f : List Draft → List Draft} {g : Frame → Frame} (h : s.Coherent m)
    (hi : i < m.code.length) (insn : p.insn = i) (out : (s.frame i).out = none)
    (register : ∀ r, p.register = some r → s.Synthesized r)
    (operands : ∀ q ∈ p.value.operands, s.Known q ∧ (s.content q).isImmediate)
    (out' : (g (s.frame i)).out = some s.nextOperand) (rows : ∀ row ∈ (g (s.frame i)).rows, ∀ o ∈ row, s.Known o)
    (shared : ∀ (j : Nat) (r : RegisterId), (g (s.frame i)).shared[j]? = some (some r) → s.Synthesized r)
    (stage : (((s.withOperand p).modifyFrame i g).modifyUnit i f).Stage m i) :
    (((s.withOperand p).modifyFrame i g).modifyUnit i f).Coherent m := by
  subst insn
  have hself : ((s.withOperand p).modifyFrame p.insn g).frame p.insn = g (s.frame p.insn) :=
    frame_modifyFrame_self (by rwa [withOperand_frames, h.frames_size])
  have hother : ∀ {j}, j ≠ p.insn → ((s.withOperand p).modifyFrame p.insn g).frame j = s.frame j :=
    fun hj => frame_modifyFrame_of_ne hj
  have known : ∀ {o}, s.Known o → ((s.withOperand p).modifyFrame p.insn g).Known o :=
    fun hk => known_withOperand.mpr (Or.inl hk)
  exact
    { frames_size := by simpa using h.frames_size
      units_size := by simpa using h.units_size
      slot_lt := h.slot_lt
      slot_inj := h.slot_inj
      register := by
        intro o r hr
        rcases known_withOperand.mp (known_of_register hr : (s.withOperand p).Known o) with hk | rfl
        · exact h.register o r (by simpa [hk.operand_withOperand] using hr)
        · exact register r (by simpa using hr)
      shared := by
        intro j k r hr
        rw [modifyUnit_frame] at hr
        by_cases hj : j = p.insn
        · subst hj
          exact shared k r (by rwa [hself] at hr)
        · exact h.shared j k r (by rwa [hother hj] at hr)
      rows := by
        intro j row hrow o ho
        rw [modifyUnit_frame] at hrow
        by_cases hj : j = p.insn
        · subst hj
          exact known (rows row (by rwa [hself] at hrow) o ho)
        · exact known (h.rows j row (by rwa [hother hj] at hrow) o ho)
      entry := by
        intro j e he
        obtain ⟨hk, hrest⟩ := h.entry j e he
        have hsame : (s.withOperand p).operand e.operand = s.operand e.operand := hk.operand_withOperand
        simp only [modifyUnit_operand, modifyFrame_operand, hsame]
        exact ⟨known hk, hrest⟩
      owned := by
        intro o ho
        rcases known_withOperand.mp (ho : (s.withOperand p).Known o) with hk | rfl
        · simp only [modifyUnit_operand, modifyFrame_operand, modifyUnit_frame, hk.operand_withOperand]
          rcases h.owned o hk with hout | he
          · left
            rw [hother, hout]
            intro hj
            rw [hj, out] at hout
            cases hout
          · exact Or.inr he
        · left
          simp only [modifyUnit_operand, modifyFrame_operand, modifyUnit_frame, operand_withOperand_next, hself, out']
      out := by
        intro j o ho
        rw [modifyUnit_frame] at ho
        simp only [modifyUnit_operand, modifyFrame_operand]
        by_cases hj : j = p.insn
        · subst hj
          rw [hself, out', Option.some.injEq] at ho
          subst ho
          exact ⟨known_withOperand.mpr (Or.inr rfl), by simp⟩
        · rw [hother hj] at ho
          obtain ⟨hk, hins⟩ := h.out j o ho
          exact ⟨known hk, by rw [hk.operand_withOperand, hins]⟩
      operands := by
        intro o ho q hq
        simp only [modifyUnit_operand, modifyFrame_operand] at hq
        have content : ∀ {q}, s.Known q → (s.content q).isImmediate →
            (content (((s.withOperand p).modifyFrame p.insn g).modifyUnit p.insn f) q).isImmediate := by
          intro q hk hc
          have hsame : (((s.withOperand p).modifyFrame p.insn g).modifyUnit p.insn f).operand q = s.operand q :=
            hk.operand_withOperand
          rwa [content_congr hsame]
        rcases known_withOperand.mp (ho : (s.withOperand p).Known o) with hk | rfl
        · rw [hk.operand_withOperand] at hq
          obtain ⟨hlt, hc⟩ := h.operands o hk q hq
          exact ⟨hlt, content (Nat.lt_trans hlt hk) hc⟩
        · rw [operand_withOperand_next] at hq
          obtain ⟨hk, hc⟩ := operands q hq
          exact ⟨hk, content hk hc⟩
      stage := by
        intro j hj
        by_cases hji : j = p.insn
        · subst hji
          exact stage
        · refine (h.stage j hj).mono (hother hji) (unit_modifyUnit_of_ne hji) ?_ (fun _ _ hr => hr) (fun _ hr => hr) rfl
          intro o ho
          exact (h.out j o ho).1.operand_withOperand }

theorem Coherent.result {op : Operation} {xs : List OperandId} {e : Effect OperandId} {v : Rvalue OperandId} (h : s.Coherent m)
    (here : m.code[i]? = some op) (effect : op.effect xs = some e) (pushes : op.pushes.isSome)
    (value : e.rvalue? s.registers.slot? = some v) (out : (s.frame i).out = none) (empty : s.unit i = [])
    (known : ∀ o ∈ xs, s.Known o) (immediate : ∀ o ∈ xs, (s.content o).isImmediate) :
    ((s.withOperand ⟨i, v, none⟩).modifyFrame i fun _ =>
      { out := some s.nextOperand, rows := [op.row xs], shared := (op.row xs).map fun _ => none }).Coherent m := by
  have hi := (List.getElem?_eq_some_iff.mp here).1
  have hframe := frame_modifyFrame_self (g := fun _ =>
      { out := some s.nextOperand, rows := [op.row xs], shared := (op.row xs).map fun _ => none })
    (by rwa [withOperand_frames, h.frames_size] : i < (s.withOperand ⟨i, v, none⟩).frames.size)
  rw [← modifyUnit_id (s := (s.withOperand ⟨i, v, none⟩).modifyFrame i _) (i := i)]
  refine h.withResult hi rfl out (by simp) ?_ rfl ?_ ?_ ?_
  · intro q hq
    rw [Effect.operands_of_rvalue? value] at hq
    have hmem := Operation.mem_of_mem_operands effect hq
    exact ⟨known q hmem, immediate q hmem⟩
  · intro row hrow o ho
    rw [List.mem_singleton.mp hrow] at ho
    exact known o (Operation.mem_row.mp ho)
  · intro j r hr
    rw [List.getElem?_map, Option.map_eq_some_iff] at hr
    obtain ⟨_, -, hr⟩ := hr
    cases hr
  · rw [modifyUnit_id]
    refine .result (o := s.nextOperand) ⟨here, effect, ?_⟩ pushes ?_ ?_ (fun _ => empty) ?_
    · rw [hframe]
      rfl
    · rw [hframe]
    · simpa using value
    · simp

theorem Coherent.caught {l : Label} (h : s.Coherent m) (here : m.code[i]? = some (.label l)) (handler : l ∈ m.handlerLabels)
    (entry : s.handlerEntry? i = none) (out : (s.frame i).out = none) (empty : s.unit i = []) :
    ((((s.withRegisters s.registers.fresh.2).withOperand ⟨i, .ref .caughtException, some s.registers.fresh.1⟩).modifyFrame i
      fun f => { f with out := some s.nextOperand }).modifyUnit i fun _ => [.caught s.nextOperand]).Coherent m := by
  have hi := (List.getElem?_eq_some_iff.mp here).1
  have hrows := (h.stage i hi).of_fresh out empty
  have hframe := frame_modifyFrame_self (g := fun f => { f with out := some s.nextOperand })
    (by rwa [withOperand_frames, withRegisters_frames, h.frames_size] :
      i < ((s.withRegisters s.registers.fresh.2).withOperand ⟨i, .ref .caughtException, some s.registers.fresh.1⟩).frames.size)
  refine h.fresh.withResult hi rfl out ?_ (by simp [Rvalue.operands, Ref.operands]) rfl ?_ ?_ ?_
  · intro r hr
    simp only [Option.some.injEq] at hr
    exact hr ▸ h.synthesized_fresh
  · simp [hrows]
  · intro j r hr
    exact h.fresh.shared i j r hr
  · have hoperand : ((s.withRegisters s.registers.fresh.2).withOperand
        ⟨i, .ref .caughtException, some s.registers.fresh.1⟩).operand s.nextOperand =
          ⟨i, .ref .caughtException, some s.registers.fresh.1⟩ := operand_withOperand_next
    refine .caught (o := s.nextOperand) here handler entry ?_ ?_ ?_ ?_ ⟨[], ?_, by simp⟩
    · rw [modifyUnit_frame, hframe]
    · rw [modifyUnit_frame, hframe]
      exact hrows
    · rw [modifyUnit_operand, modifyFrame_operand, hoperand]
    · rw [modifyUnit_operand, modifyFrame_operand, hoperand]
      rfl
    · exact unit_modifyUnit_self (by rwa [modifyFrame_units, withOperand_units, withRegisters_units, h.units_size])

theorem Coherent.statement {op : Operation} {xs : List OperandId} {e : Effect OperandId} {d : Draft} (h : s.Coherent m)
    (here : m.code[i]? = some op) (effect : op.effect xs = some e) (pushes : op.pushes = none)
    (draft : e.draft? s.registers.slot? = some d) (empty : s.unit i = []) (known : ∀ o ∈ xs, s.Known o) :
    ((s.modifyFrame i fun f => { f with rows := [op.row xs], shared := (op.row xs).map fun _ => none }).modifyUnit i
      fun _ => [d]).Coherent m := by
  have hi := (List.getElem?_eq_some_iff.mp here).1
  obtain ⟨out, -⟩ := (h.stage i hi).of_no_statement here effect pushes empty
  have hframe := frame_modifyFrame_self (g := fun f => { f with rows := [op.row xs], shared := (op.row xs).map fun _ => none })
    (by rwa [h.frames_size] : i < s.frames.size)
  refine h.modify rfl ?_ ?_ fun _ => ?_
  · intro row hrow o ho
    rw [List.mem_singleton.mp hrow] at ho
    exact known o (Operation.mem_row.mp ho)
  · intro j r hr
    rw [List.getElem?_map, Option.map_eq_some_iff] at hr
    obtain ⟨_, -, hr⟩ := hr
    cases hr
  · refine .statement ⟨here, effect, ?_⟩ pushes ?_ draft ?_
    · rw [modifyUnit_frame, hframe]
      rfl
    · rw [modifyUnit_frame, hframe]
      exact out
    · exact unit_modifyUnit_self (by rwa [modifyFrame_units, h.units_size])

/-- Every change keeps a state coherent. -/
theorem Change.coherent (h : Change m shares s s') (hc : s.Coherent m) : s'.Coherent m := by
  cases h with
  | stack =>
    exact { hc with stage := fun i hi => (hc.stage i hi).mono rfl rfl (fun _ _ => rfl) (fun _ _ hr => hr) (fun _ hr => hr) rfl }
  | slot slot => exact hc.slot slot
  | fresh => exact hc.fresh
  | bind known unbound _ synthesized => exact hc.bind known unbound synthesized
  | rename _ register synthesized => exact hc.rename register synthesized
  | copy _ register synthesized => exact hc.copy register synthesized
  | record head known synthesized => exact hc.record head known synthesized
  | result here effect pushes value out empty known immediate =>
    exact hc.result here effect pushes value out empty known immediate
  | statement here effect pushes draft empty known => exact hc.statement here effect pushes draft empty known
  | caught here handler entry out empty => exact hc.caught here handler entry out empty
  | nop entry => exact hc.nop entry

/-- No change declares local slots. -/
theorem Change.maxLocals (h : Change m shares s s') : s'.registers.maxLocals = s.registers.maxLocals := by
  cases h with
  | slot slot => exact Registers.maxLocals_slot slot
  | _ => rfl

end State
end ThreeAddress
