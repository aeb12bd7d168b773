import ThreeAddress.Lowering.Join
import ThreeAddress.Proofs.Lowering.Exclusive

/-!
# Joins

What a visit of an instruction does with its operands, the first and any later one. In general a later visit renames the registers of
operands, shares and copies them. Where the operands of the first visit arrive again, it does nothing but evaluate some of them.
-/

namespace ThreeAddress

open State

namespace Lowering

variable {m : Method} {s s' : State} {i : Nat} {o : OperandId} {r : RegisterId} {u : PUnit}

/-! ## Different operands -/

theorem rebind_spec (h : Yields (rebind o r) s u s') (hk : s.Known o) (hr : s.Synthesized r) : Quiet m true s s' := by
  simp only [rebind, yields_bind, yields_get] at h
  obtain ⟨_, _, ⟨rfl, rfl⟩, h⟩ := h
  split at h
  · rename_i hn
    obtain ⟨hunit, rfl⟩ := yields_bind_register.mp h
    exact .single (.bind hk hn hunit hr (by simp)) rfl
  · rename_i q hq
    simp only [yields_ite, yields_setRegister, yields_fail, yields_pure, and_false, or_false] at h
    rcases h with ⟨-, -, rfl⟩ | ⟨-, -, rfl⟩
    · exact .single (.rename rfl hq hr) rfl
    · exact .refl _

theorem bringInto_spec (h : Yields (bringInto o r) s u s') (hk : s.Known o) (hr : s.Synthesized r) : Quiet m true s s' := by
  simp only [bringInto, yields_bind, yields_get] at h
  obtain ⟨_, _, ⟨rfl, rfl⟩, h⟩ := h
  split at h
  · rename_i hn
    obtain ⟨hunit, rfl⟩ := yields_bind_register.mp h
    exact .single (.bind hk hn hunit hr (by simp)) rfl
  · rename_i q hq
    simp only [yields_ite, yields_appendUnit, yields_pure] at h
    rcases h with ⟨-, rfl⟩ | ⟨-, -, rfl⟩
    · exact .single (.copy rfl hq hr) rfl
    · exact .refl _

theorem rebinds_spec {os : List OperandId} (h : Yields (os.forM (rebind · r)) s u s') (hc : s.Coherent m) (hk : ∀ o ∈ os, s.Known o)
    (hr : s.Synthesized r) : Quiet m true s s' := by
  induction os generalizing s with
  | nil =>
    rw [yields_forM_nil] at h
    subst h
    exact .refl _
  | cons o os ih =>
    rw [yields_forM_cons] at h
    obtain ⟨t, ho, hrest⟩ := h
    have hq : Quiet m true s t := rebind_spec ho (hk o (by simp)) hr
    have he := hq.changes.extends hc
    exact hq.trans (ih hrest (hq.changes.coherent hc) (fun p hp => he.known (hk p (by simp [hp]))) (he.synthesized r hr))

/-- The register in which operands can meet belongs to no slot, and no change but a fresh register is made for it. -/
theorem meetingRegister_spec (shares : Bool) {column : List OperandId} (h : Yields (meetingRegister column) s r s') (hc : s.Coherent m) :
    Quiet m shares s s' ∧ s'.Synthesized r ∧
      ((s' = s ∧ column.findSome? (fun o => (s.operand o).register) = some r) ∨
        (column.findSome? (fun o => (s.operand o).register) = none ∧ r = s.registers.fresh.1 ∧
          s' = s.withRegisters s.registers.fresh.2)) := by
  simp only [meetingRegister, yields_bind, yields_get] at h
  obtain ⟨_, _, ⟨rfl, rfl⟩, h⟩ := h
  split at h
  · rename_i q hq
    simp only [yields_pure] at h
    obtain ⟨rfl, rfl⟩ := h
    obtain ⟨o, -, ho⟩ := List.exists_of_findSome?_eq_some hq
    exact ⟨.refl _, hc.register o r ho, Or.inl ⟨rfl, hq⟩⟩
  · rename_i hnone
    simp only [yields_freshRegister] at h
    obtain ⟨rfl, rfl⟩ := h
    exact ⟨.single .fresh rfl, hc.synthesized_fresh, Or.inr ⟨hnone, rfl, rfl⟩⟩

theorem joinAt_spec {column : List OperandId} {shared : Option RegisterId} (h : Yields (joinAt column shared o) s r s')
    (hc : s.Coherent m) (hk : ∀ p ∈ column ++ [o], s.Known p) (hshared : ∀ q, shared = some q → s.Synthesized q) :
    Quiet m true s s' ∧ s'.Synthesized r := by
  cases shared with
  | some q =>
    simp only [joinAt, yields_bind, yields_pure] at h
    obtain ⟨_, t, hb, rfl, rfl⟩ := h
    have hq : Quiet m true s s' := bringInto_spec hb (hk o (by simp)) (hshared r rfl)
    exact ⟨hq, (hq.changes.extends hc).synthesized r (hshared r rfl)⟩
  | none =>
    simp only [joinAt, yields_bind, yields_pure] at h
    obtain ⟨q, t, hm, _, t', hb, rfl, rfl⟩ := h
    obtain ⟨hq, hsyn, -⟩ := meetingRegister_spec true hm hc
    have he := hq.changes.extends hc
    have hq' : Quiet m true t s' := rebinds_spec hb (hq.changes.coherent hc) (fun p hp => he.known (hk p hp)) hsyn
    exact ⟨hq.trans hq', (hq'.changes.extends (hq.changes.coherent hc)).synthesized r hsyn⟩

/-! ## The same operands -/

/-- An operand that is bound to a register already is left alone. -/
theorem rebind_bound (h : Yields (rebind o r) s u s') (hr : (s.operand o).register = some r) : s' = s := by
  simp only [rebind, yields_bind, yields_get] at h
  obtain ⟨_, _, ⟨rfl, rfl⟩, h⟩ := h
  simpa [hr] using h

/-- Moving one operand into one register again and again evaluates it there at most once. -/
theorem rebinds_alike {os : List OperandId} (h : Yields (os.forM (rebind · r)) s u s') (hall : ∀ p ∈ os, p = o)
    (hr : (s.operand o).register = some r) : s' = s := by
  induction os generalizing s with
  | nil => simpa using h
  | cons p os ih =>
    rw [yields_forM_cons] at h
    obtain ⟨t, hp, hrest⟩ := h
    obtain rfl : p = o := hall p (by simp)
    obtain rfl := rebind_bound hp hr
    exact ih hrest (fun q hq => hall q (by simp [hq])) hr

/-- Joining an operand with itself evaluates it into a register of its own, unless it has one. -/
theorem joinAt_alike {column : List OperandId} {shared : Option RegisterId} (h : Yields (joinAt column shared o) s r s')
    (hc : s.Coherent m) (hk : s.Known o) (hall : ∀ p ∈ column, p = o)
    (hshared : ∀ q, shared = some q → (s.operand o).register = some q) :
    Quiet m false s s' ∧ (s'.operand o).register = some r := by
  cases shared with
  | some q =>
    have hreg := hshared q rfl
    simp only [joinAt, bringInto, yields_bind, yields_get, yields_pure] at h
    obtain ⟨_, t, ⟨_, _, ⟨rfl, rfl⟩, hb⟩, rfl, rfl⟩ := h
    simp only [hreg, ne_eq, not_true_eq_false, if_false, yields_pure] at hb
    obtain ⟨-, rfl⟩ := hb
    exact ⟨.refl _, hreg⟩
  | none =>
    simp only [joinAt, yields_bind, yields_pure] at h
    obtain ⟨q, t, hm, _, t', hb, rfl, rfl⟩ := h
    have hall' : ∀ p ∈ column ++ [o], p = o := by
      intro p hp
      rcases List.mem_append.mp hp with hp | hp
      · exact hall p hp
      · exact List.mem_singleton.mp hp
    obtain ⟨hq, hsyn, hcase⟩ := meetingRegister_spec false hm hc
    rcases hcase with ⟨rfl, hfind⟩ | ⟨hfind, rfl, rfl⟩
    · -- The operand has a register, the one in which it meets itself.
      obtain ⟨p, hp, hreg⟩ := List.exists_of_findSome?_eq_some hfind
      rw [hall' p hp] at hreg
      obtain rfl := rebinds_alike hb hall' hreg
      exact ⟨.refl _, hreg⟩
    · -- The operand has none: the first move evaluates it, the others find it evaluated.
      have hn : (s.operand o).register = none := List.findSome?_eq_none_iff.mp hfind o (by simp)
      obtain ⟨p, os, hos⟩ : ∃ p os, column ++ [o] = p :: os := by
        cases column with
        | nil => exact ⟨o, [], rfl⟩
        | cons p ps => exact ⟨p, ps ++ [o], rfl⟩
      rw [hos] at hall' hb
      obtain rfl : p = o := hall' p (by simp)
      rw [yields_forM_cons] at hb
      obtain ⟨t, hfirst, hrest⟩ := hb
      simp only [rebind, yields_bind, yields_get] at hfirst
      obtain ⟨_, _, ⟨rfl, rfl⟩, hfirst⟩ := hfirst
      rw [withRegisters_operand, hn] at hfirst
      obtain ⟨hunit, rfl⟩ := yields_bind_register.mp hfirst
      have hreg : ((((s.withRegisters s.registers.fresh.2).bindTo p s.registers.fresh.1).modifyUnit
          ((s.withRegisters s.registers.fresh.2).operand p).insn fun _ => [.define p]).operand p).register =
            some s.registers.fresh.1 := by
        rw [modifyUnit_operand, operand_bindTo_self (known_withRegisters.mpr hk)]
      obtain rfl := rebinds_alike hrest (fun q hq => hall' q (by simp [hq])) hreg
      refine ⟨hq.trans (.single (.bind hk hn hunit hsyn fun _ q => ?_) rfl), hreg⟩
      exact hc.fresh_free q

/-! ## All positions -/

/-- What stands in a column stands in some row. -/
theorem mem_column {rows : List (List OperandId)} {j : Nat} (h : o ∈ column rows j) : ∃ row ∈ rows, row[j]? = some o := by
  simpa [column] using h

/-- Joins position by position, each position with its operand. -/
theorem joins_spec {rows : List (List OperandId)} {shared : List (Option RegisterId)} {ps : List (OperandId × Nat)}
    {rs : List RegisterId} (h : Yields (ps.mapM fun (o, j) => joinAt (column rows j) (shared[j]?.join) o) s rs s')
    (hc : s.Coherent m) (hrows : ∀ row ∈ rows, ∀ o ∈ row, s.Known o) (hps : ∀ p ∈ ps, s.Known p.1)
    (hshared : ∀ (j : Nat) (r : RegisterId), shared[j]? = some (some r) → s.Synthesized r) :
    Quiet m true s s' ∧ ∀ r ∈ rs, s'.Synthesized r := by
  induction ps generalizing s rs with
  | nil =>
    simp only [yields_mapM_nil] at h
    obtain ⟨rfl, rfl⟩ := h
    exact ⟨.refl _, by simp⟩
  | cons p ps ih =>
    obtain ⟨o, j⟩ := p
    rw [yields_mapM_cons] at h
    obtain ⟨r, t, rest, hj, hrest, rfl⟩ := h
    obtain ⟨hq, hsyn⟩ := joinAt_spec hj hc (by
      intro q hq
      rcases List.mem_append.mp hq with hq | hq
      · obtain ⟨row, hrow, hget⟩ := mem_column hq
        exact hrows row hrow q (List.mem_of_getElem? hget)
      · rw [List.mem_singleton.mp hq]
        exact hps (o, j) (by simp)) (fun q hq => hshared j q (Option.join_eq_some_iff.mp hq))
    have he := hq.changes.extends hc
    obtain ⟨hq', hsyn'⟩ := ih hrest (hq.changes.coherent hc) (fun row hrow q hqr => he.known (hrows row hrow q hqr))
      (fun q hqp => he.known (hps q (by simp [hqp]))) (fun j r hr => he.synthesized r (hshared j r hr))
    refine ⟨hq.trans hq', ?_⟩
    intro q hqr
    rcases List.mem_cons.mp hqr with rfl | hqr
    · exact (hq'.changes.extends (hq.changes.coherent hc)).synthesized q hsyn
    · exact hsyn' q hqr

/-- Where the same operands arrive, every operand ends up in the register that its position shares. -/
theorem joins_alike {rows : List (List OperandId)} {shared : List (Option RegisterId)} {first : List OperandId}
    {ps : List (OperandId × Nat)} {rs : List RegisterId}
    (h : Yields (ps.mapM fun (o, j) => joinAt (column rows j) (shared[j]?.join) o) s rs s') (hc : s.Coherent m)
    (hrows : ∀ row ∈ rows, row = first) (hknown : ∀ o ∈ first, s.Known o) (hps : ∀ p ∈ ps, first[p.2]? = some p.1)
    (hshared : ∀ (j : Nat) (r : RegisterId), shared[j]? = some (some r) → ∃ o, first[j]? = some o ∧ (s.operand o).register = some r) :
    Quiet m false s s' ∧
      ∀ (k : Nat) (r : RegisterId), rs[k]? = some r → ∃ p, ps[k]? = some p ∧ (s'.operand p.1).register = some r := by
  induction ps generalizing s rs with
  | nil =>
    simp only [yields_mapM_nil] at h
    obtain ⟨rfl, rfl⟩ := h
    exact ⟨.refl _, by simp⟩
  | cons p ps ih =>
    obtain ⟨o, j⟩ := p
    rw [yields_mapM_cons] at h
    obtain ⟨r, t, rest, hj, hrest, rfl⟩ := h
    have ho : first[j]? = some o := hps (o, j) (by simp)
    obtain ⟨hq, hreg⟩ := joinAt_alike hj hc (hknown o (List.mem_of_getElem? ho)) (by
      intro q hq
      obtain ⟨row, hrow, hget⟩ := mem_column hq
      rw [hrows row hrow, ho] at hget
      exact (Option.some.inj hget).symm) (by
      intro q hq
      obtain ⟨o', ho', hreg⟩ := hshared j q (Option.join_eq_some_iff.mp hq)
      rw [ho] at ho'
      obtain rfl := Option.some.inj ho'
      exact hreg)
    have he := hq.changes.extends hc
    obtain ⟨hq', hall⟩ := ih hrest (hq.changes.coherent hc) (fun q hqf => he.known (hknown q hqf))
      (fun q hqp => hps q (by simp [hqp])) (fun j r hr => by
        obtain ⟨o', ho', hreg⟩ := hshared j r hr
        exact ⟨o', ho', hq.changes.keeps_register hreg⟩)
    refine ⟨hq.trans hq', ?_⟩
    intro k q hk
    cases k with
    | zero =>
      simp only [List.getElem?_cons_zero, Option.some.injEq] at hk
      subst hk
      exact ⟨(o, j), rfl, hq'.changes.keeps_register hreg⟩
    | succ k => exact hall k q (by simpa using hk)

/-- Joining the operands of a later visit keeps the stack. Where the operands of the first visit arrive, nothing is shared. -/
theorem joinInputs_spec {shares : Bool} {row : List OperandId} (h : Yields (joinInputs i row) s u s') (hc : s.Coherent m)
    (hk : ∀ o ∈ row, s.Known o)
    (alike : shares = false → s.Exclusive ∧ ∀ first, (s.frame i).rows.head? = some first → row = first) :
    Quiet m shares s s' := by
  simp only [joinInputs, yields_ite, yields_pure, yields_bind, yields_get] at h
  rcases h with ⟨-, -, rfl⟩ | ⟨-, _, _, ⟨rfl, rfl⟩, h⟩
  · exact .refl _
  · rcases h with ⟨hhead, rs, t, hjoins, hmod⟩ | ⟨-, _, _, hfail, -⟩
    · rw [yields_modifyFrame] at hmod
      subst hmod
      obtain ⟨first, hfirst, -⟩ := Option.map_eq_some_iff.mp hhead
      cases shares with
      | true =>
        obtain ⟨hq, hsyn⟩ := joins_spec hjoins hc (hc.rows i) (fun p hp => hk _ (List.fst_mem_of_mem_zipIdx hp)) (hc.shared i)
        have he := hq.changes.extends hc
        exact hq.trans (.single (.record (he.head_rows hfirst) (fun o ho => he.known (hk o ho)) hsyn (by simp)) rfl)
      | false =>
        obtain ⟨hex, halike⟩ := alike rfl
        obtain rfl := halike first hfirst
        have hpos : ∀ p ∈ row.zipIdx, row[p.2]? = some p.1 := fun p hp => List.mem_zipIdx_iff_getElem?.mp hp
        obtain ⟨hq, hall⟩ := joins_alike hjoins hc (fun row' hrow => hex.alike i row' row hfirst hrow) hk hpos fun j r hr => by
          obtain ⟨first, o, hhead, ho, hreg⟩ := hex.shared i j r hr
          rw [hfirst, Option.some.injEq] at hhead
          exact ⟨o, hhead ▸ ho, hreg⟩
        have he := hq.changes.extends hc
        refine hq.trans (.single (.record (he.head_rows hfirst) (fun o ho => he.known (hk o ho)) ?_ fun _ => ⟨rfl, ?_⟩) rfl)
        · intro r hr
          obtain ⟨j, hj⟩ := List.getElem?_of_mem hr
          obtain ⟨p, -, hreg⟩ := hall j r hj
          exact (hq.changes.coherent hc).register p.1 r hreg
        · intro j r hr
          obtain ⟨p, hp, hreg⟩ := hall j r hr
          rw [List.getElem?_zipIdx, Option.map_eq_some_iff] at hp
          obtain ⟨o, ho, rfl⟩ := hp
          exact ⟨o, ho, hreg⟩
    · exact absurd hfail yields_fail

/-! ## Results and statements -/

/-- An instruction that pushes a value has its result afterwards. Where the operands of the first visit arrive, its first row is theirs. -/
theorem produce_spec {shares : Bool} {op : Operation} {xs : List OperandId} {e : Effect OperandId} {v : Rvalue OperandId}
    (h : Yields (produce i (op.row xs) v) s o s') (hc : s.Coherent m) (here : m.code[i]? = some op)
    (effect : op.effect xs = some e) (pushes : op.pushes.isSome) (value : e.rvalue? s.registers.slot? = some v)
    (known : ∀ o ∈ xs, s.Known o) (immediate : (s.frame i).out = none → ∀ o ∈ xs, (s.content o).isImmediate)
    (alike : shares = false → s.Exclusive ∧ ∀ first, (s.frame i).rows.head? = some first → op.row xs = first) :
    Quiet m shares s s' ∧ (s'.frame i).out = some o ∧ (shares = false → (s'.frame i).rows.head? = some (op.row xs)) := by
  simp only [produce, yields_bind, yields_get] at h
  obtain ⟨s, s, ⟨rfl, rfl⟩, h⟩ := h
  have hi := (List.getElem?_eq_some_iff.mp here).1
  split at h
  · rename_i p hout
    simp only [yields_bind, yields_pure] at h
    obtain ⟨_, t, hj, rfl, rfl⟩ := h
    have hq : Quiet m shares _ s' := joinInputs_spec hj hc (fun q hq => known q (Operation.mem_row.mp hq)) alike
    have he := hq.changes.extends hc
    refine ⟨hq, he.out i o hout, fun hs => ?_⟩
    cases hc.stage i hi with
    | result built =>
      exact he.head_rows ((alike hs).2 _ built.row ▸ built.row)
    | untouched out' | statement _ _ out' | shared _ _ out' => simp [hout] at out'
    | caught here' =>
      obtain rfl := Option.some.inj (here.symm.trans here')
      cases effect
  · rename_i hout
    have hunit := (hc.stage i hi).of_no_result here effect pushes hout
    simp only [setInputs, yields_bind, yields_newOperand, yields_modifyFrame, yields_pure] at h
    obtain ⟨p, t, ⟨rfl, rfl⟩, _, _, rfl, _, _, rfl, rfl, rfl⟩ := h
    rw [modifyFrame_modifyFrame]
    have hframe := frame_modifyFrame_self
      (g := fun _ => { out := some s.nextOperand, rows := [op.row xs], shared := (op.row xs).map fun _ => none })
      (by rwa [withOperand_frames, hc.frames_size] : i < (s.withOperand ⟨i, v, none⟩).frames.size)
    refine ⟨.single (.result here effect pushes value hout hunit known (immediate hout)) rfl, ?_, fun _ => ?_⟩
    · rw [hframe]
    · rw [hframe]
      rfl

/-- An instruction that pushes nothing has its statement afterwards. Where the operands of the first visit arrive, its first row is
theirs. -/
theorem emit_spec {shares : Bool} {op : Operation} {xs : List OperandId} {e : Effect OperandId} {d : Draft}
    (h : Yields (emit i (op.row xs) d) s u s') (hc : s.Coherent m) (here : m.code[i]? = some op) (effect : op.effect xs = some e)
    (pushes : op.pushes = none) (draft : e.draft? s.registers.slot? = some d) (known : ∀ o ∈ xs, s.Known o)
    (settled : s.unit i = [] → ∀ o ∈ d.demanded, (s.content o).isImmediate)
    (alike : shares = false → s.Exclusive ∧ ∀ first, (s.frame i).rows.head? = some first → op.row xs = first) :
    Quiet m shares s s' ∧ s'.unit i ≠ [] ∧ (shares = false → (s'.frame i).rows.head? = some (op.row xs)) := by
  have hi := (List.getElem?_eq_some_iff.mp here).1
  simp only [emit, setInputs, yields_bind, yields_get, yields_ite, yields_modifyFrame, yields_setUnit] at h
  obtain ⟨s, s, ⟨rfl, rfl⟩, ⟨hunit, _, _, rfl, -, rfl⟩ | ⟨hunit, hj⟩⟩ := h
  · have hframe := frame_modifyFrame_self
      (g := fun f => { f with rows := [op.row xs], shared := (op.row xs).map fun _ => none })
      (by rwa [hc.frames_size] : i < s.frames.size)
    refine ⟨.single (.statement here effect pushes draft hunit known (settled hunit)) rfl, ?_, fun _ => ?_⟩
    · rw [unit_modifyUnit_self (by rwa [modifyFrame_units, hc.units_size])]
      simp
    · rw [modifyUnit_frame, hframe]
      rfl
  · have hq : Quiet m shares s s' := joinInputs_spec hj hc (fun q hq => known q (Operation.mem_row.mp hq)) alike
    have he := hq.changes.extends hc
    refine ⟨hq, he.unit i hunit, fun hs => ?_⟩
    cases hc.stage i hi with
    | result built pushes' =>
      obtain rfl := Option.some.inj (here.symm.trans built.here)
      simp [pushes] at pushes'
    | statement built => exact he.head_rows ((alike hs).2 _ built.row ▸ built.row)
    | untouched _ _ hunit' => exact absurd hunit' hunit
    | caught here' | shared here' =>
      obtain rfl := Option.some.inj (here.symm.trans here')
      cases effect

end Lowering
end ThreeAddress
