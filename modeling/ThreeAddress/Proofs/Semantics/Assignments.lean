import ThreeAddress.Proofs.Layout.Closed
import ThreeAddress.Proofs.Semantics.Preservation

/-!
# Registers are assigned before they are read

`Body.Passes` follows the paths along the edges of a body and keeps the registers that are assigned on the way. In the body of a uniform
method, a register that belongs to no local slot is read only where every path there has assigned it. Wherever a path comes to an operation,
each operand on the simulated stack is `Supplied`: the registers that it reads were assigned, so that the statement of the operation can use
it now or a later one once the operand was moved there.
-/

namespace ThreeAddress

open State Layout

variable {m : Method} {b : Body} {p : Plan} {slot : Nat → Option RegisterId} {keepLines : Bool} {i j q t : Nat} {op : Operation} {d : Draft}
  {located : Located} {o : OperandId} {r : RegisterId} {rs rs' : List RegisterId} {ws : List Bool} {stack stack' : Stack}

/-! ## Paths -/

/-- The register that a statement assigns. -/
def Stmt.assigned? : Stmt → Option RegisterId
  | .identity r _ | .assign (.immediate (.register r)) _ => some r
  | _ => none

/-- The registers and constants that a statement reads, in order. -/
def Stmt.read : Stmt → List Immediate
  | .identity _ source => source.operands
  | .assign (.immediate (.register _)) rhs => rhs.immediates
  | stmt => stmt.immediates

/-- Some path along the edges leads from the first statement to a statement, and assigns certain registers on the way. -/
inductive Body.Passes (b : Body) : List RegisterId → Nat → Prop where
  | start : b.Passes [] 0
  | step {rs : List RegisterId} {q t : Nat} {located : Located} (passes : b.Passes rs q) (here : b.stmts[q]? = some located)
      (edge : t ∈ b.successors q) : b.Passes (located.stmt.assigned?.toList ++ rs) t

/-- A statement names what it reads and what it assigns. -/
theorem Stmt.mem_immediates_of_mem_read {stmt : Stmt} {x : Immediate} (h : x ∈ stmt.read) : x ∈ stmt.immediates := by
  unfold read at h
  split at h
  · exact List.mem_cons_of_mem _ h
  · exact List.mem_append_right _ h
  · exact h

/-! ## Operands whose registers were assigned -/

/-- Every register that an operand reads was assigned or belongs to a local slot. -/
def State.Supplied (s : State) (rs : List RegisterId) (o : OperandId) : Prop :=
  ∀ r, s.Reads r o → r ∈ rs ∨ ∃ k, s.registers.slot? k = some r

theorem State.Supplied.mono {s : State} (h : s.Supplied rs o) (hrs : rs ⊆ rs') : s.Supplied rs' o :=
  fun r hr => (h r hr).imp_left fun hmem => hrs hmem

/-- An operand with a register reads that register alone. -/
theorem State.reads_of_register {s : State} {r' : RegisterId} (hr : (s.operand o).register = some r') (h : s.Reads r o) : r = r' := by
  cases h with
  | register content =>
    rw [content_of_register hr] at content
    cases content
    rfl
  | inside operand =>
    rw [content_of_register hr] at operand
    cases operand

/-- An operand whose register was assigned is supplied. -/
theorem State.Supplied.of_register {s : State} (hr : (s.operand o).register = some r) (h : r ∈ rs) : s.Supplied rs o := by
  intro r' hreads
  obtain rfl := reads_of_register hr hreads
  exact Or.inl h

/-- An operand without a register is supplied if the operands of its value are. -/
theorem State.Supplied.of_value {s : State} (hc : s.Coherent m) (hk : s.Known o) (hr : (s.operand o).register = none)
    (h : ∀ q ∈ (s.operand o).value.operands, s.Supplied rs q) : s.Supplied rs o := by
  intro r hreads
  cases hreads with
  | register content =>
    rw [content_of_unbound hr] at content
    exact Or.inr (hc.slot_of_value hk content)
  | inside operand reads =>
    rw [content_of_unbound hr] at operand
    exact h _ operand r reads

/-- Every stack that comes to an operation of a uniform method holds the same operands. -/
theorem State.Comes.mem {s : State} {ws' : List Bool} (h : s.Comes m i stack ws) (hu : m.Uniform) (h' : s.Comes m i stack' ws')
    (ho : .operand o ∈ stack') : .operand o ∈ stack := by
  obtain ⟨cells, carries, -, results⟩ := h
  obtain ⟨cells', carries', -, results'⟩ := h'
  obtain rfl := hu.same i cells cells' carries carries'
  obtain ⟨c, hc, hout⟩ := results'.exists_of_mem ho
  obtain ⟨q, hq, hout'⟩ := results.exists_operand_of_mem hc
  rwa [Option.some.inj (hout.symm.trans hout')]

namespace Layout.Plan

/-- The statement of an operation whose result has a register assigns that register. -/
theorem assigned?_of_finish (hc : p.state.Coherent m) (hout : (p.state.frame i).out = some o) (hr : (p.state.operand o).register = some r)
    (hunit : p.state.unit i = [d]) {stmt : Stmt} (hf : p.finish i d = .ok stmt) : stmt.assigned? = some r := by
  have itself : ∀ {r'}, p.register i o = .ok r' → r' = r := fun hr' => by
    have := (content_of_finished_register hr').symm.trans (content_of_register hr)
    cases this
    rfl
  obtain ⟨hk, hinsn⟩ := hc.out i o hout
  cases hc.stage i (hinsn ▸ hc.owner hk) with
  | untouched out | statement _ _ out | shared _ _ out => simp [hout] at out
  | result _ _ out _ _ bound =>
    obtain rfl := Option.some.inj (hout.symm.trans out)
    obtain ⟨copied, hunit', -⟩ := bound (Option.isSome_of_eq_some hr)
    obtain ⟨rfl, -⟩ := List.cons.inj (hunit.symm.trans hunit')
    simp only [finish, bind_eq_ok, pure_eq_ok] at hf
    obtain ⟨r', hr', w, -, rfl⟩ := hf
    rw [itself hr']
    rfl
  | caught _ _ _ out _ _ _ unit =>
    obtain rfl := Option.some.inj (hout.symm.trans out)
    obtain ⟨copied, hunit', -⟩ := unit
    obtain ⟨rfl, -⟩ := List.cons.inj (hunit.symm.trans hunit')
    simp only [finish, bind_eq_ok, pure_eq_ok] at hf
    obtain ⟨r', hr', rfl⟩ := hf
    rw [itself hr']
    rfl

/-- Control comes to an operation with operands that are supplied. -/
def Supplies (p : Plan) (m : Method) (rs : List RegisterId) (i : Nat) : Prop :=
  ∃ stack ws, p.state.Comes m i stack ws ∧ ∀ o, .operand o ∈ stack → p.state.Supplied rs o

namespace Runs

/-- An operation that control comes to with operands that are supplied was visited with such operands. -/
theorem visit_of_supplies (h : p.Runs m b slot) (hs : p.Supplies m rs i) (here : m.code[i]? = some op) :
    ∃ before after ws, p.state.Comes m i before ws ∧ Visit m false i before after p.state op ∧
      ∀ o, .operand o ∈ before → p.state.Supplied rs o := by
  obtain ⟨stack, ws, comes, supplied⟩ := hs
  obtain ⟨before, after, comes', hv⟩ := h.visits i ws op comes.reaches here
  exact ⟨before, after, ws, comes', hv, fun o ho => supplied o (comes.mem h.uniform comes' ho)⟩

/-- What a visit leaves on the stack is supplied if what it found was, once the result is assigned if it has a register. -/
theorem supplied_after (h : p.Runs m b slot) {before after : Stack} (hv : Visit m false i before after p.state op)
    (here : m.code[i]? = some op) (supplied : ∀ o, .operand o ∈ before → p.state.Supplied rs o)
    (assigned : ∀ o r, (p.state.frame i).out = some o → (p.state.operand o).register = some r → r ∈ rs) :
    ∀ o, .operand o ∈ after → p.state.Supplied rs o := by
  intro o ho
  cases hv with
  | @plain _ xs rest e _ performed =>
    obtain ⟨hpopped, hrest⟩ := Lowering.mem_of_popOperands performed.pop
    cases hw : op.pushes with
    | none =>
      rw [(performed.leaves.statement hw).2] at ho
      exact supplied o (hrest _ ho)
    | some w =>
      obtain ⟨q, hafter, hk, hout, hvalue, hbound⟩ := performed.result h.coherent h.steady.exclusive here hw
      rw [hafter, mem_pushOperand] at ho
      rcases ho with rfl | ho
      · rcases hbound with ⟨hnone, -⟩ | ⟨r, hr, -⟩
        · refine .of_value h.coherent hk hnone fun x hx => supplied x (hpopped x ?_)
          rw [Effect.operands_of_rvalue? hvalue] at hx
          exact List.mem_reverse.mpr (Operation.mem_of_mem_operands performed.effect hx)
        · exact .of_register hr (assigned o r hout hr)
      · exact supplied o (hrest _ ho)
  | shuffle words => exact supplied o (mem_of_shuffleWords words ho)
  | line same | label _ same => exact supplied o (same ▸ ho)
  | caught handler =>
    rw [h.handlers] at handler
    cases handler

/-- Control goes on from an operation with operands that are supplied, once the result is assigned if it has a register. -/
theorem supplies_next (h : p.Runs m b slot) (hs : p.Supplies m rs i) (here : m.code[i]? = some op) (leads : m.Leads i op j)
    (hrs : rs ⊆ rs') (assigned : ∀ o r, (p.state.frame i).out = some o → (p.state.operand o).register = some r → r ∈ rs') :
    p.Supplies m rs' j := by
  obtain ⟨before, after, ws, comes, hv, supplied⟩ := h.visit_of_supplies hs here
  obtain ⟨ws', -, hnext⟩ := comes.next here hv h.handlers (h.uniform.widths i op ws here comes.reaches)
  exact ⟨after, ws', hnext j leads, h.supplied_after hv here (fun o ho => (supplied o ho).mono hrs) assigned⟩

/-- The statement of an operation reads what was assigned and what belongs to local slots. -/
theorem assigned_of_read (h : p.Runs m b slot) (hs : p.Supplies m rs i) (here : m.code[i]? = some op) (hunit : p.state.unit i = [d])
    {stmt : Stmt} (hf : p.finish i d = .ok stmt) (hr : .register r ∈ stmt.read) : r ∈ rs ∨ ∃ k, p.state.registers.slot? k = some r := by
  obtain ⟨before, after, ws, -, hv, supplied⟩ := h.visit_of_supplies hs here
  by_cases plain : op.isPlain
  · cases hv with
    | @plain _ xs rest e _ performed =>
      have popped : ∀ o ∈ e.operands, p.state.Supplied rs o := fun o ho =>
        supplied o ((Lowering.mem_of_popOperands performed.pop).1 o
          (List.mem_reverse.mpr (Operation.mem_of_mem_operands performed.effect ho)))
      cases hw : op.pushes with
      | none =>
        obtain ⟨d', hunit', hdraft⟩ := performed.draft h.coherent here hw
        obtain rfl : d = d' := by simpa [hunit] using hunit'
        obtain ⟨hoperands, hregisters⟩ := Effect.operands_of_draft? hdraft
        rcases named_of_finish hf (Stmt.mem_immediates_of_mem_read hr) with hitself | ⟨o, ho, hreads⟩ | ⟨o, rfl, -⟩
        · exact Or.inr (hregisters r hitself)
        · exact popped o (hoperands o ho) r hreads
        · exact absurd hdraft (Effect.draft?_ne_define o)
      | some w =>
        obtain ⟨o, -, hk, -, hvalue, hbound⟩ := performed.result h.coherent h.steady.exclusive here hw
        rcases hbound with ⟨-, hnone⟩ | ⟨r', -, hunit'⟩
        · simp [hunit] at hnone
        · obtain rfl : d = .define o := by simpa [hunit] using hunit'
          simp only [finish, bind_eq_ok, pure_eq_ok] at hf
          obtain ⟨r', -, v, hv, rfl⟩ := hf
          rcases exists_reads_of_value hv hr with hitself | ⟨q, hq, hreads⟩
          · exact Or.inr (h.coherent.slot_of_value hk hitself)
          · rw [Effect.operands_of_rvalue? hvalue] at hq
            exact popped q hq r hreads
    | shuffle | line | label | caught => cases plain
  · rw [h.unit_eq_nil here plain] at hunit
    cases hunit

/-- Where control comes to an operation, the next statement is that of an operation to which control comes too, with operands that are
supplied, or there is none of an operation. -/
theorem settles {i : Nat} (h : p.Runs m b slot) (hs : p.Supplies m rs i) :
    (∃ j op d, m.code[j]? = some op ∧ p.state.unit j = [d] ∧ p.unitStart j = p.unitStart i ∧ p.Supplies m rs j) ∨
      p.unitStart i = p.endPosition := by
  by_cases hi : i < m.code.length
  · have here := List.getElem?_eq_getElem hi
    match hu : p.state.unit i with
    | [d] => exact Or.inl ⟨i, _, d, here, hu, rfl, hs⟩
    | d :: d' :: ds =>
      have := h.steady.exclusive.uncopied i
      simp [hu] at this
    | [] =>
      -- An operation without a statement leaves its operands to the next one.
      obtain ⟨before, after, ws, -, hv, -⟩ := h.visit_of_supplies hs here
      have leads : m.Leads i m.code[i] (i + 1) := Method.leads_iff.mpr (Or.inl ⟨hv.goesOn hu, rfl⟩)
      have hs' := h.supplies_next hs here leads (List.Subset.refl rs) fun o r hout hr =>
        absurd hu (h.coherent.unit_ne_nil hout (Option.isSome_of_eq_some hr))
      have hstart : p.unitStart (i + 1) = p.unitStart i := by rw [unitStart_succ, hu, List.length_nil, Nat.add_zero]
      rw [← hstart]
      exact h.settles hs'
  · -- Behind all operations there is no statement any more.
    have htr : p.isTrailing i := isTrailing_iff.mpr fun j hij => by
      by_contra hne
      exact hi (Nat.lt_of_le_of_lt hij (h.coherent.units_size ▸ lt_of_unit_ne_nil hne))
    rw [← h.entry_eq, entry_of_isTrailing htr]
    exact Or.inr rfl
termination_by m.code.length - i

/-- No statement stands behind those of the operations but one that does nothing. -/
theorem nop_of_end (h : p.Runs m b slot) (hq : p.endPosition ≤ q) (here : b.stmts[q]? = some located) : located.stmt = .nop := by
  obtain ⟨keepLines, hl⟩ := h.lays
  cases hl.origin here with
  | identity before => exact absurd (Nat.lt_of_lt_of_le before (p.unitStart_le_endPosition 0)) (Nat.not_lt.mpr hq)
  | @unit j k d here position =>
    have hk := (List.getElem?_eq_some_iff.mp here).1
    have hend := p.unitStart_le_endPosition (j + 1)
    rw [unitStart_succ] at hend
    omega
  | caught here | goes here =>
    have := mem_sortedEntries.mp (List.mem_of_getElem? here)
    rw [h.steady.entries] at this
    cases this
  | «end» _ _ nothing => exact nothing

/-- The statement of an operation leads to where control comes to operations with operands that are supplied. -/
theorem supplies_behind (h : p.Runs m b slot) (hs : p.Supplies m rs i) (here : m.code[i]? = some op) (hunit : p.state.unit i = [d])
    {stmt : Stmt} (hf : p.finish i d = .ok stmt) (ht : t ∈ b.successors (p.unitStart i)) :
    ∃ j, t = p.unitStart j ∧ p.Supplies m (stmt.assigned?.toList ++ rs) j := by
  obtain ⟨keepLines, hlays⟩ := h.lays
  have hlast : (p.run i).getLast? = some (p.unitStart i) := getLast?_run.mpr ⟨by simp [hunit], by simp [hunit]⟩
  have flow := (h.coherent.stage i (List.getElem?_eq_some_iff.mp here).1).flow here
  obtain ⟨j, leads, rfl⟩ := hlays.leads_of_mem_successors (h.method ▸ h.distinct) flow (fun _ => h.entry_eq (i + 1)) hlast ht
  refine ⟨j, h.entry_eq j, h.supplies_next hs here (h.method ▸ leads) (List.subset_append_right _ _) fun o r hout hr => ?_⟩
  exact List.mem_append_left _ (Option.mem_toList.mpr (assigned?_of_finish h.coherent hout hr hunit hf))

end Runs

/-- The statements in front of all operations bind what the method receives. -/
def Receives (p : Plan) (b : Body) : Prop :=
  ∀ (q : Nat) (located : Located), q < p.identities → b.stmts[q]? = some located →
    ∃ r source, located.stmt = .identity r source ∧ source.operands = []

/-- Where a path is that assigned certain registers: in front of all operations, in front of one to which control comes with operands that are
supplied, or behind all statements of operations. -/
inductive Finds (p : Plan) (m : Method) (rs : List RegisterId) (q : Nat) : Prop where
  | received (before : q < p.identities)
  | operation {i : Nat} (position : q = p.unitStart i) (supplies : p.Supplies m rs i)
  | behind (behind : p.endPosition ≤ q)

/-- A path that is past what the method receives is in front of the first operation. -/
theorem Finds.of_le (h : q ≤ p.identities) : p.Finds m rs q := by
  rcases Nat.lt_or_eq_of_le h with h | rfl
  · exact .received h
  · exact .operation (i := 0) rfl ⟨[], [], ⟨[], .start, rfl, .nil⟩, fun o ho => by cases ho⟩

/-- What a path finds behind a statement. -/
theorem Finds.next (hf : p.Finds m rs q) (h : p.Runs m b slot) (hr : p.Receives b) (here : b.stmts[q]? = some located)
    (ht : t ∈ b.successors q) : p.Finds m (located.stmt.assigned?.toList ++ rs) t := by
  obtain ⟨keepLines, hlays⟩ := h.lays
  have passes : p.endPosition ≤ q → p.Finds m (located.stmt.assigned?.toList ++ rs) t := fun hend => by
    rw [hlays.mem_successors here, h.nop_of_end hend here] at ht
    rcases ht with ⟨-, -, rfl⟩ | ht
    · exact .behind (Nat.le_succ_of_le hend)
    · cases ht
  cases hf with
  | received before =>
    obtain ⟨r, source, hstmt, -⟩ := hr q located before here
    rw [hlays.mem_successors here, hstmt] at ht
    rcases ht with ⟨-, -, rfl⟩ | ht
    · exact .of_le before
    · cases ht
  | @operation i position supplies =>
    rcases h.settles supplies with ⟨j, op, d, here', hunit, hstart, supplies'⟩ | hend
    · obtain ⟨located', hl, hf⟩ := h.stmt hunit
      rw [hstart, ← position, here, Option.some.injEq] at hl
      subst hl
      obtain ⟨k, rfl, supplies''⟩ := h.supplies_behind supplies' here' hunit hf (by rwa [hstart, ← position])
      exact .operation rfl supplies''
    · exact passes (hend ▸ position ▸ Nat.le_refl _)
  | behind behind => exact passes behind

/-- A statement that a path finds reads what the path assigned and what belongs to local slots. -/
theorem Finds.assigned (hf : p.Finds m rs q) (h : p.Runs m b slot) (hr : p.Receives b) (here : b.stmts[q]? = some located)
    (hread : .register r ∈ located.stmt.read) : r ∈ rs ∨ ∃ k, p.state.registers.slot? k = some r := by
  have none : p.endPosition ≤ q → r ∈ rs ∨ ∃ k, p.state.registers.slot? k = some r := fun hend => by
    rw [h.nop_of_end hend here] at hread
    cases hread
  cases hf with
  | received before =>
    obtain ⟨r', source, hstmt, hsource⟩ := hr q located before here
    rw [hstmt, Stmt.read, hsource] at hread
    cases hread
  | @operation i position supplies =>
    rcases h.settles supplies with ⟨j, op, d, here', hunit, hstart, supplies'⟩ | hend
    · obtain ⟨located', hl, hf⟩ := h.stmt hunit
      rw [hstart, ← position, here, Option.some.injEq] at hl
      subst hl
      exact h.assigned_of_read supplies' here' hunit hf hread
    · exact none (hend ▸ position ▸ Nat.le_refl _)
  | behind behind => exact none behind

/-- Every path finds what belongs to what it assigned. -/
theorem Finds.of_passes (h : p.Runs m b slot) (hr : p.Receives b) (path : b.Passes rs q) : p.Finds m rs q := by
  induction path with
  | start => exact .of_le (Nat.zero_le _)
  | step _ here edge ih => exact ih.next h hr here edge

end Layout.Plan

/-- In the body of a uniform method, whatever path control takes along the edges, a register that a statement reads was assigned on the way
or belongs to a local slot. -/
theorem Method.assigned_of_uniform (h : m.lower keepLines = .ok b) (handlers : m.exceptions = []) (hd : m.LabelsDistinct) (hu : m.Uniform)
    (path : b.Passes rs q) (here : b.stmts[q]? = some located) (hread : .register r ∈ located.stmt.read) :
    r ∈ rs ∨ ∃ k, m.slotRegister? k = some r := by
  obtain ⟨p, identities, final, rest, hruns, hincoming, -, hfinal, hentry, hstmts⟩ := runs_of_lower h handlers hd hu
  have hslot : m.slotRegister? = final.slot? := by
    funext k
    rw [slotRegister?, hfinal]
  have hidentities : p.identities = identities.length := hentry ▸ (hruns.entry_eq 0).symm
  have hreceives : p.Receives b := by
    intro q located before here
    rw [hstmts, List.getElem?_append_left (hidentities ▸ before)] at here
    obtain ⟨i, hi, r, hstmt⟩ := exists_of_forall₂ (identities_of_declareIncoming hincoming) (List.mem_of_getElem? here)
    refine ⟨r, i.source, hstmt, ?_⟩
    rcases source_of_mem_incoming hi with ⟨_, hsource⟩ | ⟨_, _, hsource⟩ <;> rw [hsource] <;> rfl
  rcases (Plan.Finds.of_passes hruns hreceives path).assigned hruns hreceives here hread with hmem | ⟨k, hk⟩
  · exact Or.inl hmem
  · exact Or.inr ⟨k, hslot ▸ hruns.slots k r hk⟩

/-- The result of a call that waits on the stack while control comes together is in a register that every path to its store assigned. -/
theorem Method.assigned_waiting :
    ∃ b, waiting.lower false = .ok b ∧ ∀ (rs : List RegisterId) (q : Nat) (located : Located) (r : RegisterId), b.Passes rs q →
      b.stmts[q]? = some located → .register r ∈ located.stmt.read → r ∈ rs ∨ ∃ k, waiting.slotRegister? k = some r := by
  obtain ⟨b, hb⟩ : ∃ b, waiting.lower false = .ok b := exists_ok_of_isOk (by decide +kernel)
  exact ⟨b, hb, fun _ _ _ _ path here hread => assigned_of_uniform hb rfl (by decide) uniform_waiting path here hread⟩

end ThreeAddress
