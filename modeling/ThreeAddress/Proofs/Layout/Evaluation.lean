import ThreeAddress.Proofs.Layout.Bodies
import ThreeAddress.Proofs.Lowering.Frames
import ThreeAddress.Proofs.Traversal.Reached

/-!
# Where values are evaluated

A value stays on the stack unevaluated until something asks for a register, or a store puts it into a local slot. It is then evaluated where it
was produced, or at the store. Calls and writes freeze the stack, so that no value that has to be computed waits across one of them: it is
evaluated in front of every call and write that stands straight behind its operation. Monitor operations do not freeze the stack.
-/

namespace ThreeAddress

open State Layout

/-! ## What may not be passed -/

/-- Calls a method, or writes to a field or an array element. -/
def Operation.changesHeap : Operation → Bool
  | .invoke _ _ | .invokeDynamic _ | .putStatic _ | .putField _ | .arrayStore _ => true
  | _ => false

/-- A call or a write stands behind an operation, with no branch, jump or switch between them. -/
structure Method.Behind (m : Method) (i k : Nat) : Prop where
  lt : i < k
  changes : ∃ op, m.code[k]? = some op ∧ op.changesHeap
  straight : ∀ j op, i < j → j < k → m.code[j]? = some op → op.labels = []

variable {m : Method} {shares : Bool} {s s' : State} {i j k : Nat} {op : Operation} {before after : Stack} {o : OperandId}

/-- Calls and writes are plain. -/
theorem Operation.isPlain_of_changesHeap (h : op.changesHeap) : op.isPlain := by
  cases op with
  | invoke | invokeDynamic | putStatic | putField | arrayStore => rfl
  | _ => cases h

/-- What an operation leaves on the stack that spares calls and writes is evaluated or needs no evaluation. -/
theorem Operation.frozen_of_spares {xs : List OperandId} {e : Effect OperandId} (h : op.changesHeap) (effect : op.effect xs = some e)
    (spares : e.Spares s o) : (s.operand o).register.isSome ∨ (s.operand o).value.isImmediate := by
  have frozen : Lowering.Frozen (fun s o => !(s.operand o).value.isImmediate) s o := by
    cases op with
    | invoke kind method =>
      rcases xs with - | ⟨x, xs⟩ <;> cases kind <;> cases effect
      all_goals exact spares
    | invokeDynamic site =>
      cases effect
      exact spares
    | putStatic | putField | arrayStore =>
      rcases xs with - | ⟨x, - | ⟨y, - | ⟨z, - | ⟨w, xs⟩⟩⟩⟩ <;> cases effect
      exact spares
    | _ => cases h
  simpa [Lowering.Frozen] using frozen

/-- A visit of a call or a write leaves nothing on the stack that still has to be computed. -/
theorem Visit.frozen (h : Visit m shares i before after s op) (hop : op.changesHeap) (ho : .operand o ∈ after) :
    (s.operand o).register.isSome ∨ (s.operand o).value.isImmediate := by
  cases h with
  | plain plain performed => exact Operation.frozen_of_spares hop performed.effect (performed.spares o ho)
  | shuffle | line | label | caught => cases Operation.isPlain_of_changesHeap hop

/-! ## What waits -/

namespace State

/-- An operand that still has to be computed has not come past a call or a write behind its operation. -/
def Early (m : Method) (s : State) (o : OperandId) (j : Nat) : Prop :=
  (s.operand o).register = none → (s.operand o).value.isImmediate = false →
    ∀ k, m.Behind (s.operand o).insn k → (s.operand o).insn < j ∧ j ≤ k

theorem Early.mono (h : s.Early m o j) (he : s.Extends s') (hk : s.Known o) : s'.Early m o j := by
  intro hr hv
  rw [he.insn o hk]
  refine h ?_ (by rwa [← he.value o hk])
  by_contra hne
  have hb := he.bound o (Option.isSome_iff_ne_none.mpr hne)
  simp [hr] at hb

/-- An operand that was not past an operation, and is still there behind it, is not past the next one. -/
theorem Early.next (h : s.Early m o i) (visit : Visit m shares i before after s op) (ho : .operand o ∈ after)
    (here : m.code[i]? = some op) (leads : m.Leads i op j) : s.Early m o j := by
  intro hr hv k hk
  obtain ⟨hlt, hle⟩ := h hr hv k hk
  rcases Nat.eq_or_lt_of_le hle with rfl | hlt'
  · -- A call or a write would have frozen it.
    obtain ⟨op', here', hop⟩ := hk.changes
    obtain rfl := Option.some.inj (here.symm.trans here')
    rcases visit.frozen hop ho with hb | hi
    · simp [hr] at hb
    · simp [hv] at hi
  · have hnone := hk.straight i op hlt hlt' here
    rcases Method.leads_iff.mp leads with ⟨-, rfl⟩ | ⟨l, hl, -⟩
    · omega
    · simp [hnone] at hl

/-- The result of an operation is not past anything behind it. -/
theorem Early.of_result (hc : s.Coherent m) (hout : (s.frame i).out = some o) (leads : m.Leads i op j) (goes : op.labels = []) :
    s.Early m o j := by
  intro _ _ k hk
  rw [(hc.out i o hout).2] at hk ⊢
  have hlt := hk.lt
  rcases Method.leads_iff.mp leads with ⟨-, rfl⟩ | ⟨l, hl, -⟩
  · omega
  · simp [goes] at hl

/-- Control goes straight on from an operation that has a result. -/
theorem Stage.labels_of_out (h : s.Stage m i) (here : m.code[i]? = some op) (hout : (s.frame i).out = some o) :
    op.labels = [] := by
  cases h with
  | untouched out | statement _ _ out | shared _ _ out => simp [hout] at out
  | result built pushes =>
    obtain rfl := Option.some.inj (here.symm.trans built.here)
    obtain ⟨w, hw⟩ := Option.isSome_iff_exists.mp pushes
    exact Operation.labels_of_pushes hw
  | caught here' =>
    obtain rfl := Option.some.inj (here.symm.trans here')
    rfl

end State

/-- The operands of a row were on the stack. -/
theorem Lowering.TakenFrom.mem_stack {row : List OperandId} (h : TakenFrom i op s row) (hc : s.Coherent m) (hk : s.StackKnown s.stack)
    (ho : o ∈ row) : .operand o ∈ s.stack := by
  obtain ⟨first, os, t, htake, rfl⟩ := h
  obtain ⟨rest, hpop, -⟩ := takeAll_spec true htake hc hk
  exact (mem_of_popOperands hpop).1 o (by simpa using ho)

/-- No operation finds or remembers an operand that still has to be computed and has come past a call or a write. -/
def Guide.early (m : Method) : Guide m true where
  sound s := ∀ j, ∀ row ∈ (s.frame j).rows, ∀ o ∈ row, s.Early m o j
  admits s j stack := ∀ o, .operand o ∈ stack → s.Early m o j
  withStack _ h := h
  mono h he _ _ hk o ho := (h o ho).mono he (hk o ho)
  alike _ _ _ _ h := by cases h
  visit := by
    intro s s' i op hc hk hrows hstack here hop hch hk' hvisit
    have he := hch.extends hc
    have hc' := hch.coherent hc
    refine ⟨fun j row hrow o ho => ?_, fun j leads o ho => ?_⟩
    · have old : row ∈ (s.frame j).rows → s'.Early m o j := fun hold =>
        (hrows j row hold o ho).mono he (hc.rows j row hold o ho)
      by_cases hji : j = i
      · subst hji
        rcases Lowering.rows_of_lowerOperation hop hrow with hold | htaken
        · exact old hold
        · have hmem := htaken.mem_stack hc hk ho
          exact (hstack o hmem).mono he (hk o hmem)
      · rw [Lowering.local_lowerOperation m op s _ s' hop j hji] at hrow
        exact old hrow
    · rcases hvisit.mem_after ho with hbefore | hout
      · exact ((hstack o hbefore).mono he (hk o hbefore)).next hvisit ho here leads
      · have hstage := hc'.stage i (List.getElem?_eq_some_iff.mp here).1
        exact .of_result hc' hout leads (hstage.labels_of_out here hout)

theorem Guide.early_begins (m : Method) : (Guide.early m).Begins where
  sound s hs j row hrow := by
    rw [hs.frame] at hrow
    cases hrow
  admits s i stack hs hroot o ho := by
    -- Control begins with caught exceptions at most, and these have registers.
    intro hr
    have hk := Traversal.known_of_root hs hroot o ho
    obtain ⟨-, ⟨r, hr', -⟩, -⟩ := hs.made o hk
    simp [hr] at hr'


/-! ## Evaluating statements -/

/-- The operand that a statement evaluates: the one that it puts into its register, or one without a register that it stores. -/
def Draft.evaluated? (s : State) : Draft → Option OperandId
  | .define o => some o
  | .copy _ o => if (s.operand o).register.isNone then some o else none
  | _ => none

/-- The statement at a position evaluates the value of an operation. -/
def Layout.Plan.Evaluates (p : Plan) (q i : Nat) : Prop :=
  ∃ j k d o, (p.state.unit j)[k]? = some d ∧ d.evaluated? p.state = some o ∧ (p.state.operand o).insn = i ∧ q = p.unitStart j + k

/-- The place in the heap that an operation reads. -/
def Operation.read? : Operation → Option (Ref Unit)
  | .getStatic field => some (.staticField field)
  | .getField field => some (.instanceField () field)
  | .arrayLoad _ => some (.array () ())
  | _ => none

/-- The value of an operation has to be computed. -/
def Operation.computes : Operation → Bool
  | .const _ | .load _ _ => false
  | _ => true

/-- A value that is read from the heap was left behind by a read of the same place. -/
theorem Operation.read?_of_rvalue? {α : Type} {xs : List α} {e : Effect α} {slot : Nat → Option RegisterId} {place : Ref α}
    (he : op.effect xs = some e) (hv : e.rvalue? slot = some (.ref place)) : op.read? = some (place.map fun _ => ()) := by
  cases e with
  | read place' =>
    obtain rfl : place' = place := by simpa [Effect.rvalue?] using hv
    revert he
    fun_cases effect op xs <;> intro he <;>
      first
      | (cases he <;> rfl)
      | (obtain ⟨c, -, heq⟩ := Option.map_eq_some_iff.mp he; cases heq)
  | load k =>
    obtain ⟨r, -, heq⟩ := Option.map_eq_some_iff.mp hv
    cases heq
  | _ => cases hv

/-- What an operation leaves behind that computes needs to be computed. -/
theorem Operation.isImmediate_of_rvalue? {α : Type} {xs : List α} {e : Effect α} {slot : Nat → Option RegisterId} {v : Rvalue α}
    (h : op.computes) (he : op.effect xs = some e) (hv : e.rvalue? slot = some v) : v.isImmediate = false := by
  cases e with
  | operator | read | call =>
    cases hv
    rfl
  | constant | load =>
    revert h he
    fun_cases effect op xs <;> intro h he <;>
      first
      | (cases he <;> cases h)
      | (obtain ⟨c, -, heq⟩ := Option.map_eq_some_iff.mp he; cases heq)
  | _ => cases hv

/-- Only a store puts its operand into a local slot. -/
theorem Operation.eq_store_of_effect {α : Type} {xs : List α} {slot : Nat} {v : α} (he : op.effect xs = some (.store slot v)) :
    ∃ kind, op = .store kind slot := by
  revert he
  fun_cases effect op xs <;> intro he <;>
    first
    | (cases he <;> exact ⟨_, rfl⟩)
    | (obtain ⟨c, -, heq⟩ := Option.map_eq_some_iff.mp he; cases heq)

namespace State

/-- The value of an operand is what the operation that produced it leaves behind. -/
def Produced (m : Method) (s : State) (o : OperandId) : Prop :=
  ∃ op xs e, s.Built m (s.operand o).insn op xs e ∧ e.rvalue? s.registers.slot? = some (s.operand o).value

/-- A value that is read from the heap was produced by a read of the same place. -/
theorem Produced.read? {place : Ref OperandId} (h : s.Produced m o) (hv : (s.operand o).value = .ref place) :
    ∃ op, m.code[(s.operand o).insn]? = some op ∧ op.read? = some (place.map fun _ => ()) := by
  obtain ⟨op, xs, e, built, value⟩ := h
  exact ⟨op, built.here, Operation.read?_of_rvalue? built.effect (value.trans (congrArg some hv))⟩

/-- The value of an operand that was produced by an operation that computes has to be computed. -/
theorem Produced.isImmediate (h : s.Produced m o) (here : m.code[(s.operand o).insn]? = some op) (hop : op.computes) :
    (s.operand o).value.isImmediate = false := by
  obtain ⟨op', xs, e, built, value⟩ := h
  obtain rfl := Option.some.inj (here.symm.trans built.here)
  exact Operation.isImmediate_of_rvalue? hop built.effect value

/-- An operand without a register is the result of its operation. -/
theorem Coherent.produced_of_unbound (hc : s.Coherent m) (hk : s.Known o) (hr : (s.operand o).register = none) : s.Produced m o := by
  rcases hc.owned o hk with hout | ⟨e, he, rfl⟩
  · cases hc.stage _ (hc.owner hk) with
    | untouched out | statement _ _ out | shared _ _ out => simp [hout] at out
    | result built _ out value =>
      obtain rfl := Option.some.inj (hout.symm.trans out)
      exact ⟨_, _, _, built, value⟩
    | caught _ _ _ out _ _ bound =>
      obtain rfl := Option.some.inj (hout.symm.trans out)
      simp [hr] at bound
  · have hb := (hc.entry _ e he).2.2.2.1
    simp [hr] at hb

/-- A store at an instruction finds the operand without a register. -/
structure StoresUnbound (m : Method) (s : State) (j : Nat) (o : OperandId) : Prop where
  unbound : (s.operand o).register = none
  row : ∃ row ∈ (s.frame j).rows, o ∈ row
  here : ∃ kind slot, m.code[j]? = some (.store kind slot)

/-- A statement that evaluates an operand stands where that was produced, or at a store that finds it without a register. -/
theorem Coherent.evaluated (hc : s.Coherent m) (hj : j < m.code.length) {d : Draft} (hd : d ∈ s.unit j)
    (he : d.evaluated? s = some o) : s.Produced m o ∧ ((s.frame j).out = some o ∨ s.StoresUnbound m j o) := by
  obtain ⟨k, hw⟩ := hc.exists_drafted hj hd
  cases hw with
  | @result op xs e p built out value bound =>
    obtain rfl : p = o := by simpa [Draft.evaluated?] using he
    have hinsn := (hc.out j p out).2
    exact ⟨⟨op, xs, e, hinsn.symm ▸ built, value⟩, Or.inl out⟩
  | @statement op xs e d built draft =>
    cases e with
    | store k v =>
      simp only [Effect.draft?, Option.map_eq_some_iff] at draft
      obtain ⟨r, -, rfl⟩ := draft
      obtain ⟨kind, rfl⟩ := Operation.eq_store_of_effect built.effect
      simp only [Draft.evaluated?, Option.isNone_iff_eq_none, Option.ite_none_right_eq_some, Option.some.injEq] at he
      obtain ⟨hr, rfl⟩ := he
      have hrow := List.mem_of_head? built.row
      have hv : v ∈ Operation.row (.store kind k) xs :=
        Operation.mem_row.mpr (Operation.mem_of_mem_operands built.effect (List.mem_singleton_self v))
      exact ⟨hc.produced_of_unbound (hc.rows j _ hrow v hv) hr, Or.inr ⟨hr, ⟨_, hrow, hv⟩, kind, k, built.here⟩⟩
    | increment k amount =>
      simp only [Effect.draft?, Option.map_eq_some_iff] at draft
      obtain ⟨r, -, rfl⟩ := draft
      cases he
    | constant | load | operator | read => cases draft
    | _ =>
      cases draft
      cases he
  | caught | nop => cases he
  | copy _ bound =>
    -- A copy of what has a register evaluates nothing.
    simp only [Draft.evaluated?, Option.isNone_iff_eq_none, Option.ite_none_right_eq_some] at he
    simp [he.1] at bound

end State

/-! ## Positions of evaluations -/

namespace Layout.Plan

variable {p : Plan} {b : Body} {keepLines : Bool} {q : Nat}

/-- What stands in the unit of an operation is in front of the unit of a later one. -/
theorem lt_of_run {l : Nat} {d : Draft} (hd : (p.state.unit j)[l]? = some d) (hjk : j < k) (hq : q ∈ p.run k) : p.unitStart j + l < q := by
  have hlt := (List.getElem?_eq_some_iff.mp hd).1
  have hstart := p.unitStart_mono (Nat.succ_le_of_lt hjk)
  rw [unitStart_succ] at hstart
  have hle := (mem_run.mp hq).1
  omega

/-- A value that is finished as a read of a place was one before. -/
theorem exists_ref_of_value {v : Rvalue OperandId} {place : Ref Immediate} (h : p.value i v = .ok (.ref place)) :
    ∃ place', v = .ref place' ∧ place'.map (fun _ => ()) = place.map fun _ => () := by
  cases v with
  | immediate => simp only [value, Rvalue.mapM, pure_eq_ok, reduceCtorEq] at h
  | expr =>
    simp only [value, Rvalue.mapM, bind_eq_ok, pure_eq_ok] at h
    obtain ⟨_, -, heq⟩ := h
    cases heq
  | ref place' =>
    simp only [value, Rvalue.mapM, bind_eq_ok, pure_eq_ok] at h
    obtain ⟨finished, hplace, heq⟩ := h
    cases heq
    exact ⟨place', rfl, (Ref.map_eq_of_mapM (fun _ _ _ => rfl) hplace).symm⟩

/-- A draft that is finished as a read of the heap evaluates a value that is read from the same place. -/
theorem evaluated?_of_finish (hs : p.state.Settled) {d : Draft} (hd : d ∈ p.state.unit j) {lhs : Value} {place : Ref Immediate}
    (h : p.finish i d = .ok (.assign lhs (.ref place))) :
    ∃ o place', d.evaluated? p.state = some o ∧ (p.state.operand o).value = .ref place' ∧
      place'.map (fun _ => ()) = place.map fun _ => () := by
  cases d with
  | nop | increment | returnVoid => cases h
  | caught | «return» | throw | enterMonitor | exitMonitor | goto | invoke =>
    simp only [finish, bind_eq_ok, pure_eq_ok] at h
    obtain ⟨_, -, heq⟩ := h
    cases heq
  | branch | «switch» =>
    simp only [finish, bind_eq_ok, pure_eq_ok] at h
    obtain ⟨_, -, _, -, _, -, heq⟩ := h
    cases heq
  | define o =>
    simp only [finish, bind_eq_ok, pure_eq_ok] at h
    obtain ⟨r, -, v, hv, heq⟩ := h
    cases heq
    obtain ⟨place', hvalue, hplace⟩ := exists_ref_of_value hv
    exact ⟨o, place', rfl, hvalue, hplace⟩
  | copy r o =>
    simp only [finish, bind_eq_ok, pure_eq_ok] at h
    obtain ⟨v, hv, heq⟩ := h
    cases heq
    obtain ⟨place', hcontent, hplace⟩ := exists_ref_of_value hv
    -- A register is not read from the heap.
    have hr : (p.state.operand o).register = none := by
      by_contra hne
      obtain ⟨r', hr'⟩ := Option.ne_none_iff_exists'.mp hne
      rw [content_of_register hr'] at hcontent
      cases hcontent
    rw [content_of_unbound hr] at hcontent
    exact ⟨o, place', by simp [Draft.evaluated?, hr], hcontent, hplace⟩
  | write target o =>
    simp only [finish, bind_eq_ok, pure_eq_ok] at h
    obtain ⟨target', -, v, hv, heq⟩ := h
    cases heq
    obtain ⟨place', hcontent, -⟩ := exists_ref_of_value hv
    have himmediate := (hs j _ hd o (by simp [Draft.demanded])).2
    rw [hcontent] at himmediate
    cases himmediate

/-- A statement that reads the heap evaluates a read of the same place. -/
theorem Lays.evaluates_of_read (h : p.Lays keepLines b) (hc : p.state.Coherent p.method) (hs : p.state.Settled) {located : Located}
    (hq : b.stmts[q]? = some located) (hid : p.identities ≤ q) {lhs : Value} {place : Ref Immediate}
    (hread : located.stmt = .assign lhs (.ref place)) :
    ∃ i op, p.Evaluates q i ∧ p.method.code[i]? = some op ∧ op.read? = some (place.map fun _ => ()) := by
  have horigin := hread ▸ h.origin hq
  cases horigin with
  | identity before => omega
  | @unit j k d here position finish =>
    have hj : j < p.method.code.length := h.units ▸ lt_of_unit_ne_nil (List.ne_nil_of_mem (List.mem_of_getElem? here))
    have hd := List.mem_of_getElem? here
    obtain ⟨o, place', he, hvalue, hplace⟩ := evaluated?_of_finish hs hd finish
    obtain ⟨op, hop, hplace'⟩ := (hc.evaluated hj hd he).1.read? hvalue
    exact ⟨_, op, ⟨j, k, d, o, here, he, rfl, position⟩, hop, hplace'.trans (congrArg some hplace)⟩
  | caught _ _ finish | goes _ _ finish =>
    simp only [Plan.finish, bind_eq_ok, pure_eq_ok] at finish
    obtain ⟨_, -, heq⟩ := finish
    cases heq
  | «end» _ _ nothing => cases nothing

/-- What is evaluated stands in front of every call and write that stands straight behind the operation that produced it. -/
theorem Evaluates.lt_of_behind (hc : p.state.Coherent p.method) (early : ∀ j, ∀ row ∈ (p.state.frame j).rows, ∀ o ∈ row, p.state.Early p.method o j)
    (h : p.Evaluates q i) (here : p.method.code[i]? = some op) (hop : op.computes) (hk : p.method.Behind i k) {q' : Nat}
    (hq' : q' ∈ p.run k) : q < q' := by
  obtain ⟨j, l, d, o, hd, he, rfl, rfl⟩ := h
  have hj : j < p.method.code.length := by
    rw [← hc.units_size]
    exact lt_of_unit_ne_nil (List.ne_nil_of_mem (List.mem_of_getElem? hd))
  obtain ⟨produced, hplace⟩ := hc.evaluated hj (List.mem_of_getElem? hd) he
  refine lt_of_run hd ?_ hq'
  rcases hplace with hout | ⟨hr, ⟨row, hrow, ho⟩, kind, slot, hstore⟩
  · -- It is evaluated where it was produced.
    rw [← (hc.out j o hout).2]
    exact hk.lt
  · -- It is evaluated by a store, which it reached without coming past a call or a write.
    obtain ⟨-, hle⟩ := early j row hrow o ho hr (produced.isImmediate here hop) k hk
    have hne : j ≠ k := by
      rintro rfl
      obtain ⟨op', here', hchanges⟩ := hk.changes
      obtain rfl := Option.some.inj (hstore.symm.trans here')
      cases hchanges
    omega

end Layout.Plan

/-- In the body of a method that is lowered every read of the heap evaluates a read of the code. It does so in front of every call and write
that stands straight behind that, and so does the evaluation of any value that has to be computed. -/
theorem Method.evaluations_precede_of_lower {keepLines : Bool} {b : Body} (h : m.lower keepLines = .ok b) :
    ∃ p, m.layout = .ok p ∧ p.Lays keepLines b ∧
      (∀ q located lhs place, b.stmts[q]? = some located → located.stmt = .assign lhs (.ref place) →
        ∃ i op, p.Evaluates q i ∧ m.code[i]? = some op ∧ op.read? = some (place.map fun _ => ())) ∧
      ∀ q i k op, p.Evaluates q i → m.code[i]? = some op → op.computes → m.Behind i k → ∀ q' ∈ p.run k, q < q' := by
  obtain ⟨p, t, hp, rfl, ht, hstate, hlays⟩ := lays_of_lower h
  obtain ⟨hx, -⟩ := Traversal.complete_spec ht (Guide.early_begins p.method)
  have hc : p.state.Coherent p.method := hstate ▸ hx.coherent
  refine ⟨p, hp, hlays, fun q located lhs place hq hread => ?_, fun q i k op he here hop hk q' hq' => ?_⟩
  · have hid : p.identities ≤ q := by
      by_contra hlt
      obtain ⟨incoming, -, r, heq⟩ := identity_of_lower h hp hq (Nat.lt_of_not_le hlt)
      simp [heq] at hread
    exact hlays.evaluates_of_read hc (hstate ▸ hx.settled) hq hid hread
  · exact he.lt_of_behind hc (hstate ▸ hx.sound) here hop hk hq'

/-- A method that reads a field inside a monitor and keeps the value on the stack while it leaves that. -/
def Method.readingGuarded : Method :=
  { className := "Sample", name := "run", signature := { params := [], ret := .void }, isStatic := false, maxLocals := 2, maxStack := 2,
    code := [.load .object 0, .monitorEnter, .getStatic ⟨"Sample", "f", .int⟩, .load .object 0, .monitorExit, .store .int 1, .return .void]
    exceptions := [], localNames := [] }

example : ((Method.readingGuarded.lower false).toOption.map fun b =>
    (b.stmts.findIdx? (·.stmt matches .exitMonitor _), b.stmts.findIdx? (·.stmt matches .assign _ (.ref (.staticField _))))) =
    some (some 4, some 5) := by decide +kernel

end ThreeAddress
