import ThreeAddress.Proofs.Lowering.Frames
import ThreeAddress.Proofs.Semantics.Carrying
import ThreeAddress.Proofs.Traversal.Reached

/-!
# Uniform methods

Where every operation finds values of the same producers on the stack, whatever way control came to it, every visit of an operation finds the
operands of the first one: the result of each producer. Nothing is joined then, so that no registers are shared.
-/

namespace ThreeAddress

open State

variable {α : Type} {m : Method} {shares : Bool} {s s' : State} {i j : Nat} {op : Operation} {before after stack stack' rest : Stack}
  {xs : List OperandId} {e : Effect OperandId} {o : OperandId} {cells : List (Cell Nat)} {ws ws' : List Bool}
  {wide : α → Bool} {stands : OperandId → α → Prop} {as : List α}

/-! ## Stacks of results -/

/-- The operands on a stack are the results of the operations that pushed its values. -/
abbrev State.Results (s : State) : Stack → List (Cell Nat) → Prop :=
  Spells Cell.wide fun o c => (s.frame c.value).out = some o

/-- A stack of results is one that some path brings to an operation, with these widths. -/
def State.Comes (m : Method) (s : State) (i : Nat) (stack : Stack) (ws : List Bool) : Prop :=
  ∃ cells, m.Carries i cells ∧ cells.map Cell.wide = ws ∧ s.Results stack cells

theorem State.Comes.mono (h : s.Comes m i stack ws) (he : s.Extends s') : s'.Comes m i stack ws := by
  obtain ⟨cells, carries, widths, results⟩ := h
  exact ⟨cells, carries, widths, results.imp fun o c _ hc => he.out c.value o hc⟩

theorem State.Comes.reaches (h : s.Comes m i stack ws) : Reaches m i ws := by
  obtain ⟨cells, carries, rfl, -⟩ := h
  exact carries.reaches

/-- Two stacks of the same results stand for the same values, whichever words they have for the halves of wide ones. -/
theorem Spells.respell (h : Spells wide stands stack as) (hr : s.Results stack cells) (hr' : s.Results stack' cells)
    (hw : as.map wide = cells.map Cell.wide) : Spells wide stands stack' as := by
  induction h generalizing cells stack' with
  | nil =>
    obtain rfl : cells = [] := by simpa using hw.symm
    rw [hr'.eq_nil]
    exact .nil
  | narrow width value _ ih =>
    cases cells with
    | nil => cases hw
    | cons c cells =>
      rw [List.map_cons, List.map_cons, List.cons.injEq, width] at hw
      cases hr with
      | wide wide => exact absurd (hw.1.trans wide) (by simp)
      | narrow _ out rest =>
        cases hr' with
        | wide wide => exact absurd (hw.1.trans wide) (by simp)
        | narrow _ out' rest' =>
          obtain rfl := Option.some.inj (out.symm.trans out')
          exact .narrow width value (ih rest rest' hw.2)
  | wide width value _ _ ih =>
    cases cells with
    | nil => cases hw
    | cons c cells =>
      rw [List.map_cons, List.map_cons, List.cons.injEq, width] at hw
      cases hr with
      | narrow narrow => exact absurd (hw.1.trans narrow) (by simp)
      | wide _ out _ rest =>
        cases hr' with
        | narrow narrow => exact absurd (hw.1.trans narrow) (by simp)
        | wide _ out' half rest' =>
          obtain rfl := Option.some.inj (out.symm.trans out')
          exact .wide width value half (ih rest rest' hw.2)

/-- Every stack that comes to an operation stands for the same values. -/
theorem State.Comes.respell (hs : s.Comes m i stack (as.map wide)) (hu : m.Uniform) (hs' : s.Comes m i stack' ws)
    (h : Spells wide stands stack as) : Spells wide stands stack' as := by
  obtain ⟨cells, carries, widths, results⟩ := hs
  obtain ⟨cells', carries', -, results'⟩ := hs'
  obtain rfl := hu.same i cells cells' carries carries'
  exact h.respell results results' widths.symm

/-- Every stack that comes to an operation has the same widths. -/
theorem State.Comes.widths_eq (hs : s.Comes m i stack ws) (hu : m.Uniform) (hs' : s.Comes m i stack' ws') : ws' = ws := by
  obtain ⟨cells, carries, rfl, -⟩ := hs
  obtain ⟨cells', carries', rfl, -⟩ := hs'
  rw [hu.same i cells cells' carries carries']

/-! ## Visits -/

/-- Control goes on with results to wherever an operation leads. -/
theorem State.Comes.next (h : s.Comes m i before ws) (here : m.code[i]? = some op) (hv : Visit m shares i before after s op)
    (handlers : m.handlerLabels = []) (hw : op.reshape ws ≠ .error .width) :
    ∃ ws', op.reshape ws = .ok ws' ∧ ∀ j, m.Leads i op j → s.Comes m j after ws' := by
  obtain ⟨cells, carries, rfl, results⟩ := h
  have hw' : op.trace i cells ≠ .error .width := fun ht => hw (by rw [op.reshape_map i, ht]; rfl)
  obtain ⟨cells', traced, results'⟩ := hv.carry handlers results (fun _ => rfl) (fun _ _ hout => hout) hw'
  exact ⟨_, Operation.reshape_of_trace traced, fun j leads => ⟨cells', .step carries here traced leads, rfl, results'⟩⟩

/-! ## What visits find and leave -/

/-- What instructions remember of their operands are the results that they consume. -/
def State.RowsFit (m : Method) (s : State) : Prop :=
  ∀ i op first, m.code[i]? = some op → (s.frame i).rows.head? = some first →
    ∃ cells popped below xs, m.Carries i cells ∧ popAll Cell.wide op.takes.reverse cells = .ok (popped, below) ∧
      List.Forall₂ (fun o c => (s.frame c.value).out = some o) xs.reverse popped ∧ op.row xs = first

/-- The result of an operation came after those that are on the stack before the operation. -/
def State.OutsFit (m : Method) (s : State) : Prop :=
  ∀ i q cells, (s.frame i).out = some q → m.Carries i cells → ∀ c ∈ cells, ∃ o, (s.frame c.value).out = some o ∧ o.index < q.index

/-- What a state keeps to while a uniform method without handlers is visited. -/
structure State.Steady (m : Method) (s : State) : Prop where
  exclusive : s.Exclusive
  entries : s.handlerEntries = []
  rows : s.RowsFit m
  outs : s.OutsFit m

/-- Only plain operations remember operands. -/
theorem State.Stage.isPlain {first : List OperandId} (h : s.Stage m i) (here : m.code[i]? = some op)
    (head : (s.frame i).rows.head? = some first) : op.isPlain := by
  cases h with
  | untouched _ rows | caught _ _ _ _ rows | shared _ _ _ rows => simp [rows] at head
  | result built | statement built =>
    obtain rfl := Option.some.inj (here.symm.trans built.here)
    have := built.effect
    cases op <;> first | rfl | cases this

/-- Results are told apart by the operations that they are results of. -/
theorem eq_of_forall₂_out {popped : List (Cell Nat)} {os os' : List OperandId}
    (h : List.Forall₂ (fun o c => (s.frame c.value).out = some o) os popped)
    (h' : List.Forall₂ (fun o c => (s.frame c.value).out = some o) os' popped) : os = os' := by
  induction h generalizing os' with
  | nil =>
    cases h'
    rfl
  | cons out _ ih =>
    cases h' with
    | cons out' rest => rw [Option.some.inj (out.symm.trans out'), ih rest]

/-- Whatever comes to an instruction that was visited is what it remembers. -/
theorem State.RowsFit.alike {first : List OperandId} (h : s.RowsFit m) (hu : m.Uniform) (hs : s.Comes m i stack ws)
    (here : m.code[i]? = some op) (hpop : popOperands op.takes.reverse stack = some (xs.reverse, rest))
    (head : (s.frame i).rows.head? = some first) : op.row xs = first := by
  obtain ⟨cells, popped, below, xs', carries, hp, hall, rfl⟩ := h i op first here head
  obtain ⟨cells', carries', -, results⟩ := hs
  obtain rfl := hu.same i cells cells' carries carries'
  obtain ⟨os, rest', hpop', hall', -⟩ := results.pop hp
  rw [hpop, Option.some.injEq, Prod.mk.injEq] at hpop'
  obtain ⟨rfl, -⟩ := hpop'
  rw [List.reverse_inj.mp (eq_of_forall₂_out hall' hall)]

/-- A visit keeps what instructions remember fitting. -/
theorem State.RowsFit.visit (h : s.RowsFit m) (hs : s.Comes m i s.stack ws) (he : s.Extends s') (hc' : s'.Coherent m)
    (here : m.code[i]? = some op) (others : ∀ j, j ≠ i → s'.frame j = s.frame j) (hv : Visit m false i s.stack after s' op)
    (hw : op.reshape ws ≠ .error .width) : s'.RowsFit m := by
  intro j op' first here' head
  by_cases hji : j = i
  · subst hji
    obtain rfl := Option.some.inj (here.symm.trans here')
    have hplain := (hc'.stage j (List.getElem?_eq_some_iff.mp here).1).isPlain here head
    obtain ⟨cells, carries, rfl, results⟩ := hs.mono he
    cases hv with
    | @plain _ xs _ _ _ performed =>
      have hw' : popAll Cell.wide op.takes.reverse cells ≠ .error .width := by
        intro hp
        refine hw ?_
        rw [op.reshape_map j, Operation.trace, Operation.carry_plain hplain, hp]
        rfl
      obtain ⟨popped, below, hp, hall, -⟩ := performed.popAll results hw'
      rw [performed.leaves.head rfl, Option.some.injEq] at head
      exact ⟨cells, popped, below, xs, carries, hp, hall, head⟩
    | shuffle | line | label | caught => cases hplain
  · rw [others j hji] at head
    obtain ⟨cells, popped, below, xs, carries, hp, hall, hrow⟩ := h j op' first here' head
    exact ⟨cells, popped, below, xs, carries, hp, hall.imp fun _ _ => he.out _ _, hrow⟩

/-- A result that an operation got by a visit did not exist before. -/
theorem State.Coherent.not_known_of_new (hc : s.Coherent m) (he : s.Extends s') (hc' : s'.Coherent m) (entries : s.handlerEntries = [])
    {q : OperandId} (hnone : (s.frame i).out = none) (hout : (s'.frame i).out = some q) : ¬ s.Known q := by
  intro hk
  have hinsn : (s.operand q).insn = i := (he.insn q hk).symm.trans (hc'.out i q hout).2
  rcases hc.owned q hk with hold | ⟨e, hentry, -⟩
  · rw [hinsn, hnone] at hold
    cases hold
  · simp [State.handlerEntry?, entries] at hentry

/-- A visit keeps results in order. -/
theorem State.OutsFit.visit (h : s.OutsFit m) (hu : m.Uniform) (hs : s.Comes m i s.stack ws) (hk : s.StackKnown s.stack) (hc : s.Coherent m)
    (he : s.Extends s') (hc' : s'.Coherent m) (entries : s.handlerEntries = []) (others : ∀ j, j ≠ i → s'.frame j = s.frame j) :
    s'.OutsFit m := by
  intro j q cells hout carries c hmem
  have old : (s.frame j).out = some q → ∃ o, (s'.frame c.value).out = some o ∧ o.index < q.index := by
    intro hold
    obtain ⟨o, ho, hlt⟩ := h j q cells hold carries c hmem
    exact ⟨o, he.out c.value o ho, hlt⟩
  by_cases hji : j = i
  · subst hji
    cases hold : (s.frame j).out with
    | some p =>
      obtain rfl := Option.some.inj ((he.out j p hold).symm.trans hout)
      exact old hold
    | none =>
      obtain ⟨cells', carries', -, results⟩ := hs
      obtain rfl := hu.same j cells cells' carries carries'
      obtain ⟨o, ho, hout'⟩ := results.exists_operand_of_mem hmem
      exact ⟨o, he.out c.value o hout', Nat.lt_of_lt_of_le (hk o ho) (Nat.le_of_not_lt (hc.not_known_of_new he hc' entries hold hout))⟩
  · exact old (by rwa [others j hji] at hout)

/-! ## Following a uniform method -/

/-- Where every operation finds values of the same producers, no registers are shared. -/
def Guide.uniform (hu : m.Uniform) (handlers : m.handlerLabels = []) : Guide m false where
  sound s := s.Steady m
  admits s i stack := ∃ ws, s.Comes m i stack ws
  withStack _ h :=
    { exclusive := ⟨h.exclusive.inj, h.exclusive.uncopied, h.exclusive.alike, h.exclusive.shared⟩
      entries := h.entries
      rows := h.rows
      outs := h.outs }
  mono h he _ _ _ := h.imp fun _ hs => hs.mono he
  alike := by
    intro s i op _ hsound hadmits here _
    obtain ⟨ws, hs⟩ := hadmits
    exact ⟨hsound.exclusive, fun xs rest hpop first head => hsound.rows.alike hu hs here hpop head⟩
  visit := by
    intro s s' i op hc hk hsound hadmits here h hch hk' hv
    obtain ⟨ws, hs⟩ := hadmits
    have he := hch.extends hc
    have hc' := hch.coherent hc
    have hw := hu.widths i op ws here hs.reaches
    have others : ∀ j, j ≠ i → s'.frame j = s.frame j := Lowering.local_lowerOperation m op s _ s' h
    refine ⟨⟨hch.exclusive hc hsound.exclusive, he.entries.trans hsound.entries, hsound.rows.visit hs he hc' here others hv hw,
      hsound.outs.visit hu hs hk hc he hc' hsound.entries others⟩, fun j leads => ?_⟩
    obtain ⟨ws', -, hnext⟩ := (hs.mono he).next here hv handlers hw
    exact ⟨ws', hnext j leads⟩

/-- Without handlers there is no operand at the outset. -/
theorem State.Blank.not_known (h : s.Blank m) (handlers : m.handlerLabels = []) (o : OperandId) : ¬ s.Known o := by
  intro hk
  obtain ⟨-, -, e, he, -⟩ := h.made o hk
  have := (h.fit e (mem_of_find_entry he).1).2.1
  rw [handlers] at this
  cases this

/-- Without handlers there is no entry at the outset. -/
theorem State.Blank.entries_eq_nil (h : s.Blank m) (handlers : m.handlerLabels = []) : s.handlerEntries = [] := by
  refine List.eq_nil_iff_forall_not_mem.mpr fun e he => ?_
  have := (h.fit e he).2.1
  rw [handlers] at this
  cases this

theorem Guide.uniform_begins (hu : m.Uniform) (handlers : m.handlerLabels = []) : (Guide.uniform hu handlers).Begins where
  sound s h := by
    have none : ∀ {o : OperandId} {r : RegisterId}, (s.operand o).register ≠ some r := fun hr =>
      h.not_known handlers _ (known_of_register hr)
    refine ⟨⟨fun o p r hr => absurd hr none, fun i => by simp [h.unit], ?_, ?_⟩, h.entries_eq_nil handlers, ?_, ?_⟩
    · intro i row first head
      rw [h.frame] at head
      cases head
    · intro i j r hr
      rw [h.frame] at hr
      cases hr
    · intro i op first _ head
      rw [h.frame] at head
      cases head
    · intro i q cells hout
      rw [h.frame] at hout
      cases hout
  admits s i stack _ hroot := by
    rcases hroot with ⟨rfl, rfl⟩ | ⟨l, hl, -⟩
    · exact ⟨[], [], .start, rfl, .nil⟩
    · rw [handlers] at hl
      cases hl

namespace Traversal

variable {t : Traversal State} {hu : m.Uniform} {handlers : m.handlerLabels = []}

/-- Control came to every operation with results for the values of every path there. -/
theorem arrived_of_reaches (hx : t.Explored (Guide.uniform hu handlers) fun _ _ => False) (hn : t.tasks = [])
    (h : Reaches m i ws) (hi : i < m.code.length) :
    ∃ stack, t.Arrived m false i stack ∧ t.state.Comes m i stack ws := by
  induction h with
  | start => exact ⟨[], arrived_of_awaited hx hn (Or.inl (Or.inl ⟨rfl, rfl⟩)), [], .start, rfl, .nil⟩
  | @step i j op ws ws' reached here shape leads ih =>
    obtain ⟨before, ha, hs⟩ := ih (List.getElem?_eq_some_iff.mp here).1
    obtain ⟨after, hp, hnext⟩ := ha.passed_on hx hn here
    obtain ⟨ws₂, shape₂, hcomes⟩ := hs.next here hp.visit handlers (hu.widths i op ws here reached)
    obtain rfl : ws' = ws₂ := by rwa [shape, Except.ok.injEq] at shape₂
    have hs' := hcomes j leads
    obtain ⟨stack, -, hstack, ha'⟩ := hnext j leads hi
    refine ⟨stack, ha', ?_⟩
    rcases hstack with rfl | ⟨ws₂, hs₂⟩
    · exact hs'
    · rwa [hs'.widths_eq hu hs₂] at hs₂

/-- Every operation that some path leads to was visited with results for the values of the path. -/
theorem visit_of_reaches (hx : t.Explored (Guide.uniform hu handlers) fun _ _ => False) (hn : t.tasks = [])
    (h : Reaches m i ws) (here : m.code[i]? = some op) :
    ∃ before after, t.state.Comes m i before ws ∧ Visit m false i before after t.state op := by
  obtain ⟨before, ha, hs⟩ := arrived_of_reaches hx hn h (List.getElem?_eq_some_iff.mp here).1
  obtain ⟨after, hp, -⟩ := ha.passed_on hx hn here
  exact ⟨before, after, hs, hp.visit⟩

end Traversal
end ThreeAddress
