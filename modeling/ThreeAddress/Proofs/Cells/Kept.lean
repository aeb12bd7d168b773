import ThreeAddress.Proofs.Cells.Lookups

/-!
# What updates keep

Every update of a state with cells goes together with one of the state without, and the books that relate the two are kept. Where an operand
gets a register, its cells hold the wrong thing until all of them are written; meanwhile `Holds` speaks of the other operands.
-/

namespace ThreeAddress

open CellState

namespace CellState.Holds

variable {L : Ledger} {a a' : CellState} {P Q : OperandId → Prop} {o : OperandId} {r : RegisterId} {k : CellId} {ks : List CellId}
  {v : Rvalue CellId} {w : Owner}

/-- Nothing matters but operands, cells, and what defines a register. -/
theorem congr (h : a.Holds L P) (operand : ∀ o, a'.operand o = a.operand o) (cells : a'.cells = a.cells)
    (definition : ∀ i k, a.definition? i = some k → a'.definition? i = some k) : a'.Holds L P where
  size := by rw [cells, h.size]
  uses o k := by rw [operand, h.uses]
  used k o ho hk := by rw [cell, cells, content, operand]; exact h.used k o ho hk
  values k o hk := by rw [cell, cells, operand]; exact h.values k o hk
  fixed k v hk := by rw [cell, cells]; exact h.fixed k v hk
  known := h.known
  below k o hk := by rw [operand]; exact h.below k o hk
  defines k o ho hk := by
    obtain ⟨hd, hr⟩ := h.defines k o ho hk
    rw [operand, cell, cells]
    exact ⟨definition _ k hd, hr⟩
  defined o ho hr := h.defined o ho (by rwa [operand] at hr)

/-- Cells of other operands need not hold what they are there for. -/
theorem mono (h : a.Holds L P) (hPQ : ∀ o, Q o → P o) : a.Holds L Q :=
  { h with
    used := fun k o ho => h.used k o (hPQ o ho)
    defines := fun k o ho => h.defines k o (hPQ o ho)
    defined := fun o ho => h.defined o (hPQ o ho) }

/-- What is missing of one operand is made up for. -/
theorem restore (h : a.Holds L (· ≠ o)) (used : ∀ k, L.read? k = some o → a.cell k = a.content o)
    (defines : ∀ k, L.owner? k = some (.definition o) →
      a.definition? (a.operand o).insn = some k ∧ ∃ r, (a.operand o).register = some r ∧ a.cell k = .register r)
    (defined : ∃ k, L.owner? k = some (.definition o)) : a.Holds L fun _ => True :=
  { h with
    used := fun k p _ hk => by
      by_cases hp : p = o
      · subst hp
        exact used k hk
      · exact h.used k p hp hk
    defines := fun k p _ hk => by
      by_cases hp : p = o
      · subst hp
        exact defines k hk
      · exact h.defines k p hp hk
    defined := fun p _ hr => by
      by_cases hp : p = o
      · subst hp
        exact defined
      · exact h.defined p hp hr }

/-! ## Cells -/

theorem lt_of_owner? (h : a.Holds L P) (hk : L.owner? k = some w) : k.index < a.cells.size := by
  rw [h.size]
  exact Ledger.lt_of_owner? hk

theorem lt_of_read? (h : a.Holds L P) (hk : L.read? k = some o) : k.index < a.cells.size :=
  h.lt_of_owner? (Ledger.read?_eq_some.mp hk)

/-- The next cell is the first one of which nothing is said. -/
theorem eq_nextCell_iff (h : a.Holds L P) : k = a.nextCell ↔ k.index = L.owners.length := by
  cases k
  rw [nextCell, h.size, CellId.mk.injEq]

theorem owner?_nextCell (h : a.Holds L P) : (L.add w).owner? a.nextCell = some w :=
  Ledger.owner?_add.mpr (Or.inr ⟨h.size, rfl⟩)

theorem cell_addCell_of_owner? (h : a.Holds L P) (hk : L.owner? k = some w) : (a.addCell v).cell k = a.cell k := by
  rw [cell_addCell, if_neg (Nat.ne_of_lt (h.lt_of_owner? hk))]

theorem cell_addCell_new (h : a.Holds L P) (hk : k.index = L.owners.length) : (a.addCell v).cell k = v := by
  rw [cell_addCell, if_pos (hk.trans h.size.symm)]

/-- A new cell that is not there for what an operand stands for. -/
theorem addCell (h : a.Holds L P) (use : ∀ p, w ≠ .use p) (definition : ∀ p, w = .definition p → ¬ P p)
    (known : ∀ p, w.operand? = some p → L.Known p) (value : ∀ p, w = .value p → v = (a.operand p).value)
    (fixed : ∀ x, w = .fixed x → v = x) : (a.addCell v).Holds (L.add w) P := by
  have read : ∀ k p, (L.add w).read? k = some p ↔ L.read? k = some p := fun k p => by
    rw [Ledger.read?_eq_some, Ledger.read?_eq_some, Ledger.owner?_add, or_iff_left]
    rintro ⟨-, hw⟩
    exact use p hw.symm
  constructor
  case size => rw [size_addCell, h.size, Ledger.add, List.length_append, List.length_singleton]
  case uses => exact fun p k => (h.uses p k).trans (read k p).symm
  case used =>
    intro k p hp hk
    have hold := (read k p).mp hk
    rw [h.cell_addCell_of_owner? (Ledger.read?_eq_some.mp hold)]
    exact h.used k p hp hold
  case values =>
    intro k p hk
    rcases Ledger.owner?_add.mp hk with hold | ⟨hnew, rfl⟩
    · rw [h.cell_addCell_of_owner? hold]
      exact h.values k p hold
    · rw [h.cell_addCell_new hnew]
      exact value p rfl
  case fixed =>
    intro k x hk
    rcases Ledger.owner?_add.mp hk with hold | ⟨hnew, rfl⟩
    · rw [h.cell_addCell_of_owner? hold]
      exact h.fixed k x hold
    · rw [h.cell_addCell_new hnew]
      exact fixed x rfl
  case known =>
    intro k x p hk hp
    rcases Ledger.owner?_add.mp hk with hold | ⟨-, rfl⟩
    · exact h.known k x p hold hp
    · exact known p hp
  case below => exact fun k p hk => h.below k p ((read k p).mp hk)
  case defines =>
    intro k p hp hk
    rcases Ledger.owner?_add.mp hk with hold | ⟨-, rfl⟩
    · rw [h.cell_addCell_of_owner? hold]
      exact h.defines k p hp hold
    · exact absurd hp (definition p rfl)
  case defined =>
    intro p hp hr
    obtain ⟨k, hk⟩ := h.defined p hp hr
    exact ⟨k, (Ledger.Grows.add L w).owner? hk⟩

/-- An operand is substituted into a new cell. -/
theorem use (h : a.Holds L P) (hsize : a.operands.size = L.operands) (hk : L.Known o)
    (hv : ∀ p ∈ (a.operand o).value.operands, p.index < L.owners.length) :
    ((a.addCell (a.content o)).withUse o a.nextCell).Holds (L.add (.use o)) P := by
  have operand : ∀ p, ((a.addCell (a.content o)).withUse o a.nextCell).operand p =
      if p = o then { a.operand o with uses := (a.operand o).uses ++ [a.nextCell] } else a.operand p := fun p =>
    operand_withUse (hsize ▸ hk : o.index < a.operands.size)
  have cell : ∀ k, ((a.addCell (a.content o)).withUse o a.nextCell).cell k = (a.addCell (a.content o)).cell k := fun _ => rfl
  have definition : ∀ i, ((a.addCell (a.content o)).withUse o a.nextCell).definition? i = a.definition? i := fun _ => rfl
  have old : ∀ k w, (L.add (.use o)).owner? k = some w → (∀ p, w ≠ .use p) → L.owner? k = some w := fun k w hk hw =>
    (Ledger.owner?_add.mp hk).resolve_right fun h => hw o h.2
  constructor
  case size => exact (size_addCell).trans (by rw [h.size, Ledger.add, List.length_append, List.length_singleton])
  case uses =>
    intro p k
    rw [operand, Ledger.read?_eq_some, Ledger.owner?_add, Owner.use.injEq, ← h.eq_nextCell_iff]
    split
    · rename_i hp
      subst hp
      rw [List.mem_append, List.mem_singleton, h.uses, Ledger.read?_eq_some]
      simp
    · rename_i hp
      rw [h.uses, Ledger.read?_eq_some]
      simp [hp]
  case used =>
    intro k p hp hk
    rw [content_withUse, cell]
    rcases Ledger.owner?_add.mp (Ledger.read?_eq_some.mp hk) with hold | ⟨hnew, heq⟩
    · rw [h.cell_addCell_of_owner? hold]
      exact h.used k p hp (Ledger.read?_eq_some.mpr hold)
    · rw [h.cell_addCell_new hnew, Owner.use.inj heq]
      rfl
  case values =>
    intro k p hk
    have hold := old k _ hk (by simp)
    rw [value_withUse, cell, h.cell_addCell_of_owner? hold]
    exact h.values k p hold
  case fixed =>
    intro k x hk
    have hold := old k _ hk (by simp)
    rw [cell, h.cell_addCell_of_owner? hold]
    exact h.fixed k x hold
  case known =>
    intro k x p hx hp
    rcases Ledger.owner?_add.mp hx with hold | ⟨-, rfl⟩
    · exact h.known k x p hold hp
    · exact Option.some.inj hp ▸ hk
  case below =>
    intro k p hk q hq
    rw [value_withUse] at hq
    rcases Ledger.owner?_add.mp (Ledger.read?_eq_some.mp hk) with hold | ⟨hnew, heq⟩
    · exact h.below k p (Ledger.read?_eq_some.mpr hold) q hq
    · rw [hnew]
      exact hv q (Owner.use.inj heq ▸ hq)
  case defines =>
    intro k p hp hk
    have hold := old k _ hk (by simp)
    rw [insn_withUse, register_withUse, definition, cell, h.cell_addCell_of_owner? hold]
    exact h.defines k p hp hold
  case defined =>
    intro p hp hr
    rw [register_withUse] at hr
    obtain ⟨k, hk⟩ := h.defined p hp hr
    exact ⟨k, (Ledger.Grows.add L _).owner? hk⟩

/-- Cells are written that are there for an operand of which nothing is asked. -/
theorem write (h : a.Holds L P) (hks : ∀ k ∈ ks, L.owner? k = some (.use o) ∨ L.owner? k = some (.definition o)) (ho : ¬ P o) :
    (a.write ks v).Holds L P := by
  have kept : ∀ k w, L.owner? k = some w → w ≠ .use o → w ≠ .definition o → (a.write ks v).cell k = a.cell k := by
    intro k w hk hu hd
    rw [cell_write fun k hk => (hks k hk).elim h.lt_of_owner? h.lt_of_owner?, if_neg]
    intro hmem
    rcases hks k hmem with hown | hown
    · exact hu (Option.some.inj (hk.symm.trans hown))
    · exact hd (Option.some.inj (hk.symm.trans hown))
  have apart : ∀ p, P p → p ≠ o := fun p hp heq => ho (heq ▸ hp)
  constructor
  case size => rw [size_write, h.size]
  case uses => exact h.uses
  case used =>
    intro k p hp hk
    rw [kept k _ (Ledger.read?_eq_some.mp hk) (fun heq => apart p hp (Owner.use.inj heq)) nofun]
    exact h.used k p hp hk
  case values =>
    intro k p hk
    rw [kept k _ hk nofun nofun]
    exact h.values k p hk
  case fixed =>
    intro k x hk
    rw [kept k _ hk nofun nofun]
    exact h.fixed k x hk
  case known => exact h.known
  case below => exact h.below
  case defines =>
    intro k p hp hk
    rw [kept k _ hk nofun fun heq => apart p hp (Owner.definition.inj heq)]
    exact h.defines k p hp hk
  case defined => exact h.defined

/-! ## Operands -/

/-- An operand gets a register. -/
theorem bindTo (h : a.Holds L P) (hk : o.index < a.operands.size) : (a.bindTo o r).Holds L fun p => P p ∧ p ≠ o := by
  have other : ∀ p, p ≠ o → (a.bindTo o r).operand p = a.operand p := fun p hp => by rw [operand_bindTo hk, if_neg hp]
  constructor
  case size => exact h.size
  case uses =>
    intro p k
    rw [uses_bindTo, h.uses]
  case used =>
    intro k p hp hread
    rw [content, other p hp.2]
    exact h.used k p hp.1 hread
  case values =>
    intro k p hown
    rw [value_bindTo]
    exact h.values k p hown
  case fixed => exact h.fixed
  case known => exact h.known
  case below =>
    intro k p hread
    rw [value_bindTo]
    exact h.below k p hread
  case defines =>
    intro k p hp hown
    rw [other p hp.2]
    exact h.defines k p hp.1 hown
  case defined =>
    intro p hp hr
    rw [other p hp.2] at hr
    exact h.defined p hp.1 hr

/-- A new operand that was not substituted anywhere. -/
theorem withOperand (h : a.Holds L P) (hsize : a.operands.size = L.operands) {q : CellOperand} (uses : q.uses = [])
    (hQ : ∀ p, Q p → P p ∧ (p.index = L.operands → q.register = none)) : (a.withOperand q).Holds L.addOperand Q := by
  have old : ∀ {p}, L.Known p → (a.withOperand q).operand p = a.operand p := fun hp => by
    rw [operand_withOperand, if_neg (hsize ▸ Nat.ne_of_lt hp)]
  have known : ∀ {k w p}, L.owner? k = some w → w.operand? = some p → L.Known p := fun hk hw => h.known _ _ _ hk hw
  constructor
  case size => exact h.size
  case uses =>
    intro p k
    by_cases hp : L.Known p
    · rw [old hp]
      exact h.uses p k
    · refine iff_of_false ?_ fun hread => hp (known (Ledger.read?_eq_some.mp hread) rfl)
      rw [operand_withOperand]
      split
      · rw [uses]
        exact List.not_mem_nil
      · exact fun hmem => hp (known (Ledger.read?_eq_some.mp ((h.uses p k).mp hmem)) rfl)
  case used =>
    intro k p hp hread
    rw [content, old (known (Ledger.read?_eq_some.mp hread) rfl)]
    exact h.used k p (hQ p hp).1 hread
  case values =>
    intro k p hown
    rw [old (known hown rfl)]
    exact h.values k p hown
  case fixed => exact h.fixed
  case known => exact fun k w p hk hw => Nat.lt_succ_of_lt (known hk hw)
  case below =>
    intro k p hread
    rw [old (known (Ledger.read?_eq_some.mp hread) rfl)]
    exact h.below k p hread
  case defines =>
    intro k p hp hown
    rw [old (known hown rfl)]
    exact h.defines k p (hQ p hp).1 hown
  case defined =>
    intro p hp hr
    rw [operand_withOperand] at hr
    split at hr
    · rename_i hnew
      rw [(hQ p hp).2 (hnew.trans hsize)] at hr
      cases hr
    · exact h.defined p (hQ p hp).1 hr

end CellState.Holds

/-! ## States with cells and without -/

section
variable {m : Method} {L L' : Ledger} {a a' : CellState} {s : State} {i : Nat} {j k : CellId} {o : OperandId} {r : RegisterId}

namespace CellState.Tracks

theorem withStack {stack : Stack} (h : a.Tracks m L s) (hk : ∀ o, .operand o ∈ stack → L.Known o) :
    (a.withStack stack).Tracks m L (s.withStack stack) :=
  { h with
    stack := rfl
    stackKnown := hk }

theorem withRegisters (h : a.Tracks m L s) (rs : Registers) : (a.withRegisters rs).Tracks m L (s.withRegisters rs) :=
  { h with registers := rfl }

theorem addCell (h : a.Tracks m L s) (w : Owner) (v : Rvalue CellId) : (a.addCell v).Tracks m (L.add w) s := by
  have hg := Ledger.Grows.add L w
  exact { h with
    value := fun o => hg.reads (h.value o)
    inputs := fun i row hr => hg.readsAll (h.inputs i row hr)
    unit := fun i => (h.unit i).imp fun _ _ hp => hp.mono hg
    entries := h.entries.imp fun _ _ ⟨he, ht⟩ => ⟨he, hg.owner? ht⟩ }

theorem write (h : a.Tracks m L s) (ks : List CellId) (v : Rvalue CellId) : (a.write ks v).Tracks m L s :=
  { h with }

theorem withUse (h : a.Tracks m L s) (o : OperandId) (k : CellId) : (a.withUse o k).Tracks m L s :=
  { h with
    sizes := ⟨(Array.size_modify ..).trans h.sizes.1, h.sizes.2⟩
    insn := fun p => insn_withUse.trans (h.insn p)
    register := fun p => register_withUse.trans (h.register p)
    value := fun p => by
      rw [value_withUse]
      exact h.value p }

theorem modifyFrame (h : a.Tracks m L s) (hi : i < m.code.length) {f : CellFrame → CellFrame} {g : Frame → Frame}
    (frame : (f (a.frame i)).toFrame = g (s.frame i))
    (inputs : ∀ row, (g (s.frame i)).rows.head? = some row → L.ReadsAll (f (a.frame i)).uses row)
    (rows : ∀ row ∈ (g (s.frame i)).rows, ∀ o ∈ row, L.Known o) (out : ∀ o, (g (s.frame i)).out = some o → L.Known o) :
    (a.modifyFrame i f).Tracks m L (s.modifyFrame i g) := by
  have left : ∀ j, (a.modifyFrame i f).frame j = if j = i then f (a.frame i) else a.frame j := fun j =>
    frame_modifyFrame (h.frames.1 ▸ hi)
  have right : ∀ j, (s.modifyFrame i g).frame j = if j = i then g (s.frame i) else s.frame j := fun j => by
    split
    · rename_i hj
      rw [hj, State.frame_modifyFrame_self (h.frames.2 ▸ hi)]
    · rename_i hj
      exact State.frame_modifyFrame_of_ne hj
  exact { h with
    frames := by
      rw [State.modifyFrame_size]
      exact ⟨(Array.size_modify ..).trans h.frames.1, h.frames.2⟩
    frame := fun j => by
      rw [left, right]
      split
      · exact frame
      · exact h.frame j
    inputs := fun j row hr => by
      rw [left]
      rw [right] at hr
      split <;> rename_i hj
      · rw [if_pos hj] at hr
        exact inputs row hr
      · rw [if_neg hj] at hr
        exact h.inputs j row hr
    rowsKnown := fun j row hr => by
      rw [right] at hr
      split at hr
      · exact rows row hr
      · exact h.rowsKnown j row hr
    outKnown := fun j o ho => by
      rw [right] at ho
      split at ho
      · exact out o ho
      · exact h.outKnown j o ho }

theorem modifyUnit (h : a.Tracks m L s) (hi : i < m.code.length) {f : List Pending → List Pending} {g : List Draft → List Draft}
    (renders : List.Forall₂ (Pending.Renders L) (f (a.unit i)) (g (s.unit i))) : (a.modifyUnit i f).Tracks m L (s.modifyUnit i g) :=
  { h with
    units := by
      rw [State.modifyUnit_size]
      exact ⟨(Array.size_modify ..).trans h.units.1, h.units.2⟩
    unit := fun j => by
      rw [unit_modifyUnit (h.units.1 ▸ hi : i < a.units.size)]
      split
      · rename_i hj
        rw [hj, State.unit_modifyUnit_self (h.units.2 ▸ hi)]
        exact renders
      · rename_i hj
        rw [State.unit_modifyUnit_of_ne hj]
        exact h.unit j }

theorem bindTo (h : a.Tracks m L s) (hk : L.Known o) (r : RegisterId) : (a.bindTo o r).Tracks m L (s.bindTo o r) := by
  have register : ∀ p, ((a.bindTo o r).operand p).register = ((s.bindTo o r).operand p).register := fun p => by
    rw [operand_bindTo (h.sizes.1 ▸ hk : o.index < a.operands.size)]
    split
    · rename_i hp
      rw [hp, State.operand_bindTo_self (h.known.mpr hk)]
    · rename_i hp
      rw [State.operand_bindTo_of_ne hp]
      exact h.register p
  exact { h with
    sizes := by
      rw [State.bindTo_size]
      exact ⟨(Array.size_modify ..).trans h.sizes.1, h.sizes.2⟩
    insn := fun p => by
      rw [insn_bindTo, State.bindTo_insn]
      exact h.insn p
    register
    value := fun p => by
      rw [value_bindTo, State.bindTo_value]
      exact h.value p
    earlier := fun p => by
      rw [State.bindTo_value]
      exact h.earlier p
    insideCode := fun p hp => by
      rw [State.bindTo_insn]
      exact h.insideCode p hp
    atEntry := fun p hp hr => by
      rw [State.bindTo_insn]
      refine h.atEntry p hp ?_
      by_cases hpo : p = o
      · rw [hpo, State.operand_bindTo_self (h.known.mpr hk)] at hr
        cases hr
      · rwa [State.operand_bindTo_of_ne hpo] at hr }

/-- A new operand, produced where no handler has an entry unless it is bound. -/
theorem withOperand (h : a.Tracks m L s) (hi : i < m.code.length) {v : Rvalue CellId} {w : Rvalue OperandId} {q : Option RegisterId}
    (reads : L.Reads v w) (known : ∀ p ∈ w.operands, L.Known p) (entry : q = none → s.handlerEntry? i = none) :
    (a.withOperand ⟨i, v, q, []⟩).Tracks m L.addOperand (s.withOperand ⟨i, w, q⟩) := by
  have old : ∀ {p}, p.index ≠ L.operands → L.addOperand.Known p → L.Known p := fun hne hp =>
    (Nat.lt_succ_iff_lt_or_eq.mp hp).resolve_right hne
  have left : ∀ p, (a.withOperand ⟨i, v, q, []⟩).operand p = if p.index = L.operands then ⟨i, v, q, []⟩ else a.operand p := fun p => by
    rw [operand_withOperand, h.sizes.1]
  have right : ∀ p, (s.withOperand ⟨i, w, q⟩).operand p = if p.index = L.operands then ⟨i, w, q⟩ else s.operand p := fun p => by
    split <;> rename_i hp
    · rw [h.eq_nextOperand_iff.mpr hp, State.operand_withOperand_next]
    · exact State.operand_withOperand_of_ne (mt h.eq_nextOperand_iff.mp hp)
  have grows := Ledger.Grows.addOperand L
  exact { h with
    sizes := by
      rw [State.withOperand_size, h.sizes.2]
      exact ⟨(Array.size_push ..).trans (congrArg (· + 1) h.sizes.1), rfl⟩
    insn := fun p => by
      rw [left, right]
      split
      · rfl
      · exact h.insn p
    register := fun p => by
      rw [left, right]
      split
      · rfl
      · exact h.register p
    value := fun p => by
      rw [left, right]
      split
      · exact reads
      · exact h.value p
    unit := fun j => (h.unit j).imp fun _ _ hp => hp.mono grows
    earlier := fun p x hx => by
      rw [right] at hx
      split at hx
      · rename_i hp
        rw [hp]
        exact known x hx
      · exact h.earlier p x hx
    insideCode := fun p hp => by
      rw [right]
      split
      · exact hi
      · rename_i hne
        exact h.insideCode p (old hne hp)
    atEntry := fun p hp hr => by
      rw [right] at hr ⊢
      split at hr
      · rename_i hnew
        rw [if_pos hnew]
        exact entry hr
      · rename_i hne
        rw [if_neg hne]
        exact h.atEntry p (old hne hp) hr
    stackKnown := fun p hp => grows.known (h.stackKnown p hp)
    rowsKnown := fun j row hr p hp => grows.known (h.rowsKnown j row hr p hp)
    outKnown := fun j p hp => grows.known (h.outKnown j p hp) }

end CellState.Tracks

/-! ## Books -/

namespace Books

theorem withStack {stack : Stack} (h : Books m L a s) (hk : ∀ o, .operand o ∈ stack → L.Known o) :
    Books m L (a.withStack stack) (s.withStack stack) :=
  ⟨h.toTracks.withStack hk, h.holds.congr (fun _ => rfl) rfl fun _ _ hd => hd⟩

theorem withRegisters (h : Books m L a s) (rs : Registers) : Books m L (a.withRegisters rs) (s.withRegisters rs) :=
  ⟨h.toTracks.withRegisters rs, h.holds.congr (fun _ => rfl) rfl fun _ _ hd => hd⟩

/-- A new cell that is never written again. -/
theorem addFixed (h : Books m L a s) (v : Rvalue CellId) : Books m (L.add (.fixed v)) (a.addCell v) s :=
  ⟨h.toTracks.addCell _ v, h.holds.addCell nofun nofun nofun nofun fun _ hx => Owner.fixed.inj hx⟩

/-- An operand is substituted. -/
theorem use (h : Books m L a s) (hk : L.Known o) : Books m (L.add (.use o)) ((a.addCell (a.content o)).withUse o a.nextCell) s :=
  ⟨(h.toTracks.addCell _ _).withUse o _, h.holds.use h.sizes.1 hk h.lt_of_mem_value⟩

theorem modifyFrame (h : Books m L a s) (hi : i < m.code.length) {f : CellFrame → CellFrame} {g : Frame → Frame}
    (frame : (f (a.frame i)).toFrame = g (s.frame i))
    (inputs : ∀ row, (g (s.frame i)).rows.head? = some row → L.ReadsAll (f (a.frame i)).uses row)
    (rows : ∀ row ∈ (g (s.frame i)).rows, ∀ o ∈ row, L.Known o) (out : ∀ o, (g (s.frame i)).out = some o → L.Known o) :
    Books m L (a.modifyFrame i f) (s.modifyFrame i g) :=
  ⟨h.toTracks.modifyFrame hi frame inputs rows out, h.holds.congr (fun _ => rfl) rfl fun _ _ hd => hd⟩

/-- Statements may be put into an empty unit, and added behind those of another one. -/
theorem modifyUnit (h : Books m L a s) (hi : i < m.code.length) {f : List Pending → List Pending} {g : List Draft → List Draft}
    (renders : List.Forall₂ (Pending.Renders L) (f (a.unit i)) (g (s.unit i)))
    (behind : a.unit i = [] ∨ (f (a.unit i)).head? = (a.unit i).head?) : Books m L (a.modifyUnit i f) (s.modifyUnit i g) :=
  ⟨h.toTracks.modifyUnit hi renders, h.holds.congr (fun _ => rfl) rfl fun _ _ hd => definition?_modifyUnit (h.units.1 ▸ hi) behind hd⟩

/-- A new operand without a register, produced where no handler has an entry. -/
theorem withOperand (h : Books m L a s) (hi : i < m.code.length) {v : Rvalue CellId} {w : Rvalue OperandId} (reads : L.Reads v w)
    (entry : s.handlerEntry? i = none) : Books m L.addOperand (a.withOperand ⟨i, v, none, []⟩) (s.withOperand ⟨i, w, none⟩) := by
  refine ⟨h.toTracks.withOperand hi reads (fun p hp => ?_) fun _ => entry,
    h.holds.withOperand h.sizes.1 rfl fun _ _ => ⟨trivial, fun _ => rfl⟩⟩
  -- The operands of the value have been substituted already.
  obtain ⟨k, -, hk⟩ := exists_of_forall₂ reads.operands hp
  exact h.holds.known k _ p (Ledger.read?_eq_some.mp hk) rfl

end Books
end
end ThreeAddress
