import ThreeAddress.Proofs.Cells.Updates
import ThreeAddress.Proofs.Cells.Values
import ThreeAddress.Proofs.Lowering.Steps

/-!
# Books about cells

A ledger says what each cell is there for: it holds what an operand stands for, the register or the value at the place where an operand is
assigned, or something that never changes. `Books` relates a state with cells to one without by such a ledger: the same registers, operands,
stack and frames, the same statements once cells are read as what they are there for (`Tracks`), and every cell holds what the ledger says
(`Holds`).
-/

namespace ThreeAddress

/-- What a cell is there for. -/
inductive Owner where
  /-- It holds what the operand stands for. -/
  | use (o : OperandId)
  /-- It holds the register of the operand, where that is assigned. -/
  | definition (o : OperandId)
  /-- It holds the value of the operand, where the register is assigned. -/
  | value (o : OperandId)
  /-- It is never written again. -/
  | fixed (v : Rvalue CellId)
  deriving DecidableEq

/-- The operand for which a cell is there. -/
def Owner.operand? : Owner → Option OperandId
  | .use o | .definition o | .value o => some o
  | .fixed _ => none

/-- What every cell is there for, and how many operands there are. -/
structure Ledger where
  owners : List Owner
  operands : Nat

namespace Ledger

def owner? (L : Ledger) (k : CellId) : Option Owner :=
  L.owners[k.index]?

/-- The operand that a cell stands for. -/
def read? (L : Ledger) (k : CellId) : Option OperandId :=
  match L.owner? k with
  | some (.use o) => some o
  | _ => none

/-- The operand exists. -/
def Known (L : Ledger) (o : OperandId) : Prop :=
  o.index < L.operands

/-- The ledger with one more cell. -/
def add (L : Ledger) (w : Owner) : Ledger :=
  { L with owners := L.owners ++ [w] }

/-- The ledger with one more operand. -/
def addOperand (L : Ledger) : Ledger :=
  { L with operands := L.operands + 1 }

/-- A later ledger: cells stay what they are there for, and no operand gets lost. -/
structure Grows (L L' : Ledger) : Prop where
  owners : L.owners <+: L'.owners
  operands : L.operands ≤ L'.operands

variable {L L' L'' : Ledger} {k : CellId} {o : OperandId} {w x : Owner}

theorem read?_eq_some : L.read? k = some o ↔ L.owner? k = some (.use o) := by
  unfold read?
  split
  · rename_i p h
    rw [h, Option.some.injEq, Option.some.injEq, Owner.use.injEq]
  · rename_i h
    exact iff_of_false (by simp) (h o)

theorem owner?_add : (L.add w).owner? k = some x ↔ L.owner? k = some x ∨ (k.index = L.owners.length ∧ x = w) := by
  simp only [owner?, add, List.getElem?_append]
  split
  · rename_i hlt
    exact ⟨Or.inl, fun h => h.resolve_right fun ⟨heq, _⟩ => absurd heq (Nat.ne_of_lt hlt)⟩
  · rename_i hge
    rw [List.getElem?_eq_none (Nat.le_of_not_lt hge), List.getElem?_singleton]
    have hle := Nat.le_of_not_lt hge
    constructor
    · intro h
      split at h
      · exact Or.inr ⟨by omega, (Option.some.inj h).symm⟩
      · cases h
    · rintro (h | ⟨heq, rfl⟩)
      · cases h
      · rw [if_pos (by omega)]

theorem lt_of_owner? (h : L.owner? k = some x) : k.index < L.owners.length :=
  (List.getElem?_eq_some_iff.mp h).1

namespace Grows

theorem refl (L : Ledger) : L.Grows L :=
  ⟨List.prefix_refl _, Nat.le_refl _⟩

theorem trans (h : L.Grows L') (h' : L'.Grows L'') : L.Grows L'' :=
  ⟨h.owners.trans h'.owners, Nat.le_trans h.operands h'.operands⟩

theorem add (L : Ledger) (w : Owner) : L.Grows (L.add w) :=
  ⟨List.prefix_append _ _, Nat.le_refl _⟩

theorem addOperand (L : Ledger) : L.Grows L.addOperand :=
  ⟨List.prefix_refl _, Nat.le_succ _⟩

theorem owner? (h : L.Grows L') (hk : L.owner? k = some w) : L'.owner? k = some w := by
  obtain ⟨rest, hrest⟩ := h.owners
  rw [Ledger.owner?, ← hrest, List.getElem?_append_left (lt_of_owner? hk)]
  exact hk

theorem read? (h : L.Grows L') (hk : L.read? k = some o) : L'.read? k = some o :=
  read?_eq_some.mpr (h.owner? (read?_eq_some.mp hk))

theorem known (h : L.Grows L') (ho : L.Known o) : L'.Known o :=
  Nat.lt_of_lt_of_le ho h.operands

end Grows

/-! ## Reading cells -/

/-- Cells are read as operands. -/
def ReadsAll (L : Ledger) (ks : List CellId) (os : List OperandId) : Prop :=
  List.Forall₂ (fun k o => L.read? k = some o) ks os

/-- A value over cells is one over operands, once cells are read. -/
def Reads (L : Ledger) (v : Rvalue CellId) (w : Rvalue OperandId) : Prop :=
  v.map L.read? = w.map some

theorem readsAll_iff {ks : List CellId} {os : List OperandId} : L.ReadsAll ks os ↔ ks.map L.read? = os.map some := by
  rw [ReadsAll, ← List.forall₂_eq_eq_eq, List.forall₂_map_left_iff, List.forall₂_map_right_iff]

theorem ReadsAll.getElem? {ks : List CellId} {os : List OperandId} (h : L.ReadsAll ks os) {j : Nat} (hk : ks[j]? = some k) :
    ∃ o, os[j]? = some o ∧ L.read? k = some o := by
  have heq : (ks.map L.read?)[j]? = (os.map some)[j]? := congrArg (·[j]?) (readsAll_iff.mp h)
  rw [List.getElem?_map, List.getElem?_map, hk] at heq
  obtain ⟨o, ho, hread⟩ := Option.map_eq_some_iff.mp heq.symm
  exact ⟨o, ho, hread.symm⟩

theorem Reads.operands {v : Rvalue CellId} {w : Rvalue OperandId} (h : L.Reads v w) : L.ReadsAll v.operands w.operands := by
  rw [readsAll_iff, ← Rvalue.operands_map, ← Rvalue.operands_map, h]

theorem Reads.shape {v : Rvalue CellId} {w : Rvalue OperandId} (h : L.Reads v w) : v.shape = w.shape := by
  rw [← Rvalue.shape_map L.read?, h, Rvalue.shape_map]

/-- Immediates are the same, and expressions and references are read as such. -/
theorem Reads.cases {v : Rvalue CellId} {w : Rvalue OperandId} (h : L.Reads v w) :
    (∃ i, v = .immediate i ∧ w = .immediate i) ∨ (∃ e e', v = .expr e ∧ w = .expr e') ∨ ∃ e e', v = .ref e ∧ w = .ref e' := by
  cases v with
  | immediate i =>
    cases w with
    | immediate j =>
      obtain rfl : i = j := Rvalue.immediate.inj h
      exact Or.inl ⟨i, rfl, rfl⟩
    | _ => cases h
  | expr e =>
    cases w with
    | expr e' => exact Or.inr (Or.inl ⟨e, e', rfl, rfl⟩)
    | _ => cases h
  | ref e =>
    cases w with
    | ref e' => exact Or.inr (Or.inr ⟨e, e', rfl, rfl⟩)
    | _ => cases h

theorem Grows.readsAll (h : L.Grows L') {ks : List CellId} {os : List OperandId} (hr : L.ReadsAll ks os) : L'.ReadsAll ks os :=
  hr.imp fun _ _ => h.read?

/-- Every cell that is read in one ledger is read alike in a later one. -/
theorem Grows.read?_congr (h : L.Grows L') {ks : List CellId} {os : List OperandId} (hr : L.ReadsAll ks os) :
    ∀ k ∈ ks, L'.read? k = L.read? k := by
  intro k hk
  obtain ⟨o, -, ho⟩ := exists_of_forall₂ (List.Forall₂.flip hr) hk
  rw [ho, h.read? ho]

theorem Grows.reads (h : L.Grows L') {v : Rvalue CellId} {w : Rvalue OperandId} (hr : L.Reads v w) : L'.Reads v w :=
  (Rvalue.map_congr (h.read?_congr hr.operands)).trans hr

end Ledger

/-! ## Statements -/

/-- The right side of a comparison is in a cell. -/
def Comparand.InCell (L : Ledger) (k : CellId) : Comparand → Prop
  | .operand o => L.read? k = some o
  | .constant c => L.owner? k = some (.fixed (.immediate (.constant c)))

/-- A statement on cells is one on operands, once cells are read. -/
inductive Pending.Renders (L : Ledger) : Pending → Draft → Prop where
  | nop : Renders L .nop .nop
  | caught {k : CellId} {o : OperandId} (target : L.owner? k = some (.definition o)) : Renders L (.identity k .caughtException) (.caught o)
  | define {j k : CellId} {o : OperandId} (lhs : L.owner? j = some (.definition o)) (rhs : L.owner? k = some (.value o)) :
      Renders L (.assign j k) (.define o)
  | copy {j k : CellId} {r : RegisterId} {o : OperandId} (lhs : L.owner? j = some (.fixed (.register r))) (rhs : L.read? k = some o) :
      Renders L (.assign j k) (.copy r o)
  | increment {j k p q : CellId} {r : RegisterId} {amount : Int16} (lhs : L.owner? j = some (.fixed (.register r)))
      (rhs : L.owner? k = some (.fixed (.expr (.binary .add p q)))) (slot : L.owner? p = some (.fixed (.register r)))
      (constant : L.owner? q = some (.fixed (.immediate (.constant (.int amount.toInt32))))) :
      Renders L (.assign j k) (.increment r amount)
  | write {j k : CellId} {place : Ref CellId} {place' : Ref OperandId} {o : OperandId} (lhs : L.owner? j = some (.fixed (.ref place)))
      (reads : L.Reads (.ref place) (.ref place')) (rhs : L.read? k = some o) : Renders L (.assign j k) (.write place' o)
  | invoke {call : Invoke CellId} {call' : Invoke OperandId} (reads : L.Reads (.expr (.invoke call)) (.expr (.invoke call'))) :
      Renders L (.invoke call) (.invoke call')
  | branch {way : Comparison} {j k : CellId} {o : OperandId} {c : Comparand} {target : Label} (lhs : L.read? j = some o)
      (rhs : c.InCell L k) : Renders L (.branch ⟨way, j, k⟩ target) (.branch way o c target)
  | goto {target : Label} : Renders L (.goto target) (.goto target)
  | switch {k : CellId} {o : OperandId} {keys : SwitchKeys} {targets : List Label} {default : Label} (key : L.read? k = some o) :
      Renders L (.switch k keys targets default) (.switch o keys targets default)
  | return {k : CellId} {o : OperandId} (value : L.read? k = some o) : Renders L (.return k) (.return o)
  | returnVoid : Renders L .returnVoid .returnVoid
  | throw {k : CellId} {o : OperandId} (value : L.read? k = some o) : Renders L (.throw k) (.throw o)
  | enterMonitor {k : CellId} {o : OperandId} (value : L.read? k = some o) : Renders L (.enterMonitor k) (.enterMonitor o)
  | exitMonitor {k : CellId} {o : OperandId} (value : L.read? k = some o) : Renders L (.exitMonitor k) (.exitMonitor o)

theorem Comparand.InCell.mono {L L' : Ledger} {k : CellId} {c : Comparand} (h : c.InCell L k) (hg : L.Grows L') : c.InCell L' k := by
  cases c with
  | operand o => exact hg.read? h
  | constant c => exact hg.owner? h

theorem Pending.Renders.mono {L L' : Ledger} {p : Pending} {d : Draft} (h : p.Renders L d) (hg : L.Grows L') : p.Renders L' d := by
  cases h with
  | nop => exact .nop
  | caught target => exact .caught (hg.owner? target)
  | define lhs rhs => exact .define (hg.owner? lhs) (hg.owner? rhs)
  | copy lhs rhs => exact .copy (hg.owner? lhs) (hg.read? rhs)
  | increment lhs rhs slot constant => exact .increment (hg.owner? lhs) (hg.owner? rhs) (hg.owner? slot) (hg.owner? constant)
  | write lhs reads rhs => exact .write (hg.owner? lhs) (hg.reads reads) (hg.read? rhs)
  | invoke reads => exact .invoke (hg.reads reads)
  | branch lhs rhs => exact .branch (hg.read? lhs) (rhs.mono hg)
  | goto => exact .goto
  | switch key => exact .switch (hg.read? key)
  | «return» value => exact .return (hg.read? value)
  | returnVoid => exact .returnVoid
  | throw value => exact .throw (hg.read? value)
  | enterMonitor value => exact .enterMonitor (hg.read? value)
  | exitMonitor value => exact .exitMonitor (hg.read? value)

/-! ## States -/

/-- Every cell holds what it is there for, as far as the operands of some kind are concerned. -/
structure CellState.Holds (L : Ledger) (a : CellState) (P : OperandId → Prop) : Prop where
  size : a.cells.size = L.owners.length
  uses : ∀ o k, k ∈ (a.operand o).uses ↔ L.read? k = some o
  used : ∀ k o, P o → L.read? k = some o → a.cell k = a.content o
  values : ∀ k o, L.owner? k = some (.value o) → a.cell k = (a.operand o).value
  fixed : ∀ k v, L.owner? k = some (.fixed v) → a.cell k = v
  known : ∀ k w o, L.owner? k = some w → w.operand? = some o → L.Known o
  /-- A cell comes after those in the value of its operand. -/
  below : ∀ k o, L.read? k = some o → ∀ p ∈ (a.operand o).value.operands, p.index < k.index
  defines : ∀ k o, P o → L.owner? k = some (.definition o) →
    a.definition? (a.operand o).insn = some k ∧ ∃ r, (a.operand o).register = some r ∧ a.cell k = .register r
  defined : ∀ o, P o → (a.operand o).register.isSome → ∃ k, L.owner? k = some (.definition o)

/-- A state with cells is one without, once cells are read. -/
structure CellState.Tracks (m : Method) (L : Ledger) (a : CellState) (s : State) : Prop where
  registers : a.registers = s.registers
  stack : a.stack = s.stack
  sizes : a.operands.size = L.operands ∧ s.operands.size = L.operands
  insn : ∀ o, (a.operand o).insn = (s.operand o).insn
  register : ∀ o, (a.operand o).register = (s.operand o).register
  value : ∀ o, L.Reads (a.operand o).value (s.operand o).value
  frames : a.frames.size = m.code.length ∧ s.frames.size = m.code.length
  frame : ∀ i, (a.frame i).toFrame = s.frame i
  /-- The cells of the first visit are those of its operands, in order. -/
  inputs : ∀ i row, (s.frame i).rows.head? = some row → L.ReadsAll (a.frame i).uses row
  units : a.units.size = m.code.length ∧ s.units.size = m.code.length
  unit : ∀ i, List.Forall₂ (Pending.Renders L) (a.unit i) (s.unit i)
  entries : List.Forall₂ (fun e e' => e.toHandlerEntry = e' ∧ L.owner? e.target = some (.definition e'.operand)) a.handlerEntries
    s.handlerEntries
  earlier : ∀ o, ∀ q ∈ (s.operand o).value.operands, q.index < o.index
  insideCode : ∀ o, L.Known o → (s.operand o).insn < m.code.length
  /-- Only the caught exception is produced at an entry, and it is bound. -/
  atEntry : ∀ o, L.Known o → (s.operand o).register = none → s.handlerEntry? (s.operand o).insn = none
  entryLabel : ∀ i e, s.handlerEntry? i = some e → ∃ l, m.code[i]? = some (.label l)
  stackKnown : ∀ o, .operand o ∈ s.stack → L.Known o
  rowsKnown : ∀ i row, row ∈ (s.frame i).rows → ∀ o ∈ row, L.Known o
  outKnown : ∀ i o, (s.frame i).out = some o → L.Known o

/-- A state with cells is one without, once cells are read, and every cell holds what it is there for. -/
structure Books (m : Method) (L : Ledger) (a : CellState) (s : State) : Prop extends a.Tracks m L s where
  holds : a.Holds L fun _ => True

variable {m : Method} {L L' : Ledger} {a : CellState} {s : State} {i : Nat} {k : CellId} {o : OperandId} {r : RegisterId}

namespace CellState.Tracks

theorem known (h : a.Tracks m L s) : s.Known o ↔ L.Known o := by
  rw [State.Known, h.sizes.2, Ledger.Known]

/-- The next operand is the same with cells and without. -/
theorem nextOperand (h : a.Tracks m L s) : s.nextOperand = ⟨a.operands.size⟩ := by
  rw [State.nextOperand, h.sizes.1, h.sizes.2]

/-- The next operand is the first one that does not exist. -/
theorem eq_nextOperand_iff (h : a.Tracks m L s) : o = s.nextOperand ↔ o.index = L.operands := by
  cases o
  rw [State.nextOperand, h.sizes.2, OperandId.mk.injEq]

theorem not_known_nextOperand (h : a.Tracks m L s) : ¬ L.Known s.nextOperand :=
  Nat.not_lt.mpr (Nat.le_of_eq (h.eq_nextOperand_iff.mp rfl).symm)

theorem unit_eq_nil (h : a.Tracks m L s) : a.unit i = [] ↔ s.unit i = [] := by
  rw [← List.length_eq_zero_iff, ← List.length_eq_zero_iff, (h.unit i).length_eq]

theorem handlerEntry? (h : a.Tracks m L s) (i : Nat) : (a.handlerEntry? i).map CellEntry.toHandlerEntry = s.handlerEntry? i := by
  unfold CellState.handlerEntry? State.handlerEntry?
  have all := h.entries
  generalize a.handlerEntries = es at all
  generalize s.handlerEntries = es' at all
  induction all with
  | nil => rfl
  | @cons e _ es es' he _ ih =>
    obtain ⟨rfl, -⟩ := he
    rw [List.find?_cons, List.find?_cons]
    cases e.insn == i with
    | true => rfl
    | false => exact ih

theorem handlerEntry?_eq_none (h : a.Tracks m L s) : a.handlerEntry? i = none ↔ s.handlerEntry? i = none := by
  rw [← h.handlerEntry?, Option.map_eq_none_iff]

theorem content (h : a.Tracks m L s) (o : OperandId) : L.Reads (a.content o) (s.content o) := by
  unfold CellState.content CellOperand.content State.content
  rw [h.register]
  cases (s.operand o).register with
  | none => exact h.value o
  | some r => rfl

theorem earlier_content (h : a.Tracks m L s) : ∀ q ∈ (s.content o).operands, q.index < o.index := by
  intro q hq
  unfold State.content at hq
  split at hq
  · cases hq
  · exact h.earlier o q hq

/-- The cells of values exist. -/
theorem lt_of_mem_value (h : a.Tracks m L s) : ∀ p ∈ (a.operand o).value.operands, p.index < L.owners.length := by
  intro p hp
  obtain ⟨q, -, hq⟩ := exists_of_forall₂ (h.value o).operands.flip hp
  exact Ledger.lt_of_owner? (Ledger.read?_eq_some.mp hq)

end CellState.Tracks

namespace Books

/-- What a cell holds that stands for an operand. -/
theorem cell (h : Books m L a s) (hk : L.read? k = some o) : a.cell k = a.content o :=
  h.holds.used k o trivial hk

/-- Cells of operands that stand for registers or values come before their own. -/
theorem lt_of_mem_content (h : Books m L a s) (hk : L.read? k = some o) : ∀ p ∈ (a.content o).operands, p.index < k.index := by
  intro p hp
  unfold CellState.content CellOperand.content at hp
  split at hp
  · cases hp
  · exact h.holds.below k o hk p hp

end Books
end ThreeAddress
