import ThreeAddress.Proofs.Cells.Visits
import ThreeAddress.Proofs.Lowering.Rejections

/-!
# Spills reach every use and every definition

Cells are written where an operand is substituted, evaluated into a register, renamed or joined. Between two instructions that has always
been done everywhere: every use of an operand holds what the operand stands for, and so does the cell that defines its register.
-/

namespace ThreeAddress

/-- Cells, operands, statements and frames fit together. -/
structure CellState.Linked (a : CellState) : Prop where
  /-- A use of an operand holds what the operand stands for. -/
  uses : ∀ o k, k ∈ (a.operand o).uses → a.cells[k.index]? = some (a.content o)
  /-- An operand with a register has a definition where it was produced, which names the register. -/
  bound : ∀ o r, (a.operand o).register = some r →
    ∃ k, a.definition? (a.operand o).insn = some k ∧ a.cells[k.index]? = some (.register r)
  /-- No statement, and so no assignment, stands where an operand without a register was produced. -/
  unbound : ∀ o, o.index < a.operands.size → (a.operand o).register = none → a.unit (a.operand o).insn = []
  /-- The cells of the first visit of an instruction are uses of the operands that it took, one for each, in order. -/
  inputs : ∀ i row, (a.frame i).rows.head? = some row → List.Forall₂ (fun k o => k ∈ (a.operand o).uses) (a.frame i).uses row

namespace Cells

open Traversal (After Between follow)

variable {test : EdgeTest} {m : Method} {L : Ledger} {a : CellState} {s : State}

/-- Where books are kept about a coherent state, everything fits together. -/
theorem linked_of_books (h : Books m L a s) (hc : s.Coherent m) : a.Linked where
  uses o k hk := by
    have hread := (h.holds.uses o k).mp hk
    rw [CellState.getElem?_cells (h.holds.lt_of_read? hread), h.cell hread]
  bound o r hr := by
    obtain ⟨k, hown⟩ := h.holds.defined o trivial (by rw [hr]; rfl)
    obtain ⟨hdef, q, hq, hcell⟩ := h.holds.defines k o trivial hown
    obtain rfl : q = r := Option.some.inj (hq.symm.trans hr)
    exact ⟨k, hdef, by rw [CellState.getElem?_cells (h.holds.lt_of_owner? hown), hcell]⟩
  unbound o hk hn := by
    have hknown : s.Known o := h.toTracks.known.mpr (Nat.lt_of_lt_of_eq hk h.sizes.1)
    rw [h.unit_eq_nil, h.insn]
    exact hc.unit_of_unbound hknown ((h.register o).symm.trans hn)
  inputs i row hr := by
    have hrows : (a.frame i).rows = (s.frame i).rows := congrArg Frame.rows (h.frame i)
    rw [hrows] at hr
    exact (h.inputs i row hr).imp fun k o hread => (h.holds.uses o k).mpr hread

/-- Whatever a visit comes to between two instructions, every use of an operand and every definition follows what the operand stands for. -/
theorem spills_reach_uses (h : Between test m a) : a.Linked := by
  obtain ⟨L, s, books, between⟩ := h.books
  exact linked_of_books books between.coherent

/-- Puts a local slot into another one, and returns what it held before it is incremented. -/
def copiedPostIncrement : Method :=
  { className := "Sample", name := "run", signature := { params := [.int], ret := .int }, isStatic := true, maxLocals := 2, maxStack := 2,
    code := [.load .int 0, .shuffle .dup .one, .store .int 1, .increment 0 1, .return .int], exceptions := [], localNames := [] }

/-- The value of the slot is stored while it is still on the stack, and gets a register when the slot is incremented. Its use in the store
and the one in the return, the cells 0 and 8, both name that register in the end. -/
theorem spills_reach_uses_copiedPostIncrement : ∃ a : CellState, Between .pendingFirst copiedPostIncrement a ∧
    (a.operand ⟨0⟩).register = some ⟨2⟩ ∧ (a.operand ⟨0⟩).uses = [⟨0⟩, ⟨8⟩] ∧ a.Linked := by
  let outset : Traversal CellState := ⟨.ofMethod copiedPostIncrement, Array.replicate 5 none, {}, [⟨0, [], none⟩]⟩
  have begun : After .pendingFirst copiedPostIncrement 0 outset := .start rfl
  have reached : (do
      let t ← follow .pendingFirst copiedPostIncrement { outset with tasks := [] } ⟨0, [], none⟩
      return ((t.state.operand ⟨0⟩).register, (t.state.operand ⟨0⟩).uses)) = Except.ok (some ⟨2⟩, [⟨0⟩, ⟨8⟩]) := by decide +kernel
  obtain ⟨t, followed, facts⟩ := bind_eq_ok.mp reached
  have after : After .pendingFirst copiedPostIncrement 1 t := .follow begun rfl followed
  obtain ⟨register, uses⟩ := Prod.mk.inj (pure_eq_ok.mp facts)
  exact ⟨t.state, .tasks after, register, uses, spills_reach_uses (.tasks after)⟩

end Cells
end ThreeAddress
