import ThreeAddress.Proofs.Labels
import ThreeAddress.Proofs.Layout.Flow
import ThreeAddress.Proofs.Semantics.Carrying

/-!
# Blocks

A block of code is entered at its first operation alone and left at its last one. Where blocks exchange nothing on the stack, what is on the
stack before an operation depends on the operations of its block alone (`Method.cellsAt`), whatever way control came there, so that the method
is uniform.
-/

namespace ThreeAddress

/-! ## Blocks that exchange nothing -/

/-- No block begins or is left with anything on the stack, and every value is used with the width it was pushed with. -/
structure Method.Blockwise (m : Method) : Prop where
  atLabel : ∀ i l ws, m.code[i]? = some (.label l) → Reaches m i ws → ws = []
  /-- After a branch, a jump or a switch. -/
  afterBranch : ∀ i op ws ws', m.code[i]? = some op → op.labels ≠ [] → Reaches m i ws → op.reshape ws = .ok ws' → ws' = []
  widths : ∀ i op ws, m.code[i]? = some op → Reaches m i ws → op.reshape ws ≠ .error .width

/-- Control does not simply go on behind the operation. -/
def Operation.endsBlock (op : Operation) : Bool :=
  !op.goesOn || !op.labels.isEmpty

/-- A block begins with the operation: it is the first one or a label, or the operation before it ends a block. -/
def Method.beginsBlock (m : Method) : Nat → Bool
  | 0 => true
  | i + 1 =>
    (match m.code[i + 1]? with
      | some (.label _) => true
      | _ => false) || m.code[i]?.any Operation.endsBlock

/-- The values on the stack before an operation, by the operations before it in its block. -/
def Method.cellsAt (m : Method) : Nat → Option (List (Cell Nat))
  | 0 => some []
  | i + 1 =>
    if m.beginsBlock (i + 1) then some []
    else do
      let cells ← m.cellsAt i
      ((← m.code[i]?).trace i cells).toOption

variable {m : Method} {i j : Nat} {op : Operation} {cells cells' : List (Cell Nat)}

/-- A label begins a block. -/
theorem Method.beginsBlock_of_label {l : Label} (here : m.code[i]? = some (.label l)) : m.beginsBlock i = true := by
  cases i with
  | zero => rfl
  | succ i => simp [beginsBlock, here]

/-- Nothing is on the stack where a block begins. -/
theorem Method.cellsAt_of_beginsBlock (h : m.beginsBlock i = true) : m.cellsAt i = some [] := by
  cases i with
  | zero => rfl
  | succ i => simp [cellsAt, h]

/-- Inside a block the stack is what the operation before left. -/
theorem Method.cellsAt_succ (h : m.beginsBlock (i + 1) = false) (hc : m.cellsAt i = some cells) (here : m.code[i]? = some op)
    (traced : op.trace i cells = .ok cells') : m.cellsAt (i + 1) = some cells' := by
  simp [cellsAt, h, hc, here, traced, Except.toOption]

namespace Method.Blockwise

/-- Control goes on with the values that are before the operation to which it goes. -/
theorem cellsAt_next (hb : m.Blockwise) (here : m.code[i]? = some op) (hc : m.cellsAt i = some cells) (carries : m.Carries i cells)
    (traced : op.trace i cells = .ok cells') (leads : m.Leads i op j) : m.cellsAt j = some cells' := by
  have shape := Operation.reshape_of_trace traced
  have empty : m.beginsBlock j = true → cells'.map Cell.wide = [] → m.cellsAt j = some cells' := by
    intro hj hnil
    rw [cellsAt_of_beginsBlock hj, List.map_eq_nil_iff.mp hnil]
  have atLabel : ∀ l, m.code[j]? = some (.label l) → m.cellsAt j = some cells' := fun l hl =>
    empty (beginsBlock_of_label hl) (hb.atLabel j l _ hl (.step carries.reaches here shape leads))
  rcases leads_iff.mp leads with ⟨hgo, rfl⟩ | ⟨l, -, hl⟩
  · by_cases hjump : op.labels = []
    · cases hbegin : m.beginsBlock (i + 1) with
      | false => exact cellsAt_succ hbegin hc here traced
      | true =>
        have hends : op.endsBlock = false := by simp [Operation.endsBlock, hgo, hjump]
        simp only [beginsBlock, here, Option.any_some, hends, Bool.or_false] at hbegin
        split at hbegin
        · exact atLabel _ ‹_›
        · cases hbegin
    · refine empty ?_ (hb.afterBranch i op _ _ here hjump carries.reaches shape)
      simp [beginsBlock, here, Operation.endsBlock, hjump]
  · exact atLabel l (here_of_labelIndex? hl)

/-- Every path brings the values that are before an operation. -/
theorem cellsAt_of_carries (hb : m.Blockwise) (h : m.Carries i cells) : m.cellsAt i = some cells := by
  induction h with
  | start => rfl
  | step carries here traced leads ih => exact hb.cellsAt_next here ih carries traced leads

/-- Where blocks exchange nothing on the stack, every operation finds values of the same producers. -/
theorem uniform (hb : m.Blockwise) : m.Uniform where
  same _ _ _ h h' := Option.some.inj ((hb.cellsAt_of_carries h').symm.trans (hb.cellsAt_of_carries h))
  widths := hb.widths

end Method.Blockwise
end ThreeAddress
