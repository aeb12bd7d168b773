import ThreeAddress.Lowering.Layout
import ThreeAddress.Proofs.Cells.Visits

/-!
# Finished statements

A statement is finished by reading its cells: no operand is looked up any more. What comes of it is what comes of the statement without
cells, where every operand is looked up.
-/

namespace ThreeAddress

/-! ## Reading cells -/

namespace CellState

/-- The register or constant that a cell holds. -/
def immediate (s : CellState) (insn : Nat) (k : CellId) : Except Fault Immediate :=
  match s.cell k with
  | .immediate i => .ok i
  | _ => .error (.notImmediate insn)

/-- What a cell holds, the cells in it read. -/
def value (s : CellState) (insn : Nat) (k : CellId) : Except Fault Value :=
  (s.cell k).mapM (s.immediate insn)

/-- The register that a cell holds. -/
def register (s : CellState) (insn : Nat) (k : CellId) : Except Fault RegisterId :=
  match (s.cell k).asRegister? with
  | some r => .ok r
  | none => .error (.missingDefinition insn)

end CellState

/-- The finished form of a statement, where labels name the statements that they are given. -/
def Pending.finish (target : Label → Except Fault Nat) (s : CellState) (insn : Nat) : Pending → Except Fault Stmt
  | .nop => .ok .nop
  | .identity k place => do return .identity (← s.register insn k) (← place.mapM (s.immediate insn))
  | .assign lhs rhs => do return .assign (← s.value insn lhs) (← s.value insn rhs)
  | .invoke call => do return .invoke (← call.mapM (s.immediate insn))
  | .branch condition label => do return .branch (← condition.mapM (s.immediate insn)) (← target label)
  | .goto label => do return .goto (← target label)
  | .switch key keys targets default => do
    let key ← s.immediate insn key
    let targets ← targets.mapM target
    return .switch key keys targets (← target default)
  | .return k => do return .return (← s.immediate insn k)
  | .returnVoid => .ok .returnVoid
  | .throw k => do return .throw (← s.immediate insn k)
  | .enterMonitor k => do return .enterMonitor (← s.immediate insn k)
  | .exitMonitor k => do return .exitMonitor (← s.immediate insn k)

/-! ## Looking up operands -/

namespace Ledger

variable {α : Type} {L : Ledger} {f : CellId → Except Fault α} {g : OperandId → Except Fault α}

section
variable (hfg : ∀ k o, L.read? k = some o → f k = g o)
include hfg

/-- Cells are replaced by what their operands are replaced by. -/
theorem Reads.mapM_eq {v : Rvalue CellId} {w : Rvalue OperandId} (h : L.Reads v w) : v.mapM f = w.mapM g := by
  let g' : Option OperandId → Except Fault α := fun x => x.elim (.error .unfinished) g
  have hmap : v.map f = w.map g :=
    calc v.map f = v.map fun k => g' (L.read? k) := Rvalue.map_congr fun k hk => by
          obtain ⟨o, -, ho⟩ := exists_of_forall₂ h.operands.flip hk
          rw [hfg k o ho, ho]
          rfl
      _ = (v.map L.read?).map g' := (Rvalue.map_map _ _ v).symm
      _ = (w.map some).map g' := by rw [h]
      _ = w.map g := Rvalue.map_map _ _ w
  calc v.mapM f = (v.map f).mapM id := (Rvalue.mapM_map f id v).symm
    _ = (w.map g).mapM id := by rw [hmap]
    _ = w.mapM g := Rvalue.mapM_map g id w

/-- The same for calls. -/
theorem Reads.mapM_invoke_eq {c : Invoke CellId} {d : Invoke OperandId} (h : L.Reads (.expr (.invoke c)) (.expr (.invoke d))) :
    c.mapM f = d.mapM g := by
  have heq : (c.mapM f >>= fun x => pure (Expr.invoke x)) >>= (fun e => pure (Rvalue.expr e)) =
    (d.mapM g >>= fun x => pure (Expr.invoke x)) >>= fun e => pure (Rvalue.expr e) := h.mapM_eq hfg
  cases hc : c.mapM f <;> cases hd : d.mapM g <;> rw [hc, hd] at heq <;> cases heq <;> rfl

end
end Ledger

namespace Books

open Layout

variable {m : Method} {L : Ledger} {a : CellState} {p : Plan} {i : Nat} {k : CellId} {o : OperandId} {r : RegisterId}

theorem immediate_eq (h : Books m L a p.state) (i : Nat) (k : CellId) (o : OperandId) (hk : L.read? k = some o) :
    a.immediate i k = p.immediate i o := by
  unfold CellState.immediate Plan.immediate
  rw [h.cell hk]
  rcases (h.content o).cases with ⟨j, hv, hw⟩ | ⟨e, e', hv, hw⟩ | ⟨e, e', hv, hw⟩ <;> rw [hv, hw]

/-- What is read in the cell of an operand is what is looked up. -/
theorem value_eq (h : Books m L a p.state) (i : Nat) (hk : L.read? k = some o) : a.value i k = p.value i (p.state.content o) := by
  unfold CellState.value
  rw [h.cell hk]
  exact (h.content o).mapM_eq (h.immediate_eq i)

/-- The value of an operand is read where its register is assigned. -/
theorem value_of_value (h : Books m L a p.state) (i : Nat) (hk : L.owner? k = some (.value o)) :
    a.value i k = p.value i (p.state.operand o).value := by
  unfold CellState.value
  rw [h.holds.values k o hk]
  exact (h.value o).mapM_eq (h.immediate_eq i)

/-- A cell that never changes is read as what it holds. -/
theorem immediate_of_fixed (h : Books m L a p.state) (i : Nat) {v : Immediate} (hk : L.owner? k = some (.fixed (.immediate v))) :
    a.immediate i k = .ok v := by
  unfold CellState.immediate
  rw [h.holds.fixed k _ hk]

theorem value_of_fixed (h : Books m L a p.state) (i : Nat) {v : Rvalue CellId} (hk : L.owner? k = some (.fixed v)) :
    a.value i k = v.mapM (a.immediate i) := by
  unfold CellState.value
  rw [h.holds.fixed k _ hk]

/-- Where an operand is assigned, the cells are those of its register and of its value. -/
theorem definition_eq (h : Books m L a p.state) (i : Nat) (hk : L.owner? k = some (.definition o)) :
    ∃ r, p.register i o = .ok r ∧ a.register i k = .ok r ∧ a.value i k = .ok (.register r) := by
  obtain ⟨-, r, hr, hcell⟩ := h.holds.defines k o trivial hk
  rw [h.register] at hr
  refine ⟨r, ?_, ?_, ?_⟩
  · unfold Plan.register
    rw [State.content_of_register hr]
    rfl
  · unfold CellState.register
    rw [hcell]
    rfl
  · unfold CellState.value
    rw [hcell]
    rfl

/-- A statement is finished by reading its cells as it is by looking up its operands. -/
theorem finish_eq (h : Books m L a p.state) (i : Nat) {q : Pending} {d : Draft} (hq : q.Renders L d) :
    q.finish p.target a i = p.finish i d := by
  have look := h.immediate_eq i
  cases hq with
  | nop | returnVoid | goto => rfl
  | caught target =>
    obtain ⟨r, hr, hr', -⟩ := h.definition_eq i target
    simp only [Pending.finish, Plan.finish, hr, hr']
    rfl
  | define lhs rhs =>
    obtain ⟨r, hr, -, hr'⟩ := h.definition_eq i lhs
    simp only [Pending.finish, Plan.finish, hr, hr', h.value_of_value i rhs]
    rfl
  | copy lhs rhs =>
    simp only [Pending.finish, Plan.finish, h.value_of_fixed i lhs, h.value_eq i rhs]
    rfl
  | increment lhs rhs slot constant =>
    simp only [Pending.finish, Plan.finish, h.value_of_fixed i lhs, h.value_of_fixed i rhs, Rvalue.mapM, Expr.mapM,
      h.immediate_of_fixed i slot, h.immediate_of_fixed i constant]
    rfl
  | write lhs reads rhs =>
    have place := (h.value_of_fixed i lhs).trans (reads.mapM_eq look)
    simp only [Pending.finish, Plan.finish, place, h.value_eq i rhs, Rvalue.mapM, bind_assoc, pure_bind]
  | invoke reads => simp only [Pending.finish, Plan.finish, reads.mapM_invoke_eq look]
  | @branch _ _ k _ c _ lhs rhs =>
    have hrhs : a.immediate i k = p.comparand i c := by
      cases c with
      | operand o => exact look k o rhs
      | constant c => exact h.immediate_of_fixed i rhs
    simp only [Pending.finish, Plan.finish, Condition.mapM, look _ _ lhs, hrhs, bind_assoc, pure_bind]
  | «switch» value | «return» value | throw value | enterMonitor value | exitMonitor value =>
    simp only [Pending.finish, Plan.finish, look _ _ value]

/-- The statements of an instruction are finished alike. -/
theorem finish_unit_eq (h : Books m L a p.state) (i : Nat) :
    (a.unit i).mapM (Pending.finish p.target a i) = (p.state.unit i).mapM (p.finish i) := by
  have all := h.unit i
  generalize a.unit i = qs at all
  generalize p.state.unit i = ds at all
  induction all with
  | nil => rfl
  | cons hq _ ih => rw [List.mapM_cons, List.mapM_cons, h.finish_eq i hq, ih]

end Books

/-- A method is visited to its end with cells exactly if it is without, and then every statement is finished alike. -/
theorem Cells.finish_complete (test : EdgeTest) (m : Method) : Accord
    (fun (t : Traversal CellState) (u : Traversal State) => ∀ p : Layout.Plan, p.state = u.state → ∀ i,
      (t.state.unit i).mapM (Pending.finish p.target t.state i) = (u.state.unit i).mapM (p.finish i))
    (Traversal.complete test m) (Traversal.complete test m) := by
  refine Accord.mono (Traversal.agrees_complete test m) fun t u ⟨L, h⟩ p hp i => ?_
  have books := h.books
  rw [← hp] at books ⊢
  exact books.finish_unit_eq i

end ThreeAddress
