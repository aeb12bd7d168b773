import ThreeAddress.Proofs.Cells.Books

/-!
# Looking into cells

What is decided by looking into values is decided alike with cells: whether a value mentions a register, and whether two values are the same
once everything in them is looked up.
-/

namespace ThreeAddress

namespace Ledger

variable {L : Ledger} {ks js : List CellId} {os ps : List OperandId}

/-- Some cell has what some operand has, if each cell has it exactly if its operand does. -/
theorem ReadsAll.any_eq (h : L.ReadsAll ks os) {f : CellId → Bool} {g : OperandId → Bool}
    (hfg : ∀ k ∈ ks, ∀ o ∈ os, L.read? k = some o → f k = g o) : ks.any f = os.any g := by
  induction h with
  | nil => rfl
  | cons hk _ ih =>
    rw [List.any_cons, List.any_cons, hfg _ List.mem_cons_self _ List.mem_cons_self hk,
      ih fun k hk o ho => hfg k (List.mem_cons_of_mem _ hk) o (List.mem_cons_of_mem _ ho)]

/-- The same for pairs of cells and of operands. -/
theorem ReadsAll.all_zip_eq (h : L.ReadsAll ks os) (h' : L.ReadsAll js ps) {f : CellId × CellId → Bool}
    {g : OperandId × OperandId → Bool}
    (hfg : ∀ k ∈ ks, ∀ o ∈ os, L.read? k = some o → ∀ j p, L.read? j = some p → f (k, j) = g (o, p)) :
    (ks.zip js).all f = (os.zip ps).all g := by
  induction h generalizing js ps with
  | nil => rfl
  | cons hk _ ih =>
    cases h' with
    | nil => rfl
    | cons hj hrest =>
      rw [List.zip_cons_cons, List.zip_cons_cons, List.all_cons, List.all_cons,
        hfg _ List.mem_cons_self _ List.mem_cons_self hk _ _ hj,
        ih hrest fun k hk o ho => hfg k (List.mem_cons_of_mem _ hk) o (List.mem_cons_of_mem _ ho)]

end Ledger

namespace Books

variable {m : Method} {L : Ledger} {a : CellState} {s : State}

/-- A cell mentions a register if its operand does. -/
theorem mentionsAt (h : Books m L a s) (r : RegisterId) {k : CellId} {o : OperandId} (hk : L.read? k = some o) :
    a.mentionsAt r k = s.mentions r o := by
  have hv := h.content o
  have hlt := h.lt_of_mem_content hk
  have earlier := h.earlier_content (o := o)
  rw [CellState.mentionsAt, State.mentions, h.cell hk]
  have inside : ((a.content o).operands.any fun p => if _h : p.index < k.index then a.mentionsAt r p else false) =
      (s.content o).operands.any fun p => if _h : p.index < o.index then s.mentions r p else false := by
    refine hv.operands.any_eq fun p hp q hq hread => ?_
    have hqo := earlier q hq
    rw [dif_pos (hlt p hp), dif_pos hqo]
    exact h.mentionsAt r hread
  rcases hv.cases with ⟨i, hv, hw⟩ | ⟨e, e', hv, hw⟩ | ⟨e, e', hv, hw⟩ <;> rw [hv, hw] at inside ⊢
  · exact inside
  · exact inside
termination_by o.index

/-- The value of an operand without a register mentions a register if the operand does. -/
theorem mentions (h : Books m L a s) (r : RegisterId) {o : OperandId} (hn : (s.operand o).register = none) :
    a.mentions r (a.operand o).value = s.mentions r o := by
  have hv := h.value o
  have earlier := h.earlier o
  have inside : (a.operand o).value.operands.any (a.mentionsAt r) =
      (s.operand o).value.operands.any fun p => if _h : p.index < o.index then s.mentions r p else false := by
    refine hv.operands.any_eq fun p _ q hq hread => ?_
    rw [dif_pos (earlier q hq)]
    exact h.mentionsAt r hread
  have hcontent : s.content o = (s.operand o).value := by rw [State.content, hn]
  rw [State.mentions, hcontent]
  rcases hv.cases with ⟨i, hv, hw⟩ | ⟨e, e', hv, hw⟩ | ⟨e, e', hv, hw⟩ <;> rw [hv, hw] at inside ⊢
  · rfl
  · exact inside
  · exact inside

/-- Two cells hold the same if their operands stand for the same. -/
theorem alike (h : Books m L a s) {j k : CellId} {o p : OperandId} (hj : L.read? j = some o) (hk : L.read? k = some p) :
    a.alike j k = s.equivalent o p := by
  have hlt := h.lt_of_mem_content hj
  have earlier := h.earlier_content (o := o)
  rw [CellState.alike, State.equivalent, h.cell hj, h.cell hk]
  by_cases hop : o = p
  · -- One operand was substituted twice, and what it stands for was looked into only once.
    subst hop
    rw [BEq.rfl, BEq.rfl, Bool.true_or, Bool.true_and, List.zip, List.zipWith_self, List.all_map, List.all_eq_true]
    intro x hx
    obtain ⟨q, hq, hread⟩ := exists_of_forall₂ (h.content o).operands.flip hx
    have hqo := earlier q hq
    dsimp only [Function.comp_apply]
    rw [dif_pos (hlt x hx), h.alike hread hread, State.equivalent, BEq.rfl, Bool.true_or]
  · rw [beq_eq_false_iff_ne.mpr hop, Bool.false_or, (h.content o).shape, (h.content p).shape]
    refine congrArg _ ((h.content o).operands.all_zip_eq (h.content p).operands fun x hx q hq hread y q' hread' => ?_)
    have hqo := earlier q hq
    dsimp only
    rw [dif_pos (hlt x hx), dif_pos hqo]
    exact h.alike hread hread'
termination_by o.index

/-- Two operands stand for the same with cells exactly if they do without. -/
theorem equivalent (h : Books m L a s) (o p : OperandId) : a.equivalent o p = s.equivalent o p := by
  rw [CellState.equivalent, State.equivalent, (h.content o).shape, (h.content p).shape]
  refine congrArg _ (congrArg _ ((h.content o).operands.all_zip_eq (h.content p).operands fun x hx q hq hread y q' hread' => ?_))
  dsimp only
  rw [dif_pos (h.earlier_content q hq)]
  exact h.alike hread hread'

theorem equivalentStacks (h : Books m L a s) (stack stack' : Stack) :
    a.equivalentStacks stack stack' = s.equivalentStacks stack stack' := by
  have words : ∀ v w, a.equivalentWords v w = s.equivalentWords v w := by
    intro v w
    cases v <;> cases w <;> first | rfl | exact h.equivalent _ _
  simp only [CellState.equivalentStacks, State.equivalentStacks, words]

end Books
end ThreeAddress
