import ThreeAddress.Lowering.Traversal

/-!
# Labels

Which labels an operation names, where labels stand in the code, and when the look-up of a label succeeds.
-/

namespace ThreeAddress

/-! ## Labels that are named -/

/-- The label of a case, by the number of the case. -/
def Cases.label? : Cases → Nat → Option Label
  | .lookup pairs, n => pairs[n]?.map (·.2)
  | .table _ _ targets, n => targets[n]?

/-- The labels that an operation names, in order: those of the cases of a switch come before its default. -/
def Operation.labels : Operation → List Label
  | .branch _ _ _ target | .jump target => [target]
  | .switch default (.lookup pairs) => pairs.map (·.2) ++ [default]
  | .switch default (.table _ _ targets) => targets ++ [default]
  | _ => []

/-- The labels of the cases are listed in order. -/
theorem Cases.getElem?_targets (cases : Cases) (n : Nat) : cases.targets[n]? = cases.label? n := by
  cases cases with
  | lookup pairs => exact List.getElem?_map
  | table low high targets => rfl

theorem Cases.mem_cons_targets {cases : Cases} {default l : Label} :
    l ∈ default :: cases.targets ↔ l = default ∨ ∃ n, cases.label? n = some l := by
  rw [List.mem_cons, List.mem_iff_getElem?]
  simp only [getElem?_targets]

/-- An operation may transfer control to the labels that it names. -/
theorem Operation.jumpTargets_eq (op : Operation) : op.jumpTargets = op.labels := by
  cases op with
  | «switch» default cases => cases cases <;> rfl
  | _ => rfl

theorem Operation.mem_labels_switch {default l : Label} {cases : Cases} :
    l ∈ (switch default cases).labels ↔ l = default ∨ ∃ n, cases.label? n = some l := by
  rw [← jumpTargets_eq, jumpTargets, ← Cases.mem_cons_targets, List.mem_append, List.mem_singleton, List.mem_cons, or_comm]

/-! ## Labels in the code -/

namespace Method

variable {m : Method} {l : Label} {i j : Nat}

/-- No label stands at two places. -/
def LabelsDistinct (m : Method) : Prop :=
  ∀ (l : Label) (i j : Nat), m.code[i]? = some (.label l) → m.code[j]? = some (.label l) → i = j

/-- The instruction that a label names is the label. -/
theorem here_of_labelIndex? (h : m.labelIndex? l = some i) : m.code[i]? = some (.label l) := by
  obtain ⟨hlt, hl, -⟩ := List.findIdx?_eq_some_iff_getElem.mp h
  rw [List.getElem?_eq_getElem hlt, beq_iff_eq.mp hl]

/-- A label that occurs in the code names an instruction. -/
theorem isSome_labelIndex? : (m.labelIndex? l).isSome ↔ .label l ∈ m.code := by
  simp [labelIndex?]

/-- Where no label stands twice, a label names each instruction that is the label. -/
theorem LabelsDistinct.labelIndex? (h : m.LabelsDistinct) : m.labelIndex? l = some i ↔ m.code[i]? = some (.label l) := by
  refine ⟨here_of_labelIndex?, fun hi => ?_⟩
  obtain ⟨j, hj⟩ := Option.isSome_iff_exists.mp (isSome_labelIndex?.mpr (List.mem_of_getElem? hi))
  rw [hj, h l j i (here_of_labelIndex? hj) hi]

/-- Every label names the instruction at which it stands. -/
def namesItself (m : Method) : Operation × Nat → Bool
  | (.label l, i) => m.labelIndex? l == some i
  | _ => true

instance : Decidable m.LabelsDistinct :=
  decidable_of_iff (∀ x ∈ m.code.zipIdx, m.namesItself x) <| by
    constructor
    · intro h l i j hi hj
      have hi' := h (.label l, i) (List.mem_zipIdx_iff_getElem?.mpr hi)
      have hj' := h (.label l, j) (List.mem_zipIdx_iff_getElem?.mpr hj)
      simp only [namesItself, beq_iff_eq] at hi' hj'
      rw [hi', Option.some.injEq] at hj'
      exact hj'
    · rintro h ⟨op, i⟩ hx
      cases op with
      | label l =>
        simp only [namesItself, beq_iff_eq]
        exact h.labelIndex?.mpr (List.mem_zipIdx_iff_getElem?.mp hx)
      | _ => rfl

/-- The labels of handlers are those that entries of the exception table name. -/
theorem mem_handlerLabels : l ∈ m.handlerLabels ↔ ∃ e ∈ m.exceptions, e.handler = l := by
  rw [handlerLabels, List.mem_eraseDups, List.mem_map]

/-- The label of an entry of the exception table is referred to. -/
theorem mem_referredLabels_of_mem_handlerLabels (h : l ∈ m.handlerLabels) : l ∈ m.referredLabels := by
  obtain ⟨e, he, rfl⟩ := mem_handlerLabels.mp h
  exact List.mem_append_left _ (List.mem_flatMap.mpr ⟨e, he, by simp⟩)

/-- The code from an operation on begins with that operation. -/
theorem here_of_drop {op : Operation} {ops : List Operation} (h : m.code.drop i = op :: ops) : m.code[i]? = some op ∧ m.code.drop (i + 1) = ops := by
  constructor
  · rw [← Nat.add_zero i, ← List.getElem?_drop, h]
    rfl
  · rw [← List.drop_drop, h]
    rfl

/-- The labels that operations name are referred to. -/
theorem mem_referredLabels_of_mem_labels {op : Operation} (here : m.code[i]? = some op) (h : l ∈ op.labels) : l ∈ m.referredLabels :=
  List.mem_append_right _ (List.mem_flatMap.mpr ⟨op, List.mem_of_getElem? here, op.jumpTargets_eq ▸ h⟩)

/-- A label is a target if some operation names it. -/
theorem isJumpTarget_iff : m.isJumpTarget l ↔ ∃ op ∈ m.code, l ∈ op.labels := by
  simp only [isJumpTarget, List.any_eq_true, List.contains_iff_mem, Operation.jumpTargets_eq]

end Method

namespace Lowering

theorem labelIndex_eq_ok {m : Method} {l : Label} {i : Nat} : labelIndex m l = .ok i ↔ m.labelIndex? l = some i := by
  unfold labelIndex
  split <;> simp_all

/-- Every label that is referred to occurs in the code, unless one is found that does not. -/
theorem undefinedLabel?_eq_none {m : Method} : undefinedLabel? m = none ↔ ∀ l ∈ m.referredLabels, (m.labelIndex? l).isSome := by
  simp [undefinedLabel?, Option.isSome_iff_ne_none]

end Lowering
end ThreeAddress
