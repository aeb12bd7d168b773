import ThreeAddress.Proofs.Layout.ControlFlow

/-!
# Repeated labels

A visit goes on at the first instruction that is a label, a body at the last one. Where a label stands once this is the same instruction;
where it is repeated, the two agree as long as nothing between its first and its last occurrence has a statement: `targets_of_lower`.
-/

namespace ThreeAddress
namespace Layout.Plan

variable {p : Plan} {b : Body} {keepLines : Bool} {i j k q first last : Nat} {l : Label}

/-- The first occurrence of a label stands before all others. -/
theorem first_le (h : p.method.labelIndex? l = some first) (here : p.method.code[i]? = some (.label l)) : first ≤ i := by
  obtain ⟨_, _, hbefore⟩ := List.findIdx?_eq_some_iff_getElem.mp h
  obtain ⟨hi, hop⟩ := List.getElem?_eq_some_iff.mp here
  by_contra hlt
  exact hbefore i (Nat.lt_of_not_le hlt) (by rw [hop, beq_self_eq_true])

/-- Two instructions have the same entry if and only if none from the first up to the second has a statement. -/
theorem entry_eq_iff (h : i ≤ j) : p.entry i = p.entry j ↔ ∀ k, i ≤ k → k < j → p.run k = [] := by
  constructor
  · intro heq k hik hkj
    by_contra hne
    obtain ⟨q, hq⟩ := List.exists_mem_of_ne_nil _ hne
    have hle := (position_le_iff (i := i) hq).mpr hik
    rw [position_eq_entry, heq, ← position_eq_entry, position_le_iff hq] at hle
    omega
  · intro hempty
    have hunits : ∀ k, i ≤ k → k < j → p.state.unit k = [] := fun k hik hkj => run_eq_nil.mp (hempty k hik hkj)
    by_cases hj : p.isTrailing j
    · have hi : p.isTrailing i := isTrailing_iff.mpr fun k hik => by
        by_cases hkj : k < j
        · exact hunits k hik hkj
        · exact isTrailing_iff.mp hj k (Nat.le_of_not_lt hkj)
      rw [entry_of_isTrailing hi, entry_of_isTrailing hj]
    · have hi : ¬ p.isTrailing i := fun hi => hj (isTrailing_iff.mpr fun k hk => isTrailing_iff.mp hi k (Nat.le_trans h hk))
      rw [entry_of_not_isTrailing hi, entry_of_not_isTrailing hj, unitStart_eq_of_empty h hunits]

/-- A body sends the control that a visit takes to the first occurrence of a label to the entry of the last one. -/
theorem target_eq_entry {t : Nat} (h : p.target l = .ok t) :
    ∃ first last, p.method.labelIndex? l = some first ∧ p.lastLabelIndex? l = some last ∧ first ≤ last ∧ t = p.entry last ∧
      (t = p.entry first ↔ ∀ k, first ≤ k → k < last → p.run k = []) := by
  unfold target at h
  split at h
  · rename_i last hlast
    cases h
    have here := here_of_lastLabelIndex? hlast
    obtain ⟨first, hfirst⟩ := Option.isSome_iff_exists.mp (Method.isSome_labelIndex?.mpr (List.mem_of_getElem? here))
    have hle := first_le hfirst here
    rw [position_eq_entry]
    exact ⟨first, last, hfirst, hlast, hle, rfl, eq_comm.trans (entry_eq_iff hle)⟩
  · cases h

end Layout.Plan

/-- The statement that stands for a branch in a body sends control, for each label of the branch, to the first statement at or behind the
last instruction that is the label. That is where the visit went on, at the first such instruction, exactly as long as no instruction between
the two has a statement; in particular if the label stands once. -/
theorem Method.targets_of_lower {m : Method} {keepLines : Bool} {b : Body} (h : m.lower keepLines = .ok b) :
    ∃ p, m.layout = .ok p ∧ ∀ i op q located, m.code[i]? = some op → (p.run i).getLast? = some q → b.stmts[q]? = some located →
      List.Forall₂ (fun l t => ∃ first last, m.labelIndex? l = some first ∧ p.lastLabelIndex? l = some last ∧ first ≤ last ∧
        t = p.entry last ∧ (t = p.entry first ↔ ∀ k, first ≤ k → k < last → p.run k = [])) op.labels located.stmt.targets := by
  obtain ⟨p, t, hp, rfl, ht, hstate, hl⟩ := lays_of_lower h
  obtain ⟨hx, -⟩ := Traversal.complete_spec ht (Guide.free_begins p.method)
  refine ⟨p, hp, fun i op q located here hq hlocated => ?_⟩
  have flow : p.state.UnitFlow i op := hstate ▸ (hx.coherent.stage i (List.getElem?_eq_some_iff.mp here).1).flow here
  exact (hl.targets_last flow hq hlocated).imp fun l t => Layout.Plan.target_eq_entry

end ThreeAddress
