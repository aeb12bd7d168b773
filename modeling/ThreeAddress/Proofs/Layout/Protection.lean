import ThreeAddress.Proofs.Layout.Bodies

/-!
# Protected regions

A trap covers the statements of exactly those instructions that stand between the labels of its entry in the exception table. A value that
stays unevaluated until it is stored is evaluated by a statement of the store, so that it is the place of the store that counts.
-/

namespace ThreeAddress

open State

namespace Layout.Plan

variable {p : Plan} {e : ExceptionEntry} {trap : Trap}

/-- The labels of an entry stand in the code, and a statement lies in its region exactly if its instruction stands between them. -/
theorem covers_iff (hd : p.method.LabelsDistinct) (h : p.trap e = .ok trap) :
    ∃ first last, p.method.labelIndex? e.first = some first ∧ p.method.labelIndex? e.last = some last ∧
      ∀ i q, q ∈ p.run i → ((trap.first ≤ q ∧ q < trap.last) ↔ (first ≤ i ∧ i < last)) := by
  simp only [Plan.trap, bind_eq_ok, pure_eq_ok, target_eq_ok hd] at h
  obtain ⟨_, -, _, ⟨first, hfirst, rfl⟩, _, ⟨last, hlast, rfl⟩, rfl⟩ := h
  exact ⟨first, last, hfirst, hlast, fun i q hq =>
    and_congr (position_le_iff hq) (by rw [← Nat.not_le, position_le_iff hq, Nat.not_le])⟩

end Layout.Plan

/-- In a method that is lowered and whose labels are distinct, the trap of each entry of the exception table covers, of the statements of
instructions, exactly those whose instruction lies between the labels of the entry. -/
theorem Method.protected_of_lower {m : Method} {keepLines : Bool} {b : Body} (h : m.lower keepLines = .ok b) (hd : m.LabelsDistinct) :
    ∃ p, m.layout = .ok p ∧ p.Lays keepLines b ∧ List.Forall₂ (fun e trap => ∃ first last, m.labelIndex? e.first = some first ∧
      m.labelIndex? e.last = some last ∧ ∀ i q, q ∈ p.run i → ((trap.first ≤ q ∧ q < trap.last) ↔ (first ≤ i ∧ i < last)))
      m.exceptions b.traps := by
  obtain ⟨p, t, hp, rfl, -, -, hl⟩ := lays_of_lower h
  exact ⟨p, hp, hl, hl.traps.imp fun e trap htrap => Layout.Plan.covers_iff hd htrap⟩

end ThreeAddress
