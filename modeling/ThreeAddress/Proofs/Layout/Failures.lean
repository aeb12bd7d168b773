import ThreeAddress.Proofs.Layout.Positions
import ThreeAddress.Proofs.Traversal.Termination

/-!
# Why lowering a method fails

Once nothing is left to visit, every statement can be finished and every label looked up, so that laying out a body fails for an undeclared
slot of the receiver or a parameter and for nothing else. With what was said of visiting: a method that names only labels of its code is
rejected for what it does, and never because lowering lost track of its own work.
-/

namespace ThreeAddress
namespace Layout

open State

variable {m : Method} {f : Fault}

/-- Declaring what a method receives fails for a slot that the method does not have. -/
theorem declareIncoming_eq_error {rs : Registers} {received : List Incoming} (h : declareIncoming rs received = .error f) :
    ∃ k bound, f = .invalidLocal k bound := by
  induction received generalizing rs with
  | nil => cases h
  | cons i rest ih =>
    simp only [declareIncoming, Registers.declare, bind_eq_error, pure_ne_error, and_false, exists_false, or_false] at h
    rcases h with h | ⟨_, -, h⟩
    · unfold Registers.slot at h
      split at h
      · cases h
        exact ⟨_, _, rfl⟩
      · split at h <;> cases h
    · exact ih h

namespace Plan

variable {p : Plan} {q : Placed} {lines : List (Option Nat)}

/-- A label that occurs in the code does not fail to be looked up. -/
theorem target_ne_error {l : Label} (h : (p.method.labelIndex? l).isSome) : p.target l ≠ .error f := by
  obtain ⟨k, hk⟩ := exists_target h
  rw [hk]
  simp

/-- Whatever is placed can be finished. -/
theorem finish_ne_error_of_mem_placed (hc : p.state.Coherent p.method) (hs : p.state.Settled) (hf : p.state.EntriesFit p.method)
    (hl : ∀ l ∈ p.method.referredLabels, (p.method.labelIndex? l).isSome) (hq : q ∈ p.placed lines) :
    p.finish q.insn q.draft ≠ .error f := by
  rcases mem_placed hq with ⟨hlt, hd⟩ | ⟨e, he, hd⟩ | hd
  · have hi : q.insn < p.method.code.length := hc.units_size ▸ hlt
    have here := List.getElem?_eq_getElem hi
    refine finish_ne_error (hc.fits hs hi hd) fun l hmem => exists_target (hl l ?_)
    exact Method.mem_referredLabels_of_mem_labels here (((hc.stage _ hi).flow here).labels_subset hd l hmem)
  · obtain ⟨hfind, -, hlabel⟩ := hf e he
    rcases hd with hd | hd <;> rw [hd]
    · exact finish_ne_error (hc.entry _ e hfind).2.2.2.1 fun l hmem => (by cases hmem)
    · refine finish_ne_error (fun o ho => (by cases ho)) fun l hmem => exists_target ?_
      rw [List.mem_singleton.mp hmem, hlabel, Option.isSome_some]
  · rw [hd]
    exact finish_ne_error (fun o ho => (by cases ho)) fun l hmem => (by cases hmem)

/-- Every entry of the exception table has a protected region and a statement that handles the exception. -/
theorem trap_ne_error {e : ExceptionEntry} (hl : ∀ l ∈ p.method.referredLabels, (p.method.labelIndex? l).isSome)
    (he : e ∈ p.method.exceptions) : p.trap e ≠ .error f := by
  have lookup : ∀ l ∈ [e.first, e.last, e.handler], p.target l ≠ .error f := fun l hmem =>
    target_ne_error (hl l (List.mem_append_left _ (List.mem_flatMap.mpr ⟨e, he, hmem⟩)))
  intro h
  simp only [trap, bind_eq_error, pure_ne_error, and_false, exists_false, or_false] at h
  rcases h with h | ⟨_, -, h | ⟨_, -, h⟩⟩
  · unfold handlerTarget at h
    split at h
    · cases h
    · split at h
      · cases h
      · exact lookup e.handler (by simp) h
  · exact lookup e.first (by simp) h
  · exact lookup e.last (by simp) h

end Plan

/-- Laying out the body of a method whose code was visited fails where what the method receives is declared, and nowhere else. -/
theorem declareIncoming_of_body {s : State} {keepLines : Bool} (hc : s.Coherent m) (hs : s.Settled) (hf : s.EntriesFit m)
    (hl : ∀ l ∈ m.referredLabels, (m.labelIndex? l).isSome) (h : body m keepLines s = .error f) :
    declareIncoming s.registers (incoming m) = .error f := by
  simp only [body, bind_eq_error, pure_ne_error, and_false, exists_false, or_false] at h
  rcases h with h | ⟨_, -, h | ⟨_, -, h⟩⟩
  · exact h
  · obtain ⟨q, hq, h⟩ := error_of_mapM h
    simp only [bind_eq_error, pure_ne_error, and_false, exists_false, or_false] at h
    exact absurd h (Plan.finish_ne_error_of_mem_placed hc hs hf hl hq)
  · obtain ⟨e, he, h⟩ := error_of_mapM h
    exact absurd h (Plan.trap_ne_error hl he)

end Layout

namespace Method

open Traversal

/-- A method is rejected with the fault that visiting or laying it out ends with, and with its text. -/
theorem lower_eq_error {m : Method} {keepLines : Bool} {failure : Failure} :
    m.lower keepLines = .error failure ↔ failure.method = m.text ∧ (complete (S := State) .pendingFirst m = .error failure.fault ∨
      ∃ t : Traversal State, complete .pendingFirst m = .ok t ∧ Layout.body m keepLines t.state = .error failure.fault) := by
  rw [← bind_eq_error]
  obtain ⟨text, fault⟩ := failure
  simp only [lower, lowerBy]
  cases complete .pendingFirst m >>= fun t => Layout.body m keepLines t.state <;> simp [Except.mapError, eq_comm, and_comm]

/-- A method whose labels all occur in its code is rejected for no fault of lowering itself. -/
theorem isInternal_of_lower {m : Method} {keepLines : Bool} {failure : Failure}
    (hl : ∀ l ∈ m.referredLabels, (m.labelIndex? l).isSome) (h : m.lower keepLines = .error failure) :
    failure.fault.isInternal = false := by
  obtain ⟨-, h | ⟨t, ht, h⟩⟩ := lower_eq_error.mp h
  · exact isInternal_of_complete hl h
  · obtain ⟨hx, -⟩ := complete_spec ht (Guide.free_begins m)
    obtain ⟨k, bound, hf⟩ := Layout.declareIncoming_eq_error (Layout.declareIncoming_of_body hx.coherent hx.settled hx.fit hl h)
    rw [hf]
    rfl

/-- A method that names a label which does not occur in its code is rejected for the first such label. -/
theorem lower_of_undefinedLabel {m : Method} {l : Label} (keepLines : Bool) (h : Lowering.undefinedLabel? m = some l) :
    m.lower keepLines = .error ⟨m.text, .undefinedLabel l⟩ := by
  rw [lower_eq_error]
  refine ⟨rfl, Or.inl ?_⟩
  rw [complete, bind_eq_error]
  left
  simp [start, h]

/-- No method fails the checks that lowering makes of its own work, and a method is rejected for an undefined label exactly when it refers
to a label that does not occur in its code. -/
theorem internal_checks_pass (m : Method) (keepLines : Bool) :
    (∀ failure, m.lower keepLines = .error failure → ∀ insn, failure.fault ≠ .unitCollision insn ∧ failure.fault ≠ .notImmediate insn ∧
      failure.fault ≠ .missingDefinition insn) ∧
    ((∃ failure l, m.lower keepLines = .error failure ∧ failure.fault = .undefinedLabel l) ↔
      ∃ l ∈ m.referredLabels, Operation.label l ∉ m.code) := by
  cases hu : Lowering.undefinedLabel? m with
  | none =>
    have hl := Lowering.undefinedLabel?_eq_none.mp hu
    refine ⟨fun failure h insn => ?_, iff_of_false ?_ ?_⟩
    · have hf := isInternal_of_lower hl h
      refine ⟨?_, ?_, ?_⟩ <;> intro he <;> rw [he] at hf <;> cases hf
    · rintro ⟨failure, l, h, he⟩
      have hf := isInternal_of_lower hl h
      rw [he] at hf
      cases hf
    · rintro ⟨l, hmem, hnot⟩
      exact hnot (isSome_labelIndex?.mp (hl l hmem))
  | some l =>
    have hlower := lower_of_undefinedLabel keepLines hu
    refine ⟨fun failure h insn => ?_, iff_of_true ⟨_, l, hlower, rfl⟩ ⟨l, List.mem_of_find?_eq_some hu, ?_⟩⟩
    · rw [hlower] at h
      cases h
      simp
    · have hnone := List.find?_some hu
      rw [← isSome_labelIndex?]
      simpa using hnone

end Method
end ThreeAddress
