import ThreeAddress.Proofs.Layout.Acceptance
import ThreeAddress.Proofs.Layout.Receiving

/-!
# Whether what a method receives fits

The receiver and the parameters are declared one behind the other, each from the slot behind the words of those before it. Only the slot in
which a value begins is looked at. So a method is rejected for the first value that begins behind its slots, and of a method that is
accepted at most the second word of the last parameter stands there.
-/

namespace ThreeAddress

open Layout Traversal

variable {m : Method} {keepLines : Bool} {b : Body} {rs : Registers} {received : List Incoming} {i : Incoming} {k : Nat} {type : ValueType}

/-! ## Declaring -/

theorem Registers.declare_of_le (h : rs.maxLocals ≤ k) : rs.declare k type = .error (.invalidLocal k rs.maxLocals) := by
  rw [declare, slot, if_pos h]
  rfl

namespace Layout

/-- The first value that begins behind all slots is the one that declaring fails for. -/
theorem declareIncoming_of_find? (h : received.find? (rs.maxLocals ≤ ·.slot) = some i) :
    declareIncoming rs received = .error (.invalidLocal i.slot rs.maxLocals) := by
  induction received generalizing rs with
  | nil => cases h
  | cons j received ih =>
    rw [List.find?_cons] at h
    split at h
    · rename_i hj
      cases h
      rw [declareIncoming, Registers.declare_of_le (of_decide_eq_true hj)]
      rfl
    · rename_i hj
      obtain ⟨r, rs', hdeclare, hmax⟩ := Registers.exists_declare (Nat.lt_of_not_le (of_decide_eq_false hj)) j.type
      rw [← hmax] at h ⊢
      simp only [declareIncoming, bind_eq_error]
      exact Or.inr ⟨(r, rs'), hdeclare, Or.inl (ih h)⟩

/-- What is declared begins in slots that there are. -/
theorem slot_lt_of_declareIncoming {p : List Located × Registers} (h : declareIncoming rs received = .ok p) (hi : i ∈ received) :
    i.slot < rs.maxLocals := by
  cases hfind : received.find? (rs.maxLocals ≤ ·.slot) with
  | none => simpa using List.find?_eq_none.mp hfind i hi
  | some j =>
    rw [declareIncoming_of_find? hfind] at h
    cases h

end Layout

/-! ## Methods -/

namespace Method

/-- The words of the receiver and the parameters, and the slot behind them. -/
def receivedWords (m : Method) : Nat :=
  m.paramSlot m.signature.params.length

theorem maxLocals_of_complete {test : EdgeTest} {t : Traversal State} (h : complete test m = .ok t) :
    t.state.registers.maxLocals = m.maxLocals := by
  refine registers_of_complete (P := fun rs => rs.maxLocals = m.maxLocals) ⟨fun hrs hs => ?_, fun hrs => hrs⟩ h rfl
  exact (Registers.maxLocals_slot hs).trans hrs

/-- Behind values that begin in slots of the method, the running slot is at most one word further. -/
theorem paramSlot_succ_le {t : ValueType} (ht : m.signature.params[k]? = some t) (hk : m.paramSlot k < m.maxLocals) :
    m.paramSlot (k + 1) ≤ m.maxLocals + 1 ∧
      (m.maxLocals < m.paramSlot (k + 1) → t.isWide ∧ m.paramSlot (k + 1) = m.maxLocals + 1) := by
  have hnext : m.paramSlot (k + 1) = m.paramSlot k + t.size := by
    rw [paramSlot, paramSlot, List.take_add_one, ht, Option.toList_some, List.map_append, List.sum_append, List.map_singleton,
      List.sum_singleton, Nat.add_assoc]
  have hsize : t.size ≤ 2 := by cases t <;> simp [ValueType.size]
  refine ⟨by omega, fun hlt => ⟨?_, by omega⟩⟩
  rw [ValueType.isWide, beq_iff_eq]
  omega

/-- Of what an accepted method receives every value begins in a slot of the method. The words fit, unless the last parameter is wide and
begins in the last slot. -/
theorem received_fit_of_lower (h : m.lower keepLines = .ok b) :
    (∀ k ∈ m.receivedSlots, k < m.maxLocals) ∧
    (m.maxLocals < m.receivedWords → m.receivedWords = m.maxLocals + 1 ∧ ∃ t, m.signature.params.getLast? = some t ∧ t.isWide) := by
  obtain ⟨t, ht, hbody⟩ := lower_eq_ok.mp h
  simp only [body, bind_eq_ok] at hbody
  obtain ⟨p, hdeclare, -⟩ := hbody
  have declared : ∀ i ∈ incoming m, i.slot < m.maxLocals := fun i hi =>
    maxLocals_of_complete ht ▸ slot_lt_of_declareIncoming hdeclare hi
  refine ⟨fun k hk => ?_, fun hlt => ?_⟩
  · obtain ⟨i, hi, rfl⟩ := List.mem_map.mp hk
    exact declared i hi
  · unfold receivedWords at hlt ⊢
    cases hn : m.signature.params.length with
    | zero =>
      -- One word for the receiver fits if it begins in a slot at all.
      have hwords : m.paramSlot 0 = m.receiverWords := rfl
      rw [hn, hwords, receiverWords] at hlt
      split at hlt
      · omega
      · have := declared _ (List.mem_of_getElem? (getElem?_incoming_this (Bool.eq_false_iff.mpr ‹_›)))
        dsimp only at this
        omega
    | succ k =>
      obtain ⟨t, hlast⟩ : ∃ t, m.signature.params[k]? = some t := ⟨_, List.getElem?_eq_getElem (by omega)⟩
      have hk : m.paramSlot k < m.maxLocals :=
        declared _ (List.mem_of_getElem? ((getElem?_incoming_param k).trans (by rw [hlast]; rfl)))
      rw [hn] at hlt
      obtain ⟨hwide, heq⟩ := (paramSlot_succ_le hlast hk).2 hlt
      exact ⟨heq, t, by rw [List.getLast?_eq_getElem?, hn]; exact hlast, hwide⟩

/-- A method whose code is visited to its end is rejected for the first value that begins behind its slots. -/
theorem lower_of_undeclared {t : Traversal State} (h : complete .pendingFirst m = .ok t) (hk : m.receivedSlots.find? (m.maxLocals ≤ ·) = some k)
    (keepLines : Bool) : m.lower keepLines = .error ⟨m.text, .invalidLocal k m.maxLocals⟩ := by
  have hmax := maxLocals_of_complete h
  obtain ⟨i, hi, rfl⟩ : ∃ i, (incoming m).find? (m.maxLocals ≤ ·.slot) = some i ∧ i.slot = k := by
    rw [receivedSlots, List.find?_map] at hk
    exact Option.map_eq_some_iff.mp hk
  rw [← hmax] at hi ⊢
  refine lower_eq_error.mpr ⟨rfl, Or.inr ⟨t, h, ?_⟩⟩
  rw [body, bind_eq_error]
  exact Or.inl (declareIncoming_of_find? hi)

end Method
end ThreeAddress
