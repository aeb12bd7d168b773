import ThreeAddress.Proofs.Lowering.Updates
import ThreeAddress.Proofs.Semantics.BodyMachine
import ThreeAddress.Proofs.Semantics.StackMachine

/-!
# The beginning of a body

A body begins with the identities of what the method receives. They put the receiver and the parameters into the registers of the slots in
which the stack machine finds them, one after the other.
-/

namespace ThreeAddress

open Layout

variable {V H : Type} {M : Meaning V H} {args : Arguments V} {b : Body}

/-! ## Registers of declared slots -/

namespace Registers

/-- Every slot in use has a register of its own. -/
structure Apart (rs : Registers) : Prop where
  lt : ∀ k r, rs.slot? k = some r → r.index < rs.all.size
  inj : ∀ k k' r, rs.slot? k = some r → rs.slot? k' = some r → k = k'

/-- Slots in use keep their registers, and slots that come into use get new ones. -/
structure Grows (rs rs' : Registers) : Prop where
  size : rs.all.size ≤ rs'.all.size
  keeps : ∀ k r, rs.slot? k = some r → rs'.slot? k = some r
  new : ∀ k r, rs'.slot? k = some r → rs.slot? k = some r ∨ rs.all.size ≤ r.index

variable {rs rs' rs'' : Registers} {k : Nat} {r : RegisterId} {type : ValueType}

theorem Grows.refl (rs : Registers) : rs.Grows rs :=
  ⟨Nat.le_refl _, fun _ _ h => h, fun _ _ h => Or.inl h⟩

theorem Grows.trans (h : rs.Grows rs') (h' : rs'.Grows rs'') : rs.Grows rs'' where
  size := Nat.le_trans h.size h'.size
  keeps k r hr := h'.keeps k r (h.keeps k r hr)
  new k r hr := by
    rcases h'.new k r hr with hold | hnew
    · exact h.new k r hold
    · exact Or.inr (Nat.le_trans h.size hnew)

/-- A register that was made for an operand belongs to no slot, nor to one that comes into use later. -/
theorem Grows.slot?_ne {s : State} (h : s.registers.Grows rs) (hr : s.Synthesized r) : rs.slot? k ≠ some r := by
  intro hk
  rcases h.new k r hk with hold | hnew
  · exact hr.2 k hold
  · exact absurd hr.1 (Nat.not_lt.mpr hnew)

/-- Declaring a slot asks for its register and notes the type. -/
theorem slot_of_declare (h : rs.declare k type = .ok (r, rs')) :
    ∃ rs₁, rs.slot k = .ok (r, rs₁) ∧ rs'.slots = rs₁.slots ∧ rs'.all.size = rs₁.all.size := by
  simp only [declare, bind_eq_ok, pure_eq_ok, Prod.mk.injEq] at h
  obtain ⟨⟨id, rs₁⟩, hs, rfl, rfl⟩ := h
  exact ⟨rs₁, hs, rfl, by simp⟩

/-- A declared slot has a register of its own. -/
theorem Apart.declare (h : rs.Apart) (hd : rs.declare k type = .ok (r, rs')) :
    rs'.Apart ∧ rs.Grows rs' ∧ rs'.slot? k = some r := by
  obtain ⟨rs₁, hs, hslots, hsize⟩ := slot_of_declare hd
  have hslot : ∀ k, rs'.slot? k = rs₁.slot? k := fun k => by simp only [slot?, hslots]
  have hnew : ∀ {k' r'}, rs'.slot? k' = some r' →
      rs.slot? k' = some r' ∨ (k' = k ∧ r'.index = rs.all.size ∧ rs'.all.size = rs.all.size + 1) := by
    intro k' r' hr'
    rw [hslot] at hr'
    rw [hsize]
    exact slot?_slot hs hr'
  have hle : rs.all.size ≤ rs'.all.size := hsize ▸ size_le_slot hs
  refine ⟨⟨?_, ?_⟩, ⟨hle, ?_, ?_⟩, by rw [hslot, slot?_self hs]⟩
  · intro k' r' hr'
    rcases hnew hr' with hold | ⟨-, hidx, hsz⟩
    · exact Nat.lt_of_lt_of_le (h.lt k' r' hold) hle
    · omega
  · intro k₁ k₂ r' h₁ h₂
    rcases hnew h₁ with o₁ | ⟨e₁, i₁, -⟩ <;> rcases hnew h₂ with o₂ | ⟨e₂, i₂, -⟩
    · exact h.inj k₁ k₂ r' o₁ o₂
    · exact absurd (h.lt k₁ r' o₁) (by omega)
    · exact absurd (h.lt k₂ r' o₂) (by omega)
    · rw [e₁, e₂]
  · intro k' r' hr'
    rw [hslot]
    exact slot?_of_slot hs hr'
  · intro k' r' hr'
    rcases hnew hr' with hold | ⟨-, hidx, -⟩
    · exact Or.inl hold
    · exact Or.inr (Nat.le_of_eq hidx.symm)

/-- Declaring what a method receives leaves every slot with a register of its own. -/
theorem Apart.declareIncoming {incoming : List Incoming} {stmts : List Located} (h : rs.Apart)
    (hd : declareIncoming rs incoming = .ok (stmts, rs')) : rs'.Apart ∧ rs.Grows rs' := by
  induction incoming generalizing rs stmts with
  | nil =>
    simp only [Layout.declareIncoming, Except.ok.injEq, Prod.mk.injEq] at hd
    obtain ⟨-, rfl⟩ := hd
    exact ⟨h, .refl rs⟩
  | cons i incoming ih =>
    simp only [Layout.declareIncoming, bind_eq_ok, pure_eq_ok, Prod.mk.injEq] at hd
    obtain ⟨⟨id, rs₁⟩, hi, ⟨rest, rs₂⟩, hrest, -, rfl⟩ := hd
    obtain ⟨h₁, hg₁, -⟩ := h.declare hi
    obtain ⟨h₂, hg₂⟩ := ih h₁ hrest
    exact ⟨h₂, hg₁.trans hg₂⟩

end Registers

/-! ## What the machines receive -/

/-- The local slots with what a method receives put in, one after the other. -/
def Arguments.receive (args : Arguments V) : List Incoming → (Nat → V) → Nat → V
  | [], locals => locals
  | i :: rest, locals => args.receive rest (Function.update locals i.slot ((args.value? i.source).getD (locals i.slot)))

/-- The stack machine begins with what the method receives in its slots. -/
theorem Arguments.locals_eq_receive (args : Arguments V) (m : Method) (locals : Nat → V) :
    args.locals m locals = args.receive (incoming m) locals := by
  have params : ∀ (ts : List ValueType) (k slot : Nat) (locals : Nat → V),
      args.receive (incomingParams k slot ts) locals = args.place k slot ts locals := by
    intro ts
    induction ts with
    | nil => exact fun _ _ _ => rfl
    | cons t ts ih =>
      intro k slot locals
      rw [incomingParams, Arguments.receive, ih]
      rfl
  unfold Arguments.locals incoming
  split
  · exact (params _ _ _ _).symm
  · exact (params _ _ _ _).symm

/-- The identities put what is received into the registers of its slots, and show nothing. -/
theorem goes_identities {incoming : List Incoming} {rs rs' : Registers} {stmts : List Located} {locals : Nat → V} (τ : BodyState V H)
    (h : declareIncoming rs incoming = .ok (stmts, rs')) (hrs : rs.Apart) (sources : ∀ i ∈ incoming, (args.value? i.source).isSome)
    (hstmts : ∀ (j : Nat) (x : Located), stmts[j]? = some x → b.stmts[τ.position + j]? = some x)
    (hregs : ∀ k r, rs'.slot? k = some r → τ.regs r = locals k) :
    ∃ regs, Goes (BodyState.step M args b) stmts.length τ [] { position := τ.position + stmts.length, regs, heap := τ.heap } ∧
      ∀ k r, rs'.slot? k = some r → regs r = args.receive incoming locals k := by
  induction incoming generalizing rs stmts locals τ with
  | nil =>
    simp only [declareIncoming, Except.ok.injEq, Prod.mk.injEq] at h
    obtain ⟨rfl, rfl⟩ := h
    exact ⟨τ.regs, .refl _ τ, hregs⟩
  | cons i incoming ih =>
    simp only [declareIncoming, bind_eq_ok, pure_eq_ok, Prod.mk.injEq] at h
    obtain ⟨⟨id, rs₁⟩, hi, ⟨rest, rs₂⟩, hrest, rfl, rfl⟩ := h
    obtain ⟨hrs₁, -, hid⟩ := hrs.declare hi
    obtain ⟨hrs₂, hgrows⟩ := hrs₁.declareIncoming hrest
    obtain ⟨v, hv⟩ := Option.isSome_iff_exists.mp (sources i (by simp))
    have hstep : BodyState.step M args b τ = .next none (τ.assign id v) := by
      have hhere := hstmts 0 _ rfl
      rw [Nat.add_zero] at hhere
      simp only [BodyState.step, hhere, BodyState.execute, hv]
    -- The register of the slot belongs to no other slot.
    have hregs₁ : ∀ k r, rs₂.slot? k = some r → (τ.assign id v).regs r = Function.update locals i.slot v k := by
      intro k r hk
      have hself := hgrows.keeps _ _ hid
      by_cases hki : k = i.slot
      · subst hki
        obtain rfl := Option.some.inj (hself.symm.trans hk)
        rw [Function.update_self]
        exact Function.update_self ..
      · have hr : r ≠ id := by
          rintro rfl
          exact hki (hrs₂.inj _ _ _ hk hself)
        rw [Function.update_of_ne hki, ← hregs k r hk]
        exact Function.update_of_ne hr ..
    obtain ⟨regs, hgoes, hagree⟩ := ih (τ.assign id v) hrest hrs₁ (fun i hi => sources i (by simp [hi]))
      (fun j x hx => by
        have := hstmts (j + 1) x (by simpa using hx)
        rwa [Nat.add_comm j 1, ← Nat.add_assoc] at this) hregs₁
    refine ⟨regs, ?_, fun k r hr => ?_⟩
    · have hall := (Goes.single hstep).trans hgoes
      have hposition : (τ.assign id v).position + rest.length = τ.position + (rest.length + 1) := by
        simp only [BodyState.assign, BodyState.advance]
        omega
      rw [hposition, Nat.add_comm 1] at hall
      exact hall
    · rw [hagree k r hr, Arguments.receive, hv, Option.getD_some]

end ThreeAddress
