import Mathlib.Data.List.Nodup
import ThreeAddress.Proofs.Semantics.Entry
import ThreeAddress.Proofs.Traversal.Handlers

/-!
# Numbers of registers

The number of a register is its position among all registers, and a slot in use is listed once. Asking for a slot, creating a register and
declaring what a method receives keep it so, and lowering does nothing else with registers. The registers of a finished body are therefore
all registers, each once, in another order.
-/

namespace ThreeAddress

/-- Every element is left once. -/
theorem nodup_eraseDups {α : Type} [BEq α] [LawfulBEq α] (as : List α) : as.eraseDups.Nodup := by
  match as with
  | [] => exact List.nodup_nil
  | a :: as =>
    rw [List.eraseDups_cons, List.nodup_cons, List.mem_eraseDups, List.mem_filter]
    exact ⟨fun h => by simp at h, nodup_eraseDups _⟩
termination_by as.length
decreasing_by exact Nat.lt_succ_of_le (List.length_filter_le _ _)

namespace Registers

variable {rs rs' : Registers} {k : Nat} {r : RegisterId}

/-- The number of every register is its position, and every slot in use is listed once, with one of these registers. -/
structure Numbered (rs : Registers) : Prop where
  id : ∀ (i : Nat) (x : Register), rs.all[i]? = some x → x.id = ⟨i⟩
  slots : (rs.slots.map (·.1)).Nodup
  lt : ∀ p ∈ rs.slots, p.2.index < rs.all.size

/-! ## What keeps the numbers -/

theorem Numbered.ofMethod (m : Method) : (ofMethod m).Numbered where
  id i x hx := by simp [Registers.ofMethod] at hx
  slots := List.nodup_nil
  lt p hp := by cases hp

theorem Numbered.create (h : rs.Numbered) (name : String) : (rs.create name).2.Numbered where
  id i x hx := by
    simp only [Registers.create, Array.getElem?_push] at hx
    split at hx
    · rename_i hi
      cases hx
      rw [hi]
    · exact h.id i x hx
  slots := h.slots
  lt p hp := by
    rw [Registers.create, Array.size_push]
    exact Nat.lt_succ_of_lt (h.lt p hp)

theorem Numbered.fresh (h : rs.Numbered) : rs.fresh.2.Numbered :=
  have hc := h.create ("$stack" ++ toString (rs.maxLocals + rs.synthesized))
  ⟨hc.id, hc.slots, hc.lt⟩

/-- A slot in use is listed with its register. -/
theorem Numbered.slot?_eq_some (h : rs.Numbered) : rs.slot? k = some r ↔ (k, r) ∈ rs.slots := by
  rw [slot?, Option.map_eq_some_iff]
  constructor
  · rintro ⟨⟨k', r'⟩, hfind, rfl⟩
    obtain rfl : k' = k := by simpa using List.find?_some hfind
    exact List.mem_of_find?_eq_some hfind
  · intro hmem
    cases hfind : rs.slots.find? (·.1 == k) with
    | none => exact absurd (List.find?_eq_none.mp hfind _ hmem) (by simp)
    | some p =>
      have hk : p.1 = k := by simpa using List.find?_some hfind
      rw [List.inj_on_of_nodup_map h.slots (List.mem_of_find?_eq_some hfind) hmem hk]
      exact ⟨_, rfl, rfl⟩

theorem Numbered.slot (h : rs.Numbered) (hs : rs.slot k = .ok (r, rs')) : rs'.Numbered := by
  unfold Registers.slot at hs
  split at hs
  · cases hs
  · split at hs
    · cases hs
      exact h
    · rename_i hnone
      cases hs
      have hc := h.create (rs.slotName k)
      refine ⟨hc.id, ?_, fun p hp => ?_⟩
      · rw [List.map_append, List.nodup_append]
        refine ⟨hc.slots, List.nodup_singleton _, fun k' hk' l hl => ?_⟩
        rw [List.mem_singleton.mp hl]
        rintro rfl
        obtain ⟨⟨k', r'⟩, hmem, rfl⟩ := List.mem_map.mp hk'
        simp [h.slot?_eq_some.mpr hmem] at hnone
      · rcases List.mem_append.mp hp with hold | hnew
        · exact hc.lt p hold
        · rw [List.mem_singleton.mp hnew]
          simp

theorem Numbered.declare {type : ValueType} (h : rs.Numbered) (hd : rs.declare k type = .ok (r, rs')) : rs'.Numbered := by
  simp only [Registers.declare, bind_eq_ok, pure_eq_ok, Prod.mk.injEq] at hd
  obtain ⟨⟨id, rs₁⟩, hs, -, rfl⟩ := hd
  have h₁ := h.slot hs
  refine ⟨fun i x hx => ?_, h₁.slots, fun p hp => by simpa using h₁.lt p hp⟩
  simp only [Array.getElem?_modify] at hx
  split at hx
  · obtain ⟨y, hy, rfl⟩ := Option.map_eq_some_iff.mp hx
    exact h₁.id i y hy
  · exact h₁.id i x hx

theorem Numbered.declareIncoming {received : List Incoming} {stmts : List Located} (h : rs.Numbered)
    (hd : Layout.declareIncoming rs received = .ok (stmts, rs')) : rs'.Numbered := by
  induction received generalizing rs stmts with
  | nil =>
    simp only [Layout.declareIncoming, Except.ok.injEq, Prod.mk.injEq] at hd
    exact hd.2 ▸ h
  | cons i received ih =>
    simp only [Layout.declareIncoming, bind_eq_ok, pure_eq_ok, Prod.mk.injEq] at hd
    obtain ⟨⟨id, rs₁⟩, hi, ⟨rest, rs₂⟩, hrest, -, rfl⟩ := hd
    exact ih (h.declare hi) hrest

/-! ## The registers of a finished body -/

/-- The numbers of the registers in the order of a finished body, some of them more than once. -/
def order (rs : Registers) (leading : List Nat) : List RegisterId :=
  let slotted := rs.slots.mergeSort fun a b => a.1 ≤ b.1
  leading.filterMap rs.slot? ++ (slotted.filter fun p => !leading.contains p.1).map (·.2) ++
    (rs.all.toList.map (·.id)).filter fun id => !(slotted.map (·.2)).contains id

/-- The registers with given numbers. -/
def named (rs : Registers) (ids : List RegisterId) : List Register :=
  ids.filterMap fun id => rs.all[id.index]?

theorem ordered_eq (rs : Registers) (leading : List Nat) : rs.ordered leading = rs.named (rs.order leading).eraseDups :=
  rfl

theorem Numbered.mem_ids (h : rs.Numbered) : r ∈ rs.all.toList.map (·.id) ↔ r.index < rs.all.size := by
  rw [List.mem_map]
  constructor
  · rintro ⟨x, hx, rfl⟩
    obtain ⟨i, hi⟩ := List.getElem?_of_mem hx
    rw [Array.getElem?_toList] at hi
    rw [h.id i x hi]
    exact (Array.getElem?_eq_some_iff.mp hi).1
  · intro hr
    have hget := Array.getElem?_eq_getElem hr
    exact ⟨_, Array.getElem_mem_toList hr, h.id _ _ hget⟩

/-- The order leaves out no register and has no other. -/
theorem Numbered.mem_order (h : rs.Numbered) (leading : List Nat) : r ∈ rs.order leading ↔ r.index < rs.all.size := by
  have slotted : ∀ {p}, p ∈ rs.slots.mergeSort (fun a b => a.1 ≤ b.1) ↔ p ∈ rs.slots := (List.mergeSort_perm _ _).mem_iff
  simp only [order, List.mem_append, List.mem_filterMap, h.slot?_eq_some, List.mem_map, List.mem_filter, slotted]
  constructor
  · rintro ((⟨k, -, hmem⟩ | ⟨p, ⟨hmem, -⟩, rfl⟩) | ⟨hmem, -⟩)
    · exact h.lt _ hmem
    · exact h.lt _ hmem
    · exact h.mem_ids.mp (List.mem_map.mpr hmem)
  · intro hr
    by_cases hslot : ∃ p ∈ rs.slots, p.2 = r
    · -- The register belongs to a slot, which is one of the leading ones or is not.
      obtain ⟨⟨k, _⟩, hmem, rfl⟩ := hslot
      by_cases hk : k ∈ leading
      · exact Or.inl (Or.inl ⟨k, hk, hmem⟩)
      · exact Or.inl (Or.inr ⟨_, ⟨hmem, by simpa using hk⟩, rfl⟩)
    · refine Or.inr ⟨List.mem_map.mp (h.mem_ids.mpr hr), ?_⟩
      simp only [Bool.not_eq_true', ← Bool.not_eq_true, List.contains_iff_mem, List.mem_map, slotted]
      exact hslot

/-- Registers have the numbers by which they are named. -/
theorem Numbered.map_id_named (h : rs.Numbered) {ids : List RegisterId} (hids : ∀ r ∈ ids, r.index < rs.all.size) :
    (rs.named ids).map (·.id) = ids := by
  have found : ∀ r ∈ ids, (rs.all[r.index]?).map (·.id) = some r := by
    intro r hr
    have hget := Array.getElem?_eq_getElem (hids r hr)
    rw [hget, Option.map_some, h.id _ _ hget]
  rw [named, List.map_filterMap]
  exact (List.filterMap_eq_map_iff_forall_eq_some.mpr found).trans (List.map_id _)

/-- The registers of a finished body are in the order of their numbers. -/
theorem Numbered.map_id_ordered (h : rs.Numbered) (leading : List Nat) :
    (rs.ordered leading).map (·.id) = (rs.order leading).eraseDups := by
  rw [ordered_eq]
  exact h.map_id_named fun r hr => (h.mem_order leading).mp (List.mem_eraseDups.mp hr)

/-- A finished body has each of its registers once. -/
theorem Numbered.nodup_ordered (h : rs.Numbered) (leading : List Nat) : ((rs.ordered leading).map (·.id)).Nodup := by
  rw [h.map_id_ordered]
  exact nodup_eraseDups _

/-- A finished body has all registers and no other. -/
theorem Numbered.mem_ordered (h : rs.Numbered) (leading : List Nat) :
    (∃ x ∈ rs.ordered leading, x.id = r) ↔ r.index < rs.all.size := by
  rw [← List.mem_map, h.map_id_ordered, List.mem_eraseDups, h.mem_order]

end Registers

/-! ## Registers while a method is visited -/

variable {m : Method} {shares : Bool} {s s' : State} {P : Registers → Prop}

/-- What is kept when a slot is asked for and when a register is created. -/
structure Registers.Kept (P : Registers → Prop) : Prop where
  slot : ∀ {rs rs' : Registers} {k : Nat} {r : RegisterId}, P rs → rs.slot k = .ok (r, rs') → P rs'
  fresh : ∀ {rs : Registers}, P rs → P rs.fresh.2

theorem Registers.numbered_kept : Registers.Kept Numbered :=
  ⟨Numbered.slot, Numbered.fresh⟩

theorem State.Change.registers (h : State.Change m shares s s') (hP : Registers.Kept P) (hs : P s.registers) : P s'.registers := by
  cases h with
  | slot slot => exact hP.slot hs slot
  | fresh | caught => exact hP.fresh hs
  | _ => exact hs

theorem Changes.registers (h : Changes m shares s s') (hP : Registers.Kept P) (hs : P s.registers) : P s'.registers := by
  induction h with
  | refl => exact hs
  | tail _ hstep ih => exact hstep.registers hP ih

/-- Visits keep what is kept of the registers. -/
def Guide.registers (m : Method) {P : Registers → Prop} (hP : Registers.Kept P) : Guide m true where
  sound s := P s.registers
  admits _ _ _ := True
  withStack _ h := h
  mono _ _ _ _ _ := trivial
  alike _ _ _ _ h := by cases h
  visit _ _ hs _ _ _ hch _ _ := ⟨hch.registers hP hs, fun _ _ => trivial⟩

namespace Traversal

variable {test : EdgeTest} {t : Traversal State}

theorem registers_of_start (hP : Registers.Kept P) (h : start m = .ok t) (begins : P (.ofMethod m)) : P t.state.registers := by
  simp only [start] at h
  split at h
  · cases h
  · split at h
    · cases h
      exact begins
    · simp only [bind_eq_ok] at h
      obtain ⟨⟨k, s⟩, hentries, handlers, -, h⟩ := h
      cases h
      refine Lowering.addHandlerEntries_induction (P := fun _ _ s => P s.registers) hentries begins fun _ _ l s k s' _ hone hs => ?_
      obtain ⟨i, -, ⟨-, -, rfl, -⟩ | ⟨-, rfl, -⟩⟩ := Lowering.addHandlerEntry_cases hone
      · exact hP.fresh hs
      · exact hs

/-- What holds before any register is there, and is kept when a slot is asked for and when a register is created, holds in the end. -/
theorem registers_of_complete (hP : Registers.Kept P) (h : complete test m = .ok t) (begins : P (.ofMethod m)) : P t.state.registers := by
  simp only [complete, bind_eq_ok] at h
  obtain ⟨t₀, hstart, hrun⟩ := h
  have hx := start_spec hstart (Guide.free_begins m)
  have hguided : t₀.Explored (Guide.registers m hP) fun _ _ => False :=
    hx.guided (registers_of_start hP hstart begins) fun _ _ => trivial
  exact (run_spec hrun hguided).1.sound

end Traversal
end ThreeAddress
