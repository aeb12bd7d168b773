import ThreeAddress.Proofs.Layout.Bodies
import ThreeAddress.Proofs.Layout.Numbering
import ThreeAddress.Proofs.Lowering.LocalSlots

/-!
# What a method receives, and the order of registers

Registers of local slots are made in the order in which the code is visited; what the method receives is declared only when the body is laid
out. `Method.Receives` says what comes of that: the receiver and the parameters are bound to the registers that loads and stores of their
slots use, and these registers come first, with their declared types, followed by those of the other slots by index and by the remaining
ones in the order in which they were made.
-/

namespace ThreeAddress

open State Layout

/-- Nothing is left out of a list without repetition. -/
theorem eraseDups_of_nodup {α : Type} [BEq α] [LawfulBEq α] {as : List α} (h : as.Nodup) : as.eraseDups = as := by
  induction as with
  | nil => rfl
  | cons a as ih =>
    obtain ⟨ha, has⟩ := List.nodup_cons.mp h
    have hfilter : as.filter (fun b => !b == a) = as := by
      refine List.filter_eq_self.mpr fun b hb => ?_
      simp only [Bool.not_eq_true', beq_eq_false_iff_ne, ne_eq]
      rintro rfl
      exact ha hb
    rw [List.eraseDups_cons, hfilter, ih has]

/-! ## Slots of parameters -/

namespace Method

variable (m : Method)

/-- The words of the receiver, and how many identities stand before those of the parameters. -/
def receiverWords : Nat :=
  if m.isStatic then 0 else 1

/-- The slot in which a parameter arrives: behind the receiver and the words of the parameters before it. -/
def paramSlot (k : Nat) : Nat :=
  m.receiverWords + ((m.signature.params.take k).map ValueType.size).sum

/-- The slots in which the receiver and the parameters arrive. -/
def receivedSlots : List Nat :=
  (incoming m).map (·.slot)

end Method

namespace Layout

variable {m : Method}

/-- Parameters arrive one behind the other. -/
theorem getElem?_incomingParams (params : List ValueType) (j slot k : Nat) : (incomingParams j slot params)[k]? =
    (params[k]?).map fun t => ⟨slot + ((params.take k).map ValueType.size).sum, t, .parameter (j + k) t⟩ := by
  induction params generalizing j slot k with
  | nil => rfl
  | cons t params ih =>
    cases k with
    | zero => rfl
    | succ k =>
      rw [incomingParams, List.getElem?_cons_succ, ih, List.getElem?_cons_succ, List.take_succ_cons, List.map_cons, List.sum_cons,
        Nat.add_assoc slot, Nat.add_right_comm j, Nat.add_assoc j]

theorem getElem?_incoming_param (k : Nat) : (incoming m)[m.receiverWords + k]? =
    (m.signature.params[k]?).map fun t => ⟨m.paramSlot k, t, .parameter k t⟩ := by
  unfold incoming Method.receiverWords Method.paramSlot Method.receiverWords
  split
  · rw [Nat.zero_add, getElem?_incomingParams]
    simp
  · rw [Nat.add_comm 1, List.getElem?_cons_succ, getElem?_incomingParams]
    simp

theorem getElem?_incoming_this (h : m.isStatic = false) :
    (incoming m)[0]? = some ⟨0, .ofName m.className, .this (.ofName m.className)⟩ := by
  simp [incoming, h]

theorem length_incomingParams (params : List ValueType) (j slot : Nat) : (incomingParams j slot params).length = params.length := by
  induction params generalizing j slot with
  | nil => rfl
  | cons t params ih => rw [incomingParams, List.length_cons, ih, List.length_cons]

theorem length_incoming : (incoming m).length = m.receiverWords + m.signature.params.length := by
  unfold incoming Method.receiverWords
  split
  · rw [length_incomingParams, Nat.zero_add]
  · rw [List.length_cons, length_incomingParams, Nat.add_comm]

/-- Parameters arrive from a slot on, each behind the one before it. -/
theorem pairwise_incomingParams {params : List ValueType} (free : .void ∉ params) (j slot : Nat) :
    (∀ i ∈ incomingParams j slot params, slot ≤ i.slot) ∧ (incomingParams j slot params).Pairwise (·.slot < ·.slot) := by
  induction params generalizing j slot with
  | nil => exact ⟨fun i hi => (by cases hi), .nil⟩
  | cons t params ih =>
    rw [List.mem_cons, not_or] at free
    obtain ⟨hle, hlt⟩ := ih free.2 (j + 1) (slot + t.size)
    have hpos : 0 < t.size := by
      cases t with
      | void => exact absurd rfl free.1
      | long | double => exact Nat.two_pos
      | _ => exact Nat.one_pos
    rw [incomingParams, List.pairwise_cons]
    refine ⟨fun i hi => ?_, fun i hi => ?_, hlt⟩
    · rcases List.mem_cons.mp hi with rfl | hi
      · exact Nat.le_refl _
      · exact Nat.le_trans (Nat.le_add_right _ _) (hle i hi)
    · have := hle i hi
      dsimp only
      omega

/-- Nothing that a method receives shares a slot. -/
theorem nodup_receivedSlots (free : .void ∉ m.signature.params) : m.receivedSlots.Nodup := by
  have sorted : (incoming m).Pairwise (·.slot < ·.slot) := by
    unfold incoming
    split
    · exact (pairwise_incomingParams free 0 0).2
    · obtain ⟨hle, hlt⟩ := pairwise_incomingParams free 0 1
      exact List.pairwise_cons.mpr ⟨fun i hi => hle i hi, hlt⟩
  exact List.pairwise_map.mpr (sorted.imp fun h => Nat.ne_of_lt h)

end Layout

/-! ## Declared registers -/

namespace Registers

variable {rs rs' : Registers} {k : Nat} {r : RegisterId} {type : ValueType}

/-- Declaring a slot gives its register the type and leaves all other registers alone. -/
theorem Apart.declare_types (h : rs.Apart) (hd : rs.declare k type = .ok (r, rs')) :
    (rs'.all[r.index]?).map (·.type) = some type ∧ ∀ q, q ≠ r → rs'.all[q.index]? = rs.all[q.index]? := by
  simp only [Registers.declare, bind_eq_ok, pure_eq_ok, Prod.mk.injEq] at hd
  obtain ⟨⟨id, rs₁⟩, hs, rfl, rfl⟩ := hd
  have hne : ∀ {q : RegisterId}, q ≠ id → id.index ≠ q.index := by
    rintro ⟨i⟩ hq rfl
    exact hq rfl
  unfold Registers.slot at hs
  split at hs
  · cases hs
  · split at hs
    · rename_i hslot
      cases hs
      have hlt := h.lt k id hslot
      refine ⟨by simp [Array.getElem?_modify, Array.getElem?_eq_getElem hlt], fun q hq => ?_⟩
      simp [Array.getElem?_modify, hne hq]
    · cases hs
      refine ⟨by simp [Array.getElem_modify], fun q hq => ?_⟩
      have hq' := hne hq
      dsimp only at hq'
      simp [Array.getElem?_modify, Array.getElem?_push, hq', Ne.symm hq']

/-- What a method receives is bound to the registers of its slots, which have its types; no other register changes. -/
theorem Apart.declared {received : List Incoming} {stmts : List Located} (h : rs.Apart)
    (hd : Layout.declareIncoming rs received = .ok (stmts, rs')) (distinct : (received.map (·.slot)).Nodup) :
    List.Forall₂ (fun i x => ∃ r, rs'.slot? i.slot = some r ∧ x = ⟨.identity r i.source, none⟩ ∧
        (rs'.all[r.index]?).map (·.type) = some i.type) received stmts ∧
      ∀ q, (∀ i ∈ received, rs'.slot? i.slot ≠ some q) → rs'.all[q.index]? = rs.all[q.index]? := by
  induction received generalizing rs stmts with
  | nil =>
    simp only [Layout.declareIncoming, Except.ok.injEq, Prod.mk.injEq] at hd
    obtain ⟨rfl, rfl⟩ := hd
    exact ⟨.nil, fun _ _ => rfl⟩
  | cons i received ih =>
    simp only [Layout.declareIncoming, bind_eq_ok, pure_eq_ok, Prod.mk.injEq] at hd
    obtain ⟨⟨r, rs₁⟩, hi, ⟨rest, rs₂⟩, hrest, rfl, rfl⟩ := hd
    obtain ⟨hnot, hdistinct⟩ := List.nodup_cons.mp distinct
    obtain ⟨h₁, -, hslot⟩ := h.declare hi
    obtain ⟨htype, hothers⟩ := h.declare_types hi
    obtain ⟨h₂, hgrows⟩ := h₁.declareIncoming hrest
    obtain ⟨hall, hkept⟩ := ih h₁ hrest hdistinct
    have hslot₂ := hgrows.keeps _ _ hslot
    -- No slot that is declared later has the register of this one.
    have hlater : ∀ j ∈ received, rs₂.slot? j.slot ≠ some r := by
      intro j hj hjr
      exact hnot (List.mem_map.mpr ⟨j, hj, h₂.inj _ _ _ hjr hslot₂⟩)
    refine ⟨.cons ⟨r, hslot₂, rfl, by rw [hkept r hlater, htype]⟩ hall, fun q hq => ?_⟩
    have hqr : q ≠ r := by
      rintro rfl
      exact hq i List.mem_cons_self hslot₂
    rw [hkept q fun j hj => hq j (List.mem_cons_of_mem _ hj), hothers q hqr]

/-- A slot is in use after what the method receives was declared if it was before or if it is one of these. -/
theorem slot?_of_declareIncoming {received : List Incoming} {stmts : List Located}
    (hd : declareIncoming rs received = .ok (stmts, rs')) (hk : rs'.slot? k = some r) :
    rs.slot? k = some r ∨ k ∈ received.map (·.slot) := by
  induction received generalizing rs stmts with
  | nil =>
    simp only [declareIncoming, Except.ok.injEq, Prod.mk.injEq] at hd
    exact Or.inl (hd.2 ▸ hk)
  | cons i received ih =>
    simp only [declareIncoming, bind_eq_ok, pure_eq_ok, Prod.mk.injEq] at hd
    obtain ⟨⟨id, rs₁⟩, hi, ⟨rest, rs₂⟩, hrest, -, rfl⟩ := hd
    rcases ih hrest with hold | hmem
    · obtain ⟨rs₃, hs, hslots, -⟩ := slot_of_declare hi
      rw [slot?, hslots] at hold
      rcases slot?_slot hs hold with hold | ⟨rfl, -⟩
      · exact Or.inl hold
      · exact Or.inr List.mem_cons_self
    · exact Or.inr (List.mem_cons_of_mem _ hmem)

/-- No register has a type before what the method receives is declared. -/
def Untyped (rs : Registers) : Prop :=
  ∀ (i : Nat) (x : Register), rs.all[i]? = some x → x.type = .unknown

theorem untyped_kept : Registers.Kept Untyped := by
  have created : ∀ {rs : Registers} (name : String), rs.Untyped → (rs.create name).2.Untyped := by
    intro rs name h i x hx
    simp only [create, Array.getElem?_push] at hx
    split at hx
    · cases hx
      rfl
    · exact h i x hx
  refine ⟨fun {rs rs' k r} h hs => ?_, fun {rs} h => created _ h⟩
  unfold slot at hs
  split at hs
  · cases hs
  · split at hs
    · cases hs
      exact h
    · cases hs
      exact created _ h

/-! ## The order of registers -/

/-- The slots in use with their registers, by index. -/
def slotted (rs : Registers) : List (Nat × RegisterId) :=
  rs.slots.mergeSort fun a b => a.1 ≤ b.1

/-- The slots in use that are none of the leading ones, with their registers, by index. -/
def otherSlots (rs : Registers) (leading : List Nat) : List (Nat × RegisterId) :=
  rs.slotted.filter fun p => !leading.contains p.1

/-- The registers that belong to no slot, by number. -/
def unslotted (rs : Registers) : List RegisterId :=
  (rs.all.toList.map (·.id)).filter fun id => !(rs.slotted.map (·.2)).contains id

theorem order_eq (rs : Registers) (leading : List Nat) :
    rs.order leading = leading.filterMap rs.slot? ++ (rs.otherSlots leading).map (·.2) ++ rs.unslotted :=
  rfl

theorem Numbered.mem_slotted (h : rs.Numbered) : (k, r) ∈ rs.slotted ↔ rs.slot? k = some r := by
  rw [h.slot?_eq_some]
  exact (List.mergeSort_perm _ _).mem_iff

/-- The slots in use are listed by index, each once. -/
theorem Numbered.pairwise_slotted (h : rs.Numbered) : rs.slotted.Pairwise (·.1 < ·.1) := by
  have hle : rs.slotted.Pairwise (fun a b => (decide (a.1 ≤ b.1)) = true) := by
    refine List.pairwise_mergeSort (fun a b c hab hbc => ?_) (fun a b => ?_) rs.slots
    · simp only [decide_eq_true_eq] at hab hbc ⊢
      exact Nat.le_trans hab hbc
    · simpa using Nat.le_total a.1 b.1
  have hnodup : (rs.slotted.map (·.1)).Nodup := (((List.mergeSort_perm _ _).map _).nodup_iff).mpr h.slots
  refine (hle.and (List.pairwise_map.mp hnodup)).imp fun hab => ?_
  simp only [decide_eq_true_eq] at hab
  omega

theorem Numbered.mem_otherSlots (h : rs.Numbered) {leading : List Nat} :
    (k, r) ∈ rs.otherSlots leading ↔ rs.slot? k = some r ∧ k ∉ leading := by
  rw [otherSlots, List.mem_filter, h.mem_slotted]
  simp

theorem Numbered.mem_unslotted (h : rs.Numbered) : r ∈ rs.unslotted ↔ r.index < rs.all.size ∧ ∀ k, rs.slot? k ≠ some r := by
  rw [unslotted, List.mem_filter, h.mem_ids, Bool.not_eq_true', ← Bool.not_eq_true, List.contains_iff_mem]
  refine and_congr_right fun _ => ⟨fun hno k hk => hno (List.mem_map.mpr ⟨_, h.mem_slotted.mpr hk, rfl⟩), fun hno hmem => ?_⟩
  obtain ⟨⟨k, r⟩, hp, rfl⟩ := List.mem_map.mp hmem
  exact hno k (h.mem_slotted.mp hp)

/-- The numbers of all registers are in order. -/
theorem Numbered.pairwise_ids (h : rs.Numbered) : (rs.all.toList.map (·.id)).Pairwise (·.index < ·.index) := by
  rw [List.pairwise_map, List.pairwise_iff_getElem]
  intro i j hi hj hij
  have number : ∀ (n : Nat) (hn : n < rs.all.toList.length), rs.all.toList[n].id = ⟨n⟩ := fun n hn =>
    h.id n _ (by rw [← Array.getElem?_toList, List.getElem?_eq_getElem hn])
  rw [number i hi, number j hj]
  exact hij

theorem Numbered.pairwise_unslotted (h : rs.Numbered) : rs.unslotted.Pairwise (·.index < ·.index) :=
  h.pairwise_ids.filter _

/-- Each register is in the order once. -/
theorem Numbered.nodup_order (h : rs.Numbered) (ha : rs.Apart) {leading : List Nat} (hl : leading.Nodup) : (rs.order leading).Nodup := by
  have hlead : ∀ {r}, r ∈ leading.filterMap rs.slot? ↔ ∃ k ∈ leading, rs.slot? k = some r := List.mem_filterMap
  rw [order_eq, List.nodup_append, List.nodup_append]
  refine ⟨⟨hl.filterMap fun k k' r hr hr' => ha.inj k k' r hr hr', ?_, ?_⟩, ?_, ?_⟩
  · refine List.pairwise_map.mpr ((h.pairwise_slotted.filter _).imp_of_mem fun {p q} hp hq hlt heq => ?_)
    obtain ⟨k, r⟩ := p
    obtain ⟨k', r'⟩ := q
    obtain rfl : r = r' := heq
    exact Nat.ne_of_lt hlt (ha.inj _ _ _ (h.mem_otherSlots.mp hp).1 (h.mem_otherSlots.mp hq).1)
  · rintro r hr _ hr' rfl
    obtain ⟨k, hk, hslot⟩ := hlead.mp hr
    obtain ⟨⟨k', r⟩, hp, rfl⟩ := List.mem_map.mp hr'
    obtain ⟨hslot', hk'⟩ := h.mem_otherSlots.mp hp
    exact hk' (ha.inj _ _ _ hslot hslot' ▸ hk)
  · exact h.pairwise_unslotted.imp fun {a b} hlt heq => Nat.ne_of_lt hlt (congrArg RegisterId.index heq)
  · rintro r hr _ hr' rfl
    have hno := (h.mem_unslotted.mp hr').2
    rcases List.mem_append.mp hr with hr | hr
    · obtain ⟨k, -, hslot⟩ := hlead.mp hr
      exact hno k hslot
    · obtain ⟨⟨k, r⟩, hp, rfl⟩ := List.mem_map.mp hr
      exact hno k (h.mem_otherSlots.mp hp).1

theorem Numbered.count_order (h : rs.Numbered) {leading : List Nat} (nodup : (rs.order leading).Nodup) (r : RegisterId) :
    (rs.order leading).count r = if r.index < rs.all.size then 1 else 0 := by
  split
  · rename_i hr
    exact List.count_eq_one_of_mem nodup ((h.mem_order _).mpr hr)
  · rename_i hr
    exact List.count_eq_zero_of_not_mem fun hmem => hr ((h.mem_order _).mp hmem)

/-- A register that is named is the one with its number. -/
theorem Numbered.mem_named (h : rs.Numbered) {ids : List RegisterId} {x : Register} :
    x ∈ rs.named ids ↔ x.id ∈ ids ∧ rs.all[x.id.index]? = some x := by
  rw [named, List.mem_filterMap]
  constructor
  · rintro ⟨id, hid, hx⟩
    obtain rfl : x.id = id := h.id _ _ hx
    exact ⟨hid, hx⟩
  · rintro ⟨hid, hx⟩
    exact ⟨x.id, hid, hx⟩

/-- The registers of the other slots, in the order of the slots. -/
theorem Numbered.named_otherSlots (h : rs.Numbered) (leading : List Nat) : List.Forall₂ (fun k x => rs.slot? k = some x.id)
    ((rs.otherSlots leading).map (·.1)) (rs.named ((rs.otherSlots leading).map (·.2))) := by
  have hlt : ∀ r ∈ (rs.otherSlots leading).map (·.2), r.index < rs.all.size := by
    intro r hr
    obtain ⟨⟨k, r⟩, hp, rfl⟩ := List.mem_map.mp hr
    exact h.lt _ (h.slot?_eq_some.mp (h.mem_otherSlots.mp hp).1)
  have hids : List.Forall₂ (fun p x => p.2 = x.id) (rs.otherSlots leading) (rs.named ((rs.otherSlots leading).map (·.2))) := by
    rw [← List.forall₂_map_right_iff (f := Register.id), ← List.forall₂_map_left_iff (f := Prod.snd), h.map_id_named hlt,
      List.forall₂_eq_eq_eq]
  rw [List.forall₂_map_left_iff]
  refine forall₂_of_mem hids fun p hp x _ hid => ?_
  rw [← hid]
  exact (h.mem_otherSlots.mp hp).1

/-- The registers of the leading slots come first, then those of the other slots, then those of none. -/
theorem ordered_split {leading : List Nat} (nodup : (rs.order leading).Nodup) : rs.ordered leading =
    rs.named (leading.filterMap rs.slot?) ++ (rs.named ((rs.otherSlots leading).map (·.2)) ++ rs.named rs.unslotted) := by
  rw [ordered_eq, eraseDups_of_nodup nodup, order_eq, named, List.filterMap_append, List.filterMap_append, List.append_assoc]
  rfl

/-- The other slots were in use before what the method receives was declared, and nothing arrives in them. -/
theorem Numbered.mem_map_otherSlots (h : rs'.Numbered) (grows : rs.Grows rs') {received : List Incoming} {stmts : List Located}
    (hd : Layout.declareIncoming rs received = .ok (stmts, rs')) :
    k ∈ (rs'.otherSlots (received.map (·.slot))).map (·.1) ↔ (rs.slot? k).isSome ∧ k ∉ received.map (·.slot) := by
  rw [List.mem_map]
  constructor
  · rintro ⟨⟨k, r⟩, hmem, rfl⟩
    obtain ⟨hslot, hk⟩ := h.mem_otherSlots.mp hmem
    have hold := (slot?_of_declareIncoming hd hslot).resolve_right hk
    exact ⟨by rw [hold, Option.isSome_some], hk⟩
  · rintro ⟨hused, hk⟩
    obtain ⟨r, hr⟩ := Option.isSome_iff_exists.mp hused
    exact ⟨(k, r), h.mem_otherSlots.mpr ⟨grows.keeps k r hr, hk⟩, rfl⟩

/-- The registers behind the leading ones belong to no leading slot. -/
theorem Numbered.not_leading (h : rs.Numbered) (ha : rs.Apart) {leading : List Nat} {x : Register}
    (hx : x ∈ rs.named ((rs.otherSlots leading).map (·.2)) ++ rs.named rs.unslotted) :
    rs.all[x.id.index]? = some x ∧ ∀ k ∈ leading, rs.slot? k ≠ some x.id := by
  rcases List.mem_append.mp hx with hx | hx
  · obtain ⟨hid, hall⟩ := h.mem_named.mp hx
    obtain ⟨⟨k', r⟩, hmem, hr⟩ := List.mem_map.mp hid
    obtain rfl : r = x.id := hr
    obtain ⟨hslot', hk'⟩ := h.mem_otherSlots.mp hmem
    exact ⟨hall, fun k hk hslot => hk' (ha.inj _ _ _ hslot' hslot ▸ hk)⟩
  · obtain ⟨hid, hall⟩ := h.mem_named.mp hx
    exact ⟨hall, fun k _ => (h.mem_unslotted.mp hid).2 k⟩

/-- What a method receives comes first among the registers, with its types. -/
theorem Numbered.leading_registers (h : rs.Numbered) {received : List Incoming} {stmts : List Located}
    (declared : List.Forall₂ (fun i x => ∃ r, rs.slot? i.slot = some r ∧ x = ⟨.identity r i.source, none⟩ ∧
      (rs.all[r.index]?).map (·.type) = some i.type) received stmts) :
    List.Forall₂ (fun i x => rs.slot? i.slot = some x.id ∧ x.type = i.type) received
      (rs.named ((received.map (·.slot)).filterMap rs.slot?)) := by
  induction declared with
  | nil => exact .nil
  | cons hi _ ih =>
    obtain ⟨r, hslot, -, hr⟩ := hi
    obtain ⟨x, hx, htype⟩ := Option.map_eq_some_iff.mp hr
    obtain rfl : x.id = r := h.id _ _ hx
    rw [List.map_cons, List.filterMap_cons, hslot, named, List.filterMap_cons, hx]
    exact .cons ⟨hslot, htype⟩ ih

end Registers

/-! ## Bodies -/

namespace Method

/-- How a body begins and which registers it has, once a method was visited to the state `s` and what it receives was declared, so that
the registers are `rs`. -/
structure Receives (m : Method) (b : Body) (s : State) (rs : Registers) : Prop where
  /-- All registers made while the method was visited are there, and slots in use keep theirs. -/
  grows : s.registers.Grows rs
  uses : s.UsesSlots m rs.slot?
  receiver : m.isStatic = false → ∃ r x, rs.slot? 0 = some r ∧
    b.stmts[0]? = some ⟨.identity r (.this (.ofName m.className)), none⟩ ∧
    b.registers[0]? = some x ∧ x.id = r ∧ x.type = .ofName m.className
  params : ∀ k t, m.signature.params[k]? = some t → ∃ r x, rs.slot? (m.paramSlot k) = some r ∧
    b.stmts[m.receiverWords + k]? = some ⟨.identity r (.parameter k t), none⟩ ∧
    b.registers[m.receiverWords + k]? = some x ∧ x.id = r ∧ x.type = t
  /-- Behind these come the registers of the other slots that the code uses, by index, then those of no slot, by number. -/
  rest : ∃ others synthesized, b.registers.drop (m.receiverWords + m.signature.params.length) = others ++ synthesized ∧
    (∃ ks : List Nat, ks.Pairwise (· < ·) ∧ (∀ k, k ∈ ks ↔ (s.registers.slot? k).isSome ∧ k ∉ m.receivedSlots) ∧
      List.Forall₂ (fun k x => rs.slot? k = some x.id) ks others) ∧
    (synthesized.map (·.id)).Pairwise (·.index < ·.index) ∧ (∀ x ∈ synthesized, ∀ k, rs.slot? k ≠ some x.id) ∧
    ∀ x ∈ others ++ synthesized, x.type = .unknown
  /-- Every register is there once. -/
  once : ∀ r, (b.registers.map (·.id)).count r = if r.index < rs.all.size then 1 else 0

variable {m : Method} {keepLines : Bool} {b : Body}

/-- A body begins with the identity of the receiver, if there is one, and those of the parameters in order. They bind the registers that
loads and stores of the slots of these use: a parameter arrives behind the receiver and the words of the parameters before it. The
registers of the body are these ones in the same order with their declared types, then those of the other slots that the code uses by index,
then those of no slot in the order in which they were made, all without a type; and every register that was made is there once. -/
theorem receives_of_lower (h : m.lower keepLines = .ok b) (free : .void ∉ m.signature.params) :
    ∃ t rs, Traversal.complete .pendingFirst m = .ok t ∧ m.Receives b t.state rs := by
  obtain ⟨p, t, hp, -, ht, hstate, -⟩ := lays_of_lower h
  obtain ⟨identities, rs, rest, hincoming, -, hstmts⟩ := identities_of_lower h hp
  have hregisters : b.registers = rs.ordered m.receivedSlots := registers_of_lower h hp hincoming
  rw [hstate] at hincoming
  have hcoherent := (Traversal.complete_spec ht (Guide.free_begins m)).1.coherent
  have apart : t.state.registers.Apart := ⟨hcoherent.slot_lt, hcoherent.slot_inj⟩
  have numbered := Traversal.registers_of_complete Registers.numbered_kept ht (.ofMethod m)
  have untyped := Traversal.registers_of_complete Registers.untyped_kept ht fun i x hx => by simp [Registers.ofMethod] at hx
  obtain ⟨apart', grows⟩ := apart.declareIncoming hincoming
  have numbered' := numbered.declareIncoming hincoming
  have distinct := nodup_receivedSlots free
  obtain ⟨hidentities, hkept⟩ := apart.declared hincoming distinct
  have nodup := numbered'.nodup_order apart' distinct
  have hlead : List.Forall₂ (fun i x => rs.slot? i.slot = some x.id ∧ x.type = i.type) (incoming m)
      (rs.named (m.receivedSlots.filterMap rs.slot?)) := numbered'.leading_registers hidentities
  have hsplit := hregisters.trans (Registers.ordered_split nodup)
  -- What stands at a place among what is received stands there in the body, twice.
  have received : ∀ (k : Nat) (i : Incoming), (incoming m)[k]? = some i → ∃ r x, rs.slot? i.slot = some r ∧
      b.stmts[k]? = some ⟨.identity r i.source, none⟩ ∧ b.registers[k]? = some x ∧ x.id = r ∧ x.type = i.type := by
    intro k i hi
    obtain ⟨hk, rfl⟩ := List.getElem?_eq_some_iff.mp hi
    obtain ⟨r, hslot, hstmt, -⟩ := hidentities.get hk (hidentities.length_eq ▸ hk)
    obtain ⟨hslot', htype⟩ := hlead.get hk (hlead.length_eq ▸ hk)
    refine ⟨r, _, hslot, ?_, ?_, Option.some.inj (hslot'.symm.trans hslot), htype⟩
    · rw [hstmts, List.getElem?_append_left (hidentities.length_eq ▸ hk), List.getElem?_eq_getElem (hidentities.length_eq ▸ hk)]
      exact congrArg some hstmt
    · rw [hsplit, List.getElem?_append_left (hlead.length_eq ▸ hk), List.getElem?_eq_getElem (hlead.length_eq ▸ hk)]
      rfl
  refine ⟨t, rs, ht, grows, hcoherent.usesSlots.mono grows.keeps, fun hs => received 0 _ (getElem?_incoming_this hs), ?_, ?_, ?_⟩
  · intro k t hk
    exact received _ _ (by rw [getElem?_incoming_param, hk, Option.map_some])
  · refine ⟨rs.named ((rs.otherSlots m.receivedSlots).map (·.2)), rs.named rs.unslotted, ?_,
      ⟨(rs.otherSlots m.receivedSlots).map (·.1), List.pairwise_map.mpr (numbered'.pairwise_slotted.filter _),
        fun _ => numbered'.mem_map_otherSlots grows hincoming, numbered'.named_otherSlots _⟩, ?_, ?_, ?_⟩
    · rw [hsplit, List.drop_left' (by rw [← hlead.length_eq, length_incoming])]
    · rw [numbered'.map_id_named fun r hr => (numbered'.mem_unslotted.mp hr).1]
      exact numbered'.pairwise_unslotted
    · intro x hx
      exact (numbered'.mem_unslotted.mp (numbered'.mem_named.mp hx).1).2
    · -- No register behind those of what is received was declared.
      intro x hx
      obtain ⟨hall, apart⟩ := numbered'.not_leading apart' hx
      rw [hkept x.id fun i hi => apart i.slot (List.mem_map_of_mem hi)] at hall
      exact untyped _ x hall
  · intro r
    have hids : b.registers.map (·.id) = rs.order m.receivedSlots := by
      rw [hregisters, numbered'.map_id_ordered]
      exact eraseDups_of_nodup nodup
    rw [hids]
    exact numbered'.count_order nodup r

/-- Copies the parameter behind a wide one to a slot of its own and increments the copy while its old value is on the stack. -/
def postIncrementCopy : Method :=
  { className := "Sample", name := "run", signature := { params := [.long, .int], ret := .int }, isStatic := false, maxLocals := 5,
    maxStack := 1,
    code := [.load .int 3, .store .int 4, .load .int 4, .increment 4 1, .return .int]
    exceptions := [], localNames := [] }

/-- The second parameter arrives behind the two words of the first, in the slot that the code reads, and the slot of the copy and the
register of its old value stand behind what is received. -/
theorem receives_of_lower_postIncrementCopy : .void ∉ postIncrementCopy.signature.params ∧ postIncrementCopy.paramSlot 1 = 3 ∧
    ∃ (b : Body) (t : Traversal State) (rs : Registers), postIncrementCopy.lower false = .ok b ∧
      Traversal.complete .pendingFirst postIncrementCopy = .ok t ∧ postIncrementCopy.Receives b t.state rs := by
  obtain ⟨b, hb⟩ : ∃ b, postIncrementCopy.lower false = .ok b := exists_ok_of_isOk (by decide +kernel)
  obtain ⟨t, rs, ht, receives⟩ := receives_of_lower hb (by decide)
  exact ⟨by decide, rfl, b, t, rs, hb, ht, receives⟩

end Method
end ThreeAddress
