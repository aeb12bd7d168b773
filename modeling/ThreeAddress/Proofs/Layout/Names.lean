import ThreeAddress.IR.Listing
import ThreeAddress.Proofs.Layout.Receiving
import ThreeAddress.Proofs.Semantics.Preservation

/-!
# Names of registers

The register of a local slot has the first name that is declared for the slot, or a generated one; the other registers have generated names.
No two generated names are the same. Declared names are taken as they are, so that registers share a name where a declaration makes them,
and nowhere else.
-/

namespace ThreeAddress

/-- Numbers behind one text are told apart by it. -/
theorem append_toString_inj {s : String} {n n' : Nat} : s ++ toString n = s ++ toString n' ↔ n = n' := by
  refine ⟨fun h => ?_, fun h => h ▸ rfl⟩
  have hdigits : Nat.toDigits 10 n = Nat.toDigits 10 n' := by
    simpa using congrArg String.toList ((String.append_right_inj s).mp h)
  rw [← Nat.ofDigitChars_ten_toDigits (n := n), hdigits, Nat.ofDigitChars_ten_toDigits]

/-! ## Names that a method gives -/

namespace Method

/-- The first name that is declared for a local slot. -/
def declaredName? (m : Method) (k : Nat) : Option String :=
  (m.localNames.find? (·.index == k)).map (·.name)

/-- The name of the register of a local slot. -/
def slotName (m : Method) (k : Nat) : String :=
  (m.declaredName? k).getD ("l" ++ toString k)

/-- The name of the register that is the `n`-th among those that belong to no slot. -/
def stackName (m : Method) (n : Nat) : String :=
  "$stack" ++ toString (m.maxLocals + n)

/-- No slot has the name of another one, or that of a register that belongs to no slot. -/
structure NamesApart (m : Method) : Prop where
  slots : ∀ k < m.maxLocals, ∀ k' < m.maxLocals, m.slotName k = m.slotName k' → k = k'
  stack : ∀ k < m.maxLocals, ∀ n, m.slotName k ≠ m.stackName n

variable {m : Method} {k k' n n' : Nat}

/-- The name of a slot is declared, or it says which slot it is. -/
theorem slotName_cases (m : Method) (k : Nat) :
    m.declaredName? k = some (m.slotName k) ∨ m.slotName k = "l" ++ toString k := by
  unfold slotName
  cases m.declaredName? k with
  | none => exact Or.inr rfl
  | some name => exact Or.inl rfl

/-- Of two slots with one name, one has it from a declaration. -/
theorem declared_of_slotName_eq (h : m.slotName k = m.slotName k') (hne : k ≠ k') :
    m.declaredName? k = some (m.slotName k) ∨ m.declaredName? k' = some (m.slotName k) := by
  rcases m.slotName_cases k with hk | hk
  · exact Or.inl hk
  rcases m.slotName_cases k' with hk' | hk'
  · exact Or.inr (h ▸ hk')
  · rw [hk, hk', append_toString_inj] at h
    exact absurd h hne

theorem stackName_inj : m.stackName n = m.stackName n' ↔ n = n' := by
  rw [stackName, stackName, append_toString_inj, Nat.add_left_cancel_iff]

theorem head?_stackName : (m.stackName n).toList.head? = some '$' := by
  simp [stackName]

/-- A slot that is named as a register of no slot has its name from a declaration. -/
theorem declared_of_slotName_eq_stackName (h : m.slotName k = m.stackName n) : m.declaredName? k = some (m.slotName k) := by
  refine (m.slotName_cases k).resolve_right fun hk => ?_
  have hhead := m.head?_stackName (n := n)
  rw [← h, hk] at hhead
  simp at hhead

end Method

/-! ## Names that registers have -/

namespace Registers

variable {m : Method} {rs rs' : Registers} {k : Nat} {r : RegisterId} {x y : Register}

/-- The registers of slots have the names of these, and the others have generated names, each a different one. -/
structure Called (m : Method) (rs : Registers) : Prop where
  maxLocals : rs.maxLocals = m.maxLocals
  localNames : rs.localNames = m.localNames
  declared : ∀ k r, rs.slot? k = some r → k < m.maxLocals
  slot : ∀ k r x, rs.slot? k = some r → rs.all[r.index]? = some x → x.name = m.slotName k
  stack : ∀ (i : Nat) x, rs.all[i]? = some x → (∀ k, rs.slot? k ≠ some ⟨i⟩) → ∃ n < rs.synthesized, x.name = m.stackName n
  apart : ∀ (i j : Nat) x y, rs.all[i]? = some x → (∀ k, rs.slot? k ≠ some ⟨i⟩) → rs.all[j]? = some y →
    (∀ k, rs.slot? k ≠ some ⟨j⟩) → x.name = y.name → i = j

theorem Called.ofMethod (m : Method) : (ofMethod m).Called m where
  maxLocals := rfl
  localNames := rfl
  declared _ _ hslot := by simp [Registers.ofMethod, slot?] at hslot
  slot _ _ _ hslot := by simp [Registers.ofMethod, slot?] at hslot
  stack _ _ hx := by simp [Registers.ofMethod] at hx
  apart _ _ _ _ hx := by simp [Registers.ofMethod] at hx

theorem Called.slotName (h : rs.Called m) (k : Nat) : rs.slotName k = m.slotName k := by
  rw [Registers.slotName, Method.slotName, Method.declaredName?, h.localNames]

/-- A slot is in use already, or it gets a new register with its name. -/
theorem slot_cases (hs : rs.slot k = .ok (r, rs')) :
    rs' = rs ∨ (k < rs.maxLocals ∧ r.index = rs.all.size ∧ rs'.all = rs.all.push ⟨r, rs.slotName k, .unknown⟩ ∧
      rs'.maxLocals = rs.maxLocals ∧ rs'.localNames = rs.localNames ∧ rs'.synthesized = rs.synthesized) := by
  unfold Registers.slot at hs
  split at hs
  · cases hs
  · rename_i hk
    split at hs <;> cases hs
    · exact Or.inl rfl
    · exact Or.inr ⟨Nat.lt_of_not_le hk, rfl, rfl, rfl, rfl, rfl⟩

theorem Called.slot_kept (h : rs.Called m) (hn : rs.Numbered) (hs : rs.slot k = .ok (r, rs')) : rs'.Called m := by
  obtain rfl | ⟨hk, hr, hall, hmax, hnames, hcount⟩ := slot_cases hs
  · exact h
  -- The new register belongs to the slot, so that no other one has come to those that belong to none.
  have old : ∀ {i : Nat} {x}, rs'.all[i]? = some x → (∀ k', rs'.slot? k' ≠ some ⟨i⟩) →
      rs.all[i]? = some x ∧ ∀ k', rs.slot? k' ≠ some ⟨i⟩ := by
    intro i x hx hfree
    rw [hall, Array.getElem?_push] at hx
    split at hx
    · rename_i hi
      exact absurd (slot?_self hs) (by rw [hi, ← hr] at hfree; exact hfree k)
    · exact ⟨hx, fun k' hk' => hfree k' (slot?_of_slot hs hk')⟩
  refine ⟨hmax.trans h.maxLocals, hnames.trans h.localNames, fun k' r' hk' => ?_, fun k' r' x hk' hx => ?_, fun i x hx hfree => ?_,
    fun i j x y hx hi hy hj heq => ?_⟩
  · rcases slot?_slot hs hk' with hold | ⟨rfl, -⟩
    · exact h.declared k' r' hold
    · exact h.maxLocals ▸ hk
  · rw [hall, Array.getElem?_push] at hx
    rcases slot?_slot hs hk' with hold | ⟨rfl, hr', -⟩
    · rw [if_neg (Nat.ne_of_lt (hn.lt _ (hn.slot?_eq_some.mp hold)))] at hx
      exact h.slot k' r' x hold hx
    · rw [if_pos hr'] at hx
      cases hx
      exact h.slotName k'
  · rw [hcount]
    exact h.stack i x (old hx hfree).1 (old hx hfree).2
  · exact h.apart i j x y (old hx hi).1 (old hx hi).2 (old hy hj).1 (old hy hj).2 heq

theorem Called.fresh (h : rs.Called m) (hn : rs.Numbered) : rs.fresh.2.Called m := by
  have hall : rs.fresh.2.all = rs.all.push ⟨rs.fresh.1, m.stackName rs.synthesized, .unknown⟩ := by
    rw [Method.stackName, ← h.maxLocals]
    rfl
  -- The new name counts on from all that are there.
  have named : ∀ {i : Nat} {x}, rs.fresh.2.all[i]? = some x → (∀ k, rs.slot? k ≠ some ⟨i⟩) →
      (i = rs.all.size ∧ x.name = m.stackName rs.synthesized) ∨
        (rs.all[i]? = some x ∧ ∃ n < rs.synthesized, x.name = m.stackName n) := by
    intro i x hx hfree
    rw [hall, Array.getElem?_push] at hx
    split at hx
    · rename_i hi
      cases hx
      exact Or.inl ⟨hi, rfl⟩
    · exact Or.inr ⟨hx, h.stack i x hx hfree⟩
  refine ⟨h.maxLocals, h.localNames, h.declared, fun k r x hk hx => ?_, fun i x hx hfree => ?_, fun i j x y hx hi hy hj heq => ?_⟩
  · rw [hall, Array.getElem?_push, if_neg (Nat.ne_of_lt (hn.lt _ (hn.slot?_eq_some.mp hk)))] at hx
    exact h.slot k r x hk hx
  · rcases named hx hfree with ⟨-, hname⟩ | ⟨-, n, hlt, hname⟩
    · exact ⟨_, Nat.lt_succ_self _, hname⟩
    · exact ⟨n, Nat.lt_succ_of_lt hlt, hname⟩
  · rcases named hx hi with ⟨rfl, hx'⟩ | ⟨hx, n, hlt, hx'⟩ <;> rcases named hy hj with ⟨rfl, hy'⟩ | ⟨hy, n', hlt', hy'⟩
    · rfl
    · rw [hx', hy', Method.stackName_inj] at heq
      omega
    · rw [hx', hy', Method.stackName_inj] at heq
      omega
    · exact h.apart i j x y hx hi hy hj heq

/-- A declaration changes the type of a register, not its name. -/
theorem Called.declare {type : ValueType} (h : rs.Called m) (hn : rs.Numbered) (hd : rs.declare k type = .ok (r, rs')) : rs'.Called m := by
  simp only [Registers.declare, bind_eq_ok, pure_eq_ok, Prod.mk.injEq] at hd
  obtain ⟨⟨id, rs₁⟩, hs, -, rfl⟩ := hd
  have h₁ := h.slot_kept hn hs
  have untyped : ∀ {i : Nat} {x}, (rs₁.all.modify id.index fun r => { r with type })[i]? = some x →
      ∃ y, rs₁.all[i]? = some y ∧ x.name = y.name := by
    intro i x hx
    rw [Array.getElem?_modify] at hx
    split at hx
    · obtain ⟨y, hy, rfl⟩ := Option.map_eq_some_iff.mp hx
      exact ⟨y, hy, rfl⟩
    · exact ⟨x, hx, rfl⟩
  refine ⟨h₁.maxLocals, h₁.localNames, h₁.declared, fun k r x hk hx => ?_, fun i x hx hfree => ?_, fun i j x y hx hi hy hj heq => ?_⟩
  · obtain ⟨x', hx', hname⟩ := untyped hx
    exact hname.trans (h₁.slot k r x' hk hx')
  · obtain ⟨x', hx', hname⟩ := untyped hx
    rw [hname]
    exact h₁.stack i x' hx' hfree
  · obtain ⟨x', hx', hname⟩ := untyped hx
    obtain ⟨y', hy', hname'⟩ := untyped hy
    exact h₁.apart i j x' y' hx' hi hy' hj (by rw [← hname, ← hname', heq])

theorem Called.declareIncoming {received : List Incoming} {stmts : List Located} (h : rs.Called m) (hn : rs.Numbered)
    (hd : Layout.declareIncoming rs received = .ok (stmts, rs')) : rs'.Called m := by
  induction received generalizing rs stmts with
  | nil =>
    simp only [Layout.declareIncoming, Except.ok.injEq, Prod.mk.injEq] at hd
    exact hd.2 ▸ h
  | cons i received ih =>
    simp only [Layout.declareIncoming, bind_eq_ok, pure_eq_ok, Prod.mk.injEq] at hd
    obtain ⟨⟨id, rs₁⟩, hi, ⟨rest, rs₂⟩, hrest, -, rfl⟩ := hd
    exact ih (h.declare hn hi) (hn.declare hi) hrest

theorem called_kept (m : Method) : Registers.Kept fun rs => rs.Numbered ∧ rs.Called m :=
  ⟨fun h hs => ⟨h.1.slot hs, h.2.slot_kept h.1 hs⟩, fun h => ⟨h.1.fresh, h.2.fresh h.1⟩⟩

/-- Two registers with one name belong to two slots of this name, or one of them belongs to a slot that is named like a register of none. -/
theorem Called.clash (h : rs.Called m) (hx : rs.all[x.id.index]? = some x) (hy : rs.all[y.id.index]? = some y) (heq : x.name = y.name)
    (hne : x.id ≠ y.id) :
    (∃ k k', k ≠ k' ∧ rs.slot? k = some x.id ∧ rs.slot? k' = some y.id ∧ m.slotName k = x.name ∧ m.slotName k' = x.name) ∨
      ∃ k n, (rs.slot? k = some x.id ∨ rs.slot? k = some y.id) ∧ m.slotName k = x.name ∧ m.stackName n = x.name := by
  by_cases hxs : ∃ k, rs.slot? k = some x.id <;> by_cases hys : ∃ k, rs.slot? k = some y.id
  · obtain ⟨k, hk⟩ := hxs
    obtain ⟨k', hk'⟩ := hys
    refine Or.inl ⟨k, k', ?_, hk, hk', (h.slot k _ x hk hx).symm, ((h.slot k' _ y hk' hy).symm.trans heq.symm)⟩
    rintro rfl
    exact hne (Option.some.inj (hk.symm.trans hk'))
  · obtain ⟨k, hk⟩ := hxs
    obtain ⟨n, -, hyn⟩ := h.stack _ y hy (not_exists.mp hys)
    exact Or.inr ⟨k, n, Or.inl hk, (h.slot k _ x hk hx).symm, (heq.trans hyn).symm⟩
  · obtain ⟨k, hk⟩ := hys
    obtain ⟨n, -, hxn⟩ := h.stack _ x hx (not_exists.mp hxs)
    exact Or.inr ⟨k, n, Or.inr hk, (h.slot k _ y hk hy).symm.trans heq.symm, hxn.symm⟩
  · have hindex := h.apart _ _ x y hx (not_exists.mp hxs) hy (not_exists.mp hys) heq
    exact absurd (congrArg RegisterId.mk hindex) hne

/-- Of two registers with one name, one belongs to a slot for which this name is declared. -/
theorem Called.declared_of_name_eq (h : rs.Called m) (hx : rs.all[x.id.index]? = some x) (hy : rs.all[y.id.index]? = some y)
    (heq : x.name = y.name) (hne : x.id ≠ y.id) :
    ∃ k, m.declaredName? k = some x.name ∧ (rs.slot? k = some x.id ∨ rs.slot? k = some y.id) := by
  rcases h.clash hx hy heq hne with ⟨k, k', hkk', hk, hk', hname, hname'⟩ | ⟨k, n, hk, hname, hstack⟩
  · rcases Method.declared_of_slotName_eq (hname.trans hname'.symm) hkk' with hd | hd
    · exact ⟨k, hname ▸ hd, Or.inl hk⟩
    · exact ⟨k', hname ▸ hd, Or.inr hk'⟩
  · exact ⟨k, hname ▸ Method.declared_of_slotName_eq_stackName (hname.trans hstack.symm), hk⟩

/-- Where the names of slots are apart, those of registers are. -/
theorem Called.eq_of_name_eq (h : rs.Called m) (ha : m.NamesApart) (hx : rs.all[x.id.index]? = some x)
    (hy : rs.all[y.id.index]? = some y) (heq : x.name = y.name) : x = y := by
  have hid : x.id = y.id := by
    by_contra hne
    rcases h.clash hx hy heq hne with ⟨k, k', hkk', hk, hk', hname, hname'⟩ | ⟨k, n, hk, hname, hstack⟩
    · exact hkk' (ha.slots k (h.declared k _ hk) k' (h.declared k' _ hk') (hname.trans hname'.symm))
    · exact ha.stack k (hk.elim (h.declared k _) (h.declared k _)) n (hname.trans hstack.symm)
  rw [hid] at hx
  exact Option.some.inj (hx.symm.trans hy)

end Registers

/-! ## Names in a body -/

/-- A register of a body is listed by its name. -/
theorem Body.immediateText_register {b : Body} {x : Register} (distinct : (b.registers.map (·.id)).Nodup) (hx : x ∈ b.registers) :
    b.immediateText (.register x.id) = x.name := by
  have hfind : b.register? x.id = some x := by
    cases hf : b.registers.find? (·.id == x.id) with
    | none => exact absurd (List.find?_eq_none.mp hf x hx) (by simp)
    | some y =>
      have hid : y.id = x.id := by simpa using List.find?_some hf
      rw [Body.register?, hf, List.inj_on_of_nodup_map distinct (List.mem_of_find?_eq_some hf) hx hid]
  rw [Body.immediateText, hfind]
  rfl

namespace Method

variable {m : Method} {keepLines : Bool} {b : Body}

/-- The registers of a body are all that were made, under the names that the method gives. -/
theorem called_of_lower (h : m.lower keepLines = .ok b) :
    ∃ rs : Registers, rs.Numbered ∧ rs.Called m ∧ m.slotRegister? = rs.slot? ∧ b.registers = rs.ordered m.receivedSlots := by
  obtain ⟨p, t, hp, -, ht, hstate, -⟩ := lays_of_lower h
  obtain ⟨identities, rs, rest, hincoming, -, -⟩ := identities_of_lower h hp
  have hregisters := registers_of_lower h hp hincoming
  have hslot : m.slotRegister? = rs.slot? := by
    funext k
    rw [slotRegister?, finalRegisters_of_layout hp hincoming]
  rw [hstate] at hincoming
  obtain ⟨numbered, called⟩ := Traversal.registers_of_complete (Registers.called_kept m) ht ⟨.ofMethod m, .ofMethod m⟩
  exact ⟨rs, numbered.declareIncoming hincoming, called.declareIncoming numbered hincoming, hslot, hregisters⟩

/-- No register stands twice among those of a body. -/
theorem nodup_registers_of_lower (h : m.lower keepLines = .ok b) : (b.registers.map (·.id)).Nodup := by
  obtain ⟨rs, numbered, -, -, hregisters⟩ := called_of_lower h
  exact hregisters ▸ numbered.nodup_ordered m.receivedSlots

/-- The register of a slot is a register of the body and has the name of the slot. -/
theorem exists_register_of_slot (h : m.lower keepLines = .ok b) {k : Nat} {r : RegisterId} (hk : m.slotRegister? k = some r) :
    ∃ x ∈ b.registers, x.id = r ∧ x.name = m.slotName k := by
  obtain ⟨rs, numbered, called, hslot, hregisters⟩ := called_of_lower h
  rw [hslot] at hk
  obtain ⟨x, hx, rfl⟩ := (numbered.mem_ordered m.receivedSlots).mpr (numbered.lt _ (numbered.slot?_eq_some.mp hk))
  exact ⟨x, hregisters ▸ hx, rfl, called.slot k _ x hk (numbered.mem_named.mp hx).2⟩

/-- Two registers of a body have one name only if this is the first declared name of a local slot, and the slot belongs to one of them. So
where no slot has the name of another one or of a register that belongs to no slot, all registers have different names, and no listing shows
two of them alike. -/
theorem names_apart_of_lower (h : m.lower keepLines = .ok b) :
    (∀ x ∈ b.registers, ∀ y ∈ b.registers, x.name = y.name → x.id ≠ y.id →
      ∃ k, m.declaredName? k = some x.name ∧ (m.slotRegister? k = some x.id ∨ m.slotRegister? k = some y.id)) ∧
    (m.NamesApart → (b.registers.map (·.name)).Nodup ∧
      ∀ x ∈ b.registers, ∀ y ∈ b.registers, b.immediateText (.register x.id) = b.immediateText (.register y.id) → x = y) := by
  obtain ⟨rs, numbered, called, hslot, hregisters⟩ := called_of_lower h
  have distinct := nodup_registers_of_lower h
  have found : ∀ x ∈ b.registers, rs.all[x.id.index]? = some x := by
    intro x hx
    rw [hregisters, Registers.ordered_eq] at hx
    exact (numbered.mem_named.mp hx).2
  refine ⟨fun x hx y hy heq hne => ?_, fun ha => ⟨?_, fun x hx y hy heq => ?_⟩⟩
  · rw [hslot]
    exact called.declared_of_name_eq (found x hx) (found y hy) heq hne
  · refine (List.nodup_map_iff_inj_on distinct.of_map).mpr fun x hx y hy heq => ?_
    exact called.eq_of_name_eq ha (found x hx) (found y hy) heq
  · rw [Body.immediateText_register distinct hx, Body.immediateText_register distinct hy] at heq
    exact called.eq_of_name_eq ha (found x hx) (found y hy) heq

/-- A copy of a parameter under a name of its own; the name of the parameter is declared twice. -/
def namedCopy : Method :=
  { postIncrementCopy with localNames := [⟨3, "count"⟩, ⟨4, "copy"⟩, ⟨3, "copy"⟩] }

theorem namesApart_namedCopy : namedCopy.NamesApart where
  slots := by decide +kernel
  stack k hk n h := by
    have hhead : ∀ k < namedCopy.maxLocals, (namedCopy.slotName k).toList.head? ≠ some '$' := by decide +kernel
    exact hhead k hk (h ▸ head?_stackName)

theorem names_apart_namedCopy : namedCopy.NamesApart ∧ ∃ b, namedCopy.lower false = .ok b ∧ (b.registers.map (·.name)).Nodup := by
  obtain ⟨b, hb⟩ : ∃ b, namedCopy.lower false = .ok b := exists_ok_of_isOk (by decide +kernel)
  exact ⟨namesApart_namedCopy, b, hb, ((names_apart_of_lower hb).2 namesApart_namedCopy).1⟩

/-- The difference of two parameters for which one name is declared. -/
def namesakes : Method :=
  { className := "Sample", name := "run", signature := { params := [.int, .int], ret := .int }, isStatic := true, maxLocals := 2,
    maxStack := 2, code := [.load .int 0, .load .int 1, .arithmetic .int .sub, .return .int]
    exceptions := [], localNames := [⟨0, "x"⟩, ⟨1, "x"⟩] }

/-- Both parameters are listed under the declared name. -/
theorem names_shared_namesakes : ∃ b, namesakes.lower false = .ok b ∧ ¬ (b.registers.map (·.name)).Nodup ∧
    ∃ x ∈ b.registers, ∃ y ∈ b.registers, x.id ≠ y.id ∧ b.immediateText (.register x.id) = b.immediateText (.register y.id) := by
  obtain ⟨b, hb⟩ : ∃ b, namesakes.lower false = .ok b := exists_ok_of_isOk (by decide +kernel)
  obtain ⟨x, hx, hxr, hxn⟩ := exists_register_of_slot hb (k := 0) (r := ⟨0⟩) (by decide +kernel)
  obtain ⟨y, hy, hyr, hyn⟩ := exists_register_of_slot hb (k := 1) (r := ⟨1⟩) (by decide +kernel)
  have hne : x.id ≠ y.id := by simp [hxr, hyr]
  have hname : x.name = y.name := hxn.trans hyn.symm
  have distinct := nodup_registers_of_lower hb
  refine ⟨b, hb, fun nodup => ?_, x, hx, y, hy, hne, ?_⟩
  · exact hne (congrArg Register.id ((List.nodup_map_iff_inj_on distinct.of_map).mp nodup x hx y hy hname))
  · rw [Body.immediateText_register distinct hx, Body.immediateText_register distinct hy, hname]

end Method
end ThreeAddress
