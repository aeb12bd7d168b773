import ThreeAddress.Proofs.Labels
import ThreeAddress.Proofs.Lowering.Settled

/-!
# The state at the outset

Before anything is visited the state holds at most the entries of shared handlers. Such a state is coherent, and each of its entries is the
one entry of its instruction, which is the label of a handler. The handlers that have one are those that are jumped to.
-/

namespace ThreeAddress

namespace State

/-- Every entry is the one of its instruction, for the label of a handler. -/
def EntriesFit (m : Method) (s : State) : Prop :=
  ∀ e ∈ s.handlerEntries, s.handlerEntry? e.insn = some e ∧ e.label ∈ m.handlerLabels ∧ m.labelIndex? e.label = some e.insn

/-- Of the handlers, exactly those that are jumped to have entries of their own. -/
def Splits (m : Method) (s : State) : Prop :=
  ∀ l ∈ m.handlerLabels, ∀ i, m.labelIndex? l = some i → ((s.handlerEntry? i).isSome ↔ m.isJumpTarget l)

/-- Nothing was visited yet: every operand is the exception of an entry. -/
structure Blank (m : Method) (s : State) : Prop where
  stack : s.stack = []
  frames : s.frames = Array.replicate m.code.length default
  units : s.units = Array.replicate m.code.length []
  slots : s.registers.slots = []
  maxLocals : s.registers.maxLocals = m.maxLocals
  fit : s.EntriesFit m
  operand : ∀ e ∈ s.handlerEntries, s.Known e.operand ∧ (s.operand e.operand).insn = e.insn
  made : ∀ o, s.Known o → (s.operand o).value = .ref .caughtException ∧
    (∃ r, (s.operand o).register = some r ∧ r.index < s.registers.all.size) ∧
      ∃ e, s.handlerEntry? (s.operand o).insn = some e ∧ e.operand = o

variable {m : Method} {s s' : State} {i : Nat} {o : OperandId} {e : HandlerEntry} {l : Label}

theorem mem_of_find_entry (h : s.handlerEntry? i = some e) : e ∈ s.handlerEntries ∧ e.insn = i :=
  ⟨List.mem_of_find?_eq_some h, by simpa using List.find?_some h⟩

theorem EntriesFit.extends (h : s.EntriesFit m) (he : s.Extends s') : s'.EntriesFit m := by
  intro e hmem
  rw [he.entries] at hmem
  rw [ he.handlerEntry?]
  exact h e hmem

/-- The entry of an instruction is that of the label there. -/
theorem EntriesFit.label_eq (h : s.EntriesFit m) (he : s.handlerEntry? i = some e) (hi : m.labelIndex? l = some i) : e.label = l := by
  obtain ⟨hmem, rfl⟩ := mem_of_find_entry he
  have both := (Method.here_of_labelIndex? (h e hmem).2.2).symm.trans (Method.here_of_labelIndex? hi)
  exact Operation.label.inj (Option.some.inj both)

namespace Blank

theorem frame (h : s.Blank m) (i : Nat) : s.frame i = default := by
  unfold State.frame
  rw [h.frames, Array.getElem?_replicate]
  split <;> rfl

theorem unit (h : s.Blank m) (i : Nat) : s.unit i = [] := by
  unfold State.unit
  rw [h.units, Array.getElem?_replicate]
  split <;> rfl

theorem slot? (h : s.Blank m) (k : Nat) : s.registers.slot? k = none := by
  simp [Registers.slot?, h.slots]

theorem ofMethod (m : Method) : (State.ofMethod m).Blank m where
  stack := rfl
  frames := rfl
  units := rfl
  slots := rfl
  maxLocals := rfl
  fit _ he := by cases he
  operand _ he := by cases he
  made o hk := by simp [Known, State.ofMethod] at hk

/-- A state without visits is coherent. -/
theorem coherent (h : s.Blank m) : s.Coherent m where
  frames_size := by simp [h.frames]
  units_size := by simp [h.units]
  slot_lt k r hr := by simp [h.slot?] at hr
  slot_inj k k' r hr := by simp [h.slot?] at hr
  register o r hr := by
    obtain ⟨-, ⟨q, hq, hlt⟩, -⟩ := h.made o (known_of_register hr)
    rw [hr, Option.some.injEq] at hq
    exact ⟨hq ▸ hlt, by simp [h.slot?]⟩
  shared i j r hr := by
    rw [h.frame] at hr
    cases hr
  rows i row hrow := by
    rw [h.frame] at hrow
    cases hrow
  entry i e he := by
    obtain ⟨hmem, rfl⟩ := mem_of_find_entry he
    obtain ⟨hk, hi⟩ := h.operand e hmem
    obtain ⟨hv, ⟨r, hr, -⟩, -⟩ := h.made e.operand hk
    exact ⟨hk, hi, hv, by simp [hr], Method.here_of_labelIndex? (h.fit e hmem).2.2⟩
  owned o hk := Or.inr (h.made o hk).2.2
  out i o ho := by
    rw [h.frame] at ho
    cases ho
  operands o hk q hq := by
    rw [(h.made o hk).1] at hq
    cases hq
  stage i _ := .untouched (by rw [h.frame]; rfl) (by rw [h.frame]; rfl) (h.unit i)

theorem settled (h : s.Blank m) : s.Settled := by
  intro i d hd
  rw [h.unit] at hd
  cases hd

end Blank

/-! ## A new entry -/

/-- One more entry, for a label at an instruction, with the exception in a register of its own. -/
def withEntry (s : State) (i : Nat) (l : Label) : State :=
  { (s.withRegisters s.registers.fresh.2).withOperand ⟨i, .ref .caughtException, some s.registers.fresh.1⟩ with
    handlerEntries := s.handlerEntries ++ [⟨i, l, s.nextOperand⟩] }

/-- The new entry is the one of its instruction if there was none, and the others are as before. -/
theorem find_entry_withEntry (s : State) (i : Nat) (l : Label) (j : Nat) :
    State.handlerEntry? (s.withEntry i l) j =
      ( s.handlerEntry? j).or (if i = j then some ⟨i, l, s.nextOperand⟩ else none) := by
  simp only [ handlerEntry?, withEntry, List.find?_append, List.find?_singleton, beq_iff_eq]

theorem known_withEntry : (s.withEntry i l).Known o ↔ s.Known o ∨ o = s.nextOperand :=
  known_withOperand (s := s.withRegisters s.registers.fresh.2)

theorem operand_withEntry_next : (s.withEntry i l).operand s.nextOperand = ⟨i, .ref .caughtException, some s.registers.fresh.1⟩ :=
  operand_withOperand_next (s := s.withRegisters s.registers.fresh.2)

theorem Known.operand_withEntry (h : s.Known o) : (s.withEntry i l).operand o = s.operand o :=
  Known.operand_withOperand (s := s.withRegisters s.registers.fresh.2) h

theorem Blank.withEntry (h : s.Blank m) (hi : m.labelIndex? l = some i) (hl : l ∈ m.handlerLabels) (hn : s.handlerEntry? i = none) :
    (s.withEntry i l).Blank m where
  stack := h.stack
  frames := h.frames
  units := h.units
  slots := h.slots
  maxLocals := h.maxLocals
  fit e he := by
    rw [find_entry_withEntry]
    rcases List.mem_append.mp he with he | he
    · obtain ⟨hfind, hlabel⟩ := h.fit e he
      exact ⟨by rw [hfind, Option.some_or], hlabel⟩
    · obtain rfl := List.mem_singleton.mp he
      exact ⟨by rw [hn, Option.none_or, if_pos rfl], hl, hi⟩
  operand e he := by
    rcases List.mem_append.mp he with he | he
    · obtain ⟨hk, hinsn⟩ := h.operand e he
      exact ⟨known_withEntry.mpr (Or.inl hk), by rw [hk.operand_withEntry, hinsn]⟩
    · obtain rfl := List.mem_singleton.mp he
      exact ⟨known_withEntry.mpr (Or.inr rfl), by rw [operand_withEntry_next]⟩
  made o hk := by
    rcases known_withEntry.mp hk with hk | rfl
    · obtain ⟨hv, ⟨r, hr, hlt⟩, e, he, ho⟩ := h.made o hk
      rw [hk.operand_withEntry]
      refine ⟨hv, ⟨r, hr, ?_⟩, e, ?_, ho⟩
      · exact Nat.lt_of_lt_of_le hlt (by simp [State.withEntry])
      · rw [find_entry_withEntry, he, Option.some_or]
    · rw [operand_withEntry_next]
      refine ⟨rfl, ⟨_, rfl, by simp [State.withEntry]⟩, ⟨i, l, s.nextOperand⟩, ?_, rfl⟩
      rw [find_entry_withEntry, hn, Option.none_or, if_pos rfl]

end State

namespace Lowering

open State

variable {m : Method} {s s' : State} {k : Nat} {l : Label}

/-- A handler gets an entry of its own if it is jumped to and has none yet; nothing else happens. -/
theorem addHandlerEntry_cases (h : Yields (addHandlerEntry m l) s k s') : ∃ i, m.labelIndex? l = some i ∧
    ((s.handlerEntry? i = none ∧ m.isJumpTarget l ∧ s' = s.withEntry i l ∧ k = 1) ∨
      ((m.isJumpTarget l → (s.handlerEntry? i).isSome) ∧ s' = s ∧ k = 0)) := by
  simp only [addHandlerEntry, yields_bind, yields_lift, labelIndex_eq_ok, yields_get, yields_ite, yields_pure,
    yields_freshRegister, yields_newOperand, yields_modify] at h
  obtain ⟨i, s, ⟨hi, rfl⟩, _, _, ⟨rfl, rfl⟩, h⟩ := h
  refine ⟨i, hi, ?_⟩
  rcases h with ⟨hneeds, r, _, ⟨rfl, rfl⟩, o, _, ⟨rfl, rfl⟩, _, _, rfl, rfl, rfl⟩ | ⟨hneeds, rfl, rfl⟩
  · simp only [needsEntry, Bool.and_eq_true, Option.isNone_iff_eq_none] at hneeds
    exact Or.inl ⟨hneeds.1, hneeds.2, rfl, rfl⟩
  · refine Or.inr ⟨fun hjump => ?_, rfl, rfl⟩
    simpa [needsEntry, hjump, Option.isSome_iff_ne_none] using hneeds

/-- What holds before any entry is made, and is kept as the handlers get their entries one by one, holds in the end, with the number of
entries made. -/
theorem addHandlerEntries_induction {P : List Label → Nat → State → Prop} (h : Yields (addHandlerEntries m) (.ofMethod m) k s)
    (start : P [] 0 (.ofMethod m))
    (step : ∀ done n l s k s', l ∈ m.handlerLabels → Yields (addHandlerEntry m l) s k s' → P done n s → P (done ++ [l]) (n + k) s') :
    P m.handlerLabels k s := by
  have all : ∀ {ls done : List Label} {n : Nat} {ks : List Nat} {s s' : State}, Yields (ls.mapM (addHandlerEntry m)) s ks s' →
      (∀ l ∈ ls, l ∈ m.handlerLabels) → P done n s → P (done ++ ls) (n + ks.foldr (· + ·) 0) s' := by
    intro ls
    induction ls with
    | nil =>
      intro done n ks s s' h _ hp
      simp only [yields_mapM_nil] at h
      obtain ⟨rfl, rfl⟩ := h
      rw [List.append_nil]
      exact hp
    | cons l ls ih =>
      intro done n ks s s' h hls hp
      rw [yields_mapM_cons] at h
      obtain ⟨k, t, ks, hl, hrest, rfl⟩ := h
      have hone := step done n l s k t (hls l List.mem_cons_self) hl hp
      have hrest := ih hrest (fun l' hl' => hls l' (List.mem_cons_of_mem l hl')) hone
      rwa [List.append_assoc, List.singleton_append, Nat.add_assoc] at hrest
  simp only [addHandlerEntries, yields_bind, yields_pure] at h
  obtain ⟨ks, t, hall, rfl, rfl⟩ := h
  have htotal := all hall (fun _ hl => hl) start
  rwa [List.nil_append, Nat.zero_add] at htotal

/-- Whatever entry is made is that of its instruction. -/
theorem addHandlerEntry_spec (h : Yields (addHandlerEntry m l) s k s') (hl : l ∈ m.handlerLabels) (hb : s.Blank m) : s'.Blank m := by
  obtain ⟨i, hi, ⟨hnone, -, rfl, -⟩ | ⟨-, rfl, -⟩⟩ := addHandlerEntry_cases h
  · exact hb.withEntry hi hl hnone
  · exact hb

/-- Nothing is visited when entries are made. -/
theorem addHandlerEntries_spec (h : Yields (addHandlerEntries m) (.ofMethod m) k s) : s.Blank m :=
  addHandlerEntries_induction (P := fun _ _ s => s.Blank m) h (.ofMethod m) fun _ _ _ _ _ _ hl hone hb => addHandlerEntry_spec hone hl hb

/-- Of the handlers, exactly those that are jumped to have entries of their own. -/
theorem splits_addHandlerEntries (h : Yields (addHandlerEntries m) (.ofMethod m) k s) : s.Splits m := by
  obtain ⟨hjumped, hall⟩ : (∀ e ∈ s.handlerEntries, m.isJumpTarget e.label) ∧
      ∀ l ∈ m.handlerLabels, m.isJumpTarget l → ∀ i, m.labelIndex? l = some i → (s.handlerEntry? i).isSome := by
    refine addHandlerEntries_induction (P := fun done _ s => (∀ e ∈ s.handlerEntries, m.isJumpTarget e.label) ∧
      ∀ l ∈ done, m.isJumpTarget l → ∀ i, m.labelIndex? l = some i → (s.handlerEntry? i).isSome) h ?_ ?_
    · exact ⟨fun e he => (by cases he), fun l hl => (by cases hl)⟩
    · rintro done - l s k s' - hone ⟨hjumped, hdone⟩
      obtain ⟨i, hi, ⟨hnone, hjump, rfl, -⟩ | ⟨hjump, rfl, -⟩⟩ := addHandlerEntry_cases hone
      · refine ⟨fun e he => ?_, fun l' hl' hjump' j hj => ?_⟩
        · rcases List.mem_append.mp he with hold | hnew
          · exact hjumped e hold
          · rw [List.mem_singleton.mp hnew]
            exact hjump
        · rw [find_entry_withEntry, Option.isSome_or, Bool.or_eq_true]
          rcases List.mem_append.mp hl' with hold | hnew
          · exact Or.inl (hdone l' hold hjump' j hj)
          · obtain rfl := List.mem_singleton.mp hnew
            obtain rfl := Option.some.inj (hi.symm.trans hj)
            exact Or.inr (by rw [if_pos rfl]; rfl)
      · refine ⟨hjumped, fun l' hl' hjump' j hj => ?_⟩
        rcases List.mem_append.mp hl' with hold | hnew
        · exact hdone l' hold hjump' j hj
        · obtain rfl := List.mem_singleton.mp hnew
          obtain rfl := Option.some.inj (hi.symm.trans hj)
          exact hjump hjump'
  have hfit := (addHandlerEntries_spec h).fit
  intro l hl i hi
  refine ⟨fun hsome => ?_, fun hjump => hall l hl hjump i hi⟩
  obtain ⟨e, he⟩ := Option.isSome_iff_exists.mp hsome
  exact hfit.label_eq he hi ▸ hjumped e (mem_of_find_entry he).1

end Lowering
end ThreeAddress
