import ThreeAddress.Proofs.Traversal.Between
import ThreeAddress.Proofs.Traversal.Failures
import ThreeAddress.Proofs.Traversal.Handlers

/-!
# Entries are made once

The entries of shared handlers are made at the outset: one for each label of a handler to which some operation transfers control, with the
caught exception in a register that belongs to nothing else. Visits make no entries and lose none. Whoever makes the entries again,
whenever that is, makes none and leaves the state as it is.
-/

namespace ThreeAddress

open State Lowering

/-- Every handler that is jumped to has an entry of its own, with the exception in a register of its own. The registers of operands are
given. -/
structure Method.Entered (m : Method) (entries : List HandlerEntry) (registers : Registers) (register : OperandId → Option RegisterId) :
    Prop where
  /-- No label has two entries. -/
  once : (entries.map (·.label)).Nodup
  /-- The labels with entries are those of handlers that some operation names. -/
  jumped : ∀ l, l ∈ entries.map (·.label) ↔ (∃ x ∈ m.exceptions, x.handler = l) ∧ ∃ op ∈ m.code, l ∈ op.labels
  /-- An entry is that of the instruction of its label. -/
  keyed : ∀ e ∈ entries, m.labelIndex? e.label = some e.insn ∧ entries.find? (·.insn == e.insn) = some e
  /-- The register of an entry is not that of another entry, of another operand or of a local slot. -/
  bound : ∀ e ∈ entries, ∃ r, register e.operand = some r ∧ (∀ e' ∈ entries, register e'.operand = some r → e' = e) ∧
    (∀ o, register o = some r → o = e.operand) ∧ ∀ k, registers.slot? k ≠ some r

/-- The entries of a method were made, and whoever makes them again makes none and changes nothing. -/
structure Lowering.EntriesMade (m : Method) (s : State) : Prop where
  made : Yields (addHandlerEntries m) (.ofMethod m) s.handlerEntries.length s
  entered : m.Entered s.handlerEntries s.registers fun o => (s.operand o).register
  /-- Nothing but the entries that there are matters. -/
  again : ∀ s', s'.handlerEntries = s.handlerEntries → Yields (addHandlerEntries m) s' 0 s'
  /-- This holds at whatever point of a visit. -/
  later : ∀ test s', Traversal.Between test m s' → Yields (addHandlerEntries m) s' 0 s'

variable {m : Method} {s s' : State} {k i : Nat} {l : Label} {e e' : HandlerEntry} {test : EdgeTest}

/-! ## Entries kept apart -/

/-- No label has two entries, and no two operands share a register. -/
structure State.Separate (s : State) : Prop where
  labels : (s.handlerEntries.map (·.label)).Nodup
  registers : ∀ o o' r, (s.operand o).register = some r → (s.operand o').register = some r → o' = o

/-- A label whose instruction has no entry has no entry either. -/
theorem State.Blank.label_not_mem (h : s.Blank m) (hi : m.labelIndex? l = some i) (hn : s.handlerEntry? i = none) :
    l ∉ s.handlerEntries.map (·.label) := by
  intro hl
  obtain ⟨e, he, rfl⟩ := List.mem_map.mp hl
  obtain ⟨hfind, -, hlabel⟩ := h.fit e he
  obtain rfl := Option.some.inj (hlabel.symm.trans hi)
  rw [hn] at hfind
  cases hfind

/-- An operand is the exception of one entry, that of the instruction where it was produced. -/
theorem State.Blank.entry_eq (h : s.Blank m) (he : e ∈ s.handlerEntries) (he' : e' ∈ s.handlerEntries) (ho : e'.operand = e.operand) :
    e' = e := by
  have insn : e'.insn = e.insn := by rw [← (h.operand e he).2, ← (h.operand e' he').2, ho]
  have found := (h.fit e he).1
  rw [← insn, (h.fit e' he').1] at found
  exact Option.some.inj found

/-- The next register is not that of an operand. -/
theorem State.Blank.register_ne_fresh {o : OperandId} (h : s.Blank m) : (s.operand o).register ≠ some s.registers.fresh.1 := by
  intro hr
  obtain ⟨-, ⟨q, hq, hlt⟩, -⟩ := h.made o (known_of_register hr)
  rw [hr, Option.some.injEq] at hq
  exact absurd hlt (hq ▸ Nat.lt_irrefl s.registers.all.size)

/-- A new entry is apart from those that there are. -/
theorem State.Separate.withEntry (h : s.Separate) (hb : s.Blank m) (hi : m.labelIndex? l = some i) (hn : s.handlerEntry? i = none) :
    (s.withEntry i l).Separate where
  labels := by
    have hmap : (s.withEntry i l).handlerEntries.map (·.label) = s.handlerEntries.map (·.label) ++ [l] := List.map_append
    rw [hmap, List.nodup_append]
    refine ⟨h.labels, List.pairwise_singleton _ _, fun l' hl' l'' hl'' => ?_⟩
    rw [List.mem_singleton.mp hl'']
    rintro rfl
    exact hb.label_not_mem hi hn hl'
  registers := by
    intro o o' r hr hr'
    rcases known_withEntry.mp (known_of_register hr) with hk | rfl <;>
      rcases known_withEntry.mp (known_of_register hr') with hk' | rfl
    · rw [hk.operand_withEntry] at hr
      rw [hk'.operand_withEntry] at hr'
      exact h.registers o o' r hr hr'
    · rw [hk.operand_withEntry] at hr
      rw [operand_withEntry_next] at hr'
      exact absurd (hr.trans hr'.symm) hb.register_ne_fresh
    · rw [operand_withEntry_next] at hr
      rw [hk'.operand_withEntry] at hr'
      exact absurd (hr'.trans hr.symm) hb.register_ne_fresh
    · rfl

namespace Lowering

/-- Handlers are labels of the code where all labels are. -/
theorem exists_labelIndex?_of_handler (labels : undefinedLabel? m = none) (hl : l ∈ m.handlerLabels) : ∃ i, m.labelIndex? l = some i :=
  Option.isSome_iff_exists.mp (undefinedLabel?_eq_none.mp labels l (Method.mem_referredLabels_of_mem_handlerLabels hl))

/-- As many entries as are made are there in the end, apart from each other. -/
theorem separate_addHandlerEntries (h : Yields (addHandlerEntries m) (.ofMethod m) k s) : k = s.handlerEntries.length ∧ s.Separate := by
  have all : k = s.handlerEntries.length ∧ s.Blank m ∧ s.Separate := by
    refine addHandlerEntries_induction (P := fun _ n s => n = s.handlerEntries.length ∧ s.Blank m ∧ s.Separate) h ?_ ?_
    · exact ⟨rfl, .ofMethod m, List.nodup_nil, fun o o' r hr => absurd (known_of_register hr) (Nat.not_lt_zero o.index)⟩
    · rintro done n l s k s' hl hone ⟨rfl, hb, hs⟩
      obtain ⟨i, hi, ⟨hnone, -, rfl, rfl⟩ | ⟨-, rfl, rfl⟩⟩ := addHandlerEntry_cases hone
      · have one_more : (s.withEntry i l).handlerEntries.length = s.handlerEntries.length + 1 := List.length_append
        exact ⟨one_more.symm, hb.withEntry hi hl hnone, hs.withEntry hb hi hnone⟩
      · exact ⟨rfl, hb, hs⟩
  exact ⟨all.1, all.2.2⟩

/-- The labels with entries are those of handlers that are jumped to. -/
theorem mem_labels_iff (labels : undefinedLabel? m = none) (hb : s.Blank m) (hs : s.Splits m) :
    l ∈ s.handlerEntries.map (·.label) ↔ l ∈ m.handlerLabels ∧ m.isJumpTarget l := by
  rw [List.mem_map]
  constructor
  · rintro ⟨e, he, rfl⟩
    obtain ⟨hfind, handler, hlabel⟩ := hb.fit e he
    exact ⟨handler, (hs e.label handler e.insn hlabel).mp (by rw [hfind]; rfl)⟩
  · rintro ⟨handler, jump⟩
    obtain ⟨i, hi⟩ := exists_labelIndex?_of_handler labels handler
    obtain ⟨e, he⟩ := Option.isSome_iff_exists.mp ((hs l handler i hi).mpr jump)
    exact ⟨e, (mem_of_find_entry he).1, hb.fit.label_eq he hi⟩

/-- The entries that are made are those of the handlers that are jumped to, and their registers are their own. -/
theorem entered_addHandlerEntries (labels : undefinedLabel? m = none) (h : Yields (addHandlerEntries m) (.ofMethod m) k s) :
    m.Entered s.handlerEntries s.registers fun o => (s.operand o).register := by
  have hb := addHandlerEntries_spec h
  obtain ⟨-, hs⟩ := separate_addHandlerEntries h
  refine ⟨hs.labels, fun l => ?_, fun e he => ?_, fun e he => ?_⟩
  · rw [mem_labels_iff labels hb (splits_addHandlerEntries h), Method.mem_handlerLabels, Method.isJumpTarget_iff]
  · obtain ⟨hfind, -, hlabel⟩ := hb.fit e he
    exact ⟨hlabel, hfind⟩
  · obtain ⟨-, ⟨r, hr, -⟩, -⟩ := hb.made e.operand (hb.operand e he).1
    refine ⟨r, hr, fun e' he' hr' => ?_, fun o ho => hs.registers e.operand o r hr ho, fun k hk => ?_⟩
    · exact hb.entry_eq he he' (hs.registers e.operand e'.operand r hr hr')
    · rw [hb.slot?] at hk
      cases hk

/-! ## Entries made again -/

/-- Entries can be made where all labels occur in the code. -/
theorem exists_addHandlerEntries (labels : undefinedLabel? m = none) : ∃ k s, Yields (addHandlerEntries m) (.ofMethod m) k s := by
  have handlers : ∀ l ∈ m.handlerLabels, (m.labelIndex? l).isSome := fun l hl =>
    Option.isSome_iff_exists.mpr (exists_labelIndex?_of_handler labels hl)
  cases h : (addHandlerEntries m).run (.ofMethod m) with
  | error f => exact (failsBy_addHandlerEntries (P := fun _ => False) handlers f h).elim
  | ok p => exact ⟨p.1, p.2, h⟩

/-- A handler that has an entry, or needs none, gets none. -/
theorem addHandlerEntry_again (hi : m.labelIndex? l = some i) (h : m.isJumpTarget l → (s.handlerEntry? i).isSome) :
    Yields (addHandlerEntry m l) s 0 s := by
  have none_needed : needsEntry m s i l = false := by
    unfold needsEntry
    cases hjump : m.isJumpTarget l with
    | false => exact Bool.and_false _
    | true => rw [Bool.and_true, Option.isNone_eq_false_iff]; exact h hjump
  refine yields_bind.mpr ⟨i, s, yields_lift.mpr ⟨labelIndex_eq_ok.mpr hi, rfl⟩, ?_⟩
  refine yields_bind.mpr ⟨s, s, yields_get.mpr ⟨rfl, rfl⟩, ?_⟩
  rw [none_needed]
  exact yields_pure.mpr ⟨rfl, rfl⟩

/-- Where every handler that is jumped to has an entry, none is made. -/
theorem addHandlerEntries_again (labels : undefinedLabel? m = none) (h : s.Splits m) : Yields (addHandlerEntries m) s 0 s := by
  refine run_count_of_idle fun l hl => ?_
  obtain ⟨i, hi⟩ := exists_labelIndex?_of_handler labels hl
  exact addHandlerEntry_again hi (h l hl i hi).mpr

end Lowering

/-- Visits make no entries, so that exactly the handlers that are jumped to have some at whatever point of a visit. -/
theorem Traversal.Between.splits (h : Between test m s) : s.Splits m :=
  (h.sound_of (g := Guide.splits m) fun _ started =>
    (start_spec started (Guide.free_begins m)).guided (splits_of_start started) fun _ _ => trivial).2

/-- Where all labels occur in the code, the entries are made, once and for all. -/
theorem Lowering.exists_entriesMade (labels : undefinedLabel? m = none) : ∃ s, EntriesMade m s := by
  obtain ⟨k, s, h⟩ := exists_addHandlerEntries labels
  obtain ⟨rfl, -⟩ := separate_addHandlerEntries h
  have hsplit := splits_addHandlerEntries h
  refine ⟨s, h, entered_addHandlerEntries labels h, fun s' hs' => ?_, fun test s' hs' => addHandlerEntries_again labels hs'.splits⟩
  exact addHandlerEntries_again labels (hsplit.congr hs')

end ThreeAddress
