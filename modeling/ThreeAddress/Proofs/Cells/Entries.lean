import ThreeAddress.Proofs.Cells.Linked
import ThreeAddress.Proofs.Traversal.Entries

/-!
# Cells of entries

An entry of a shared handler comes with a cell for the register to which it binds the exception. At the outset there are no other cells, so
that the register of an entry is in its own cell alone. With cells and without, entries are made once.
-/

namespace ThreeAddress

open Lowering (undefinedLabel?)

/-- The entries of a method were made with their cells, and whoever makes them again makes none and changes nothing. -/
structure Cells.EntriesMade (m : Method) (a : CellState) : Prop where
  made : (addHandlerEntries m).run (.ofMethod m) = .ok (a.handlerEntries.length, a)
  entered : m.Entered (a.handlerEntries.map (·.toHandlerEntry)) a.registers fun o => (a.operand o).register
  /-- The cell of an entry holds the register of its exception, which no other cell mentions. -/
  target : ∀ e ∈ a.handlerEntries, ∃ r, (a.operand e.operand).register = some r ∧ a.cells[e.target.index]? = some (.register r) ∧
    ∀ k, k.index < a.cells.size → a.mentionsAt r k → k = e.target
  /-- Nothing but the entries that there are matters. -/
  again : ∀ a', a'.handlerEntries = a.handlerEntries → (addHandlerEntries m).run a' = .ok (0, a')
  /-- This holds at whatever point of a visit. -/
  later : ∀ test a', Traversal.Between test m a' → (addHandlerEntries m).run a' = .ok (0, a')

variable {m : Method} {L : Ledger} {a a' : CellState} {s : State} {k i : Nat} {l : Label} {e : CellEntry} {test : EdgeTest}

namespace CellState

/-- Every cell is that of an entry. -/
def OnlyTargets (a : CellState) : Prop :=
  ∀ k : CellId, k.index < a.cells.size → ∃ e ∈ a.handlerEntries, e.target = k

/-- The handlers that are jumped to have entries. -/
def Splits (m : Method) (a : CellState) : Prop :=
  ∀ l ∈ m.handlerLabels, ∀ i, m.labelIndex? l = some i → m.isJumpTarget l → (a.handlerEntry? i).isSome

theorem OnlyTargets.withEntry (h : a.OnlyTargets) (i : Nat) (l : Label) (r : RegisterId) : (a.withEntry i l r).OnlyTargets := by
  intro k hk
  have hsize : (a.withEntry i l r).cells.size = a.cells.size + 1 := Array.size_push _
  rw [hsize] at hk
  rcases Nat.lt_succ_iff_lt_or_eq.mp hk with hold | hnew
  · obtain ⟨e, he, hek⟩ := h k hold
    exact ⟨e, List.mem_append_left _ he, hek⟩
  · refine ⟨_, List.mem_append_right _ (List.mem_singleton_self _), ?_⟩
    cases k
    exact congrArg CellId.mk hnew.symm

end CellState

/-- A state with cells has the entries of one without. -/
theorem Books.handlerEntries (h : Books m L a s) : a.handlerEntries.map (·.toHandlerEntry) = s.handlerEntries := by
  rw [← List.forall₂_eq_eq_eq, List.forall₂_map_left_iff]
  exact h.entries.imp fun _ _ he => he.1

/-- A state with cells has entries where one without has them. -/
theorem Books.splits (h : Books m L a s) (hs : s.Splits m) : a.Splits m := by
  intro l hl i hi hjump
  rw [← Option.isSome_map, h.handlerEntry?]
  exact (hs l hl i hi).mpr hjump

namespace Cells

/-- What making the entry of a handler does. -/
theorem run_addHandlerEntry (hi : m.labelIndex? l = some i) : (addHandlerEntry m l).run a =
    .ok (if (a.handlerEntry? i).isNone && m.isJumpTarget l then
      (1, CellState.withEntry { a with registers := a.registers.fresh.2 } i l a.registers.fresh.1) else (0, a)) := by
  unfold addHandlerEntry
  rw [Lowering.labelIndex_eq_ok.mpr hi]
  change (if (a.handlerEntry? i).isNone && m.isJumpTarget l then _ else _ : CellM Nat).run a = _
  split
  · rfl
  · rfl

/-- Whatever entries are made, every cell is that of an entry. -/
theorem onlyTargets_addHandlerEntries (labels : undefinedLabel? m = none) (h : (addHandlerEntries m).run (.ofMethod m) = .ok (k, a)) :
    a.OnlyTargets := by
  obtain ⟨⟨ks, a'⟩, hall, h⟩ := bind_eq_ok.mp h
  obtain ⟨-, rfl⟩ := Prod.mk.inj (pure_eq_ok.mp h)
  refine run_mapM_keeps hall (fun k hk => absurd hk (Nat.not_lt_zero k.index)) fun l hl a k a' hone ha => ?_
  obtain ⟨i, hi⟩ := Lowering.exists_labelIndex?_of_handler labels hl
  have hrun := (run_addHandlerEntry hi).symm.trans hone
  split at hrun
  · cases hrun
    exact CellState.OnlyTargets.withEntry (a := { a with registers := a.registers.fresh.2 }) ha i l _
  · cases hrun
    exact ha

/-- Where every handler that is jumped to has an entry, none is made. -/
theorem addHandlerEntries_again (labels : undefinedLabel? m = none) (h : a.Splits m) : (addHandlerEntries m).run a = .ok (0, a) := by
  refine run_count_of_idle fun l hl => ?_
  obtain ⟨i, hi⟩ := Lowering.exists_labelIndex?_of_handler labels hl
  have none_needed : ¬ ((a.handlerEntry? i).isNone && m.isJumpTarget l) := by
    rw [Bool.and_eq_true]
    rintro ⟨hnone, hjump⟩
    rw [Option.isNone_iff_eq_none] at hnone
    simpa [hnone] using h l hl i hi hjump
  rw [run_addHandlerEntry hi, if_neg none_needed]

/-- The cell of an entry holds the register of its exception, and no other cell mentions it. -/
theorem target_of_books (h : Books m L a s) (ha : a.OnlyTargets) (hs : s.Separate) (he : e ∈ a.handlerEntries) {r : RegisterId}
    (hr : (a.operand e.operand).register = some r) :
    a.cells[e.target.index]? = some (.register r) ∧ ∀ k, k.index < a.cells.size → a.mentionsAt r k → k = e.target := by
  -- What the books say about the cell of an entry.
  have holds : ∀ e ∈ a.handlerEntries, a.definition? (a.operand e.operand).insn = some e.target ∧
      ∃ r, (a.operand e.operand).register = some r ∧ a.cell e.target = .register r ∧ e.target.index < a.cells.size := by
    intro e he
    obtain ⟨e', -, rfl, hown⟩ := exists_of_forall₂ h.entries.flip he
    obtain ⟨hdef, r, hr, hcell⟩ := h.holds.defines e.target _ trivial hown
    exact ⟨hdef, r, hr, hcell, h.holds.lt_of_owner? hown⟩
  obtain ⟨hdef, q, hq, hcell, hlt⟩ := holds e he
  obtain rfl := Option.some.inj (hq.symm.trans hr)
  refine ⟨by rw [CellState.getElem?_cells hlt, hcell], fun k hk hmentions => ?_⟩
  obtain ⟨e', he', rfl⟩ := ha k hk
  obtain ⟨hdef', q', hq', hcell', -⟩ := holds e' he'
  have hsame : q' = q := by
    rw [CellState.mentionsAt, hcell'] at hmentions
    simpa [Rvalue.register] using hmentions
  subst hsame
  rw [h.register] at hq hq'
  rw [hs.registers _ _ _ hq hq', hdef] at hdef'
  exact (Option.some.inj hdef').symm

/-- Where all labels occur in the code, the entries and their cells are made, once and for all. -/
theorem exists_entriesMade (labels : undefinedLabel? m = none) : ∃ a, EntriesMade m a := by
  obtain ⟨s, made, entered, -, -⟩ := Lowering.exists_entriesMade labels
  obtain ⟨⟨_, a⟩, hrun, rfl, L, -, books, -⟩ := Accord.exists_ok_left agrees_addHandlerEntries made
  have hsplit := books.splits (Lowering.splits_addHandlerEntries made)
  have registers : (fun o => (a.operand o).register) = fun o => (s.operand o).register := funext books.register
  have hentered : m.Entered (a.handlerEntries.map (·.toHandlerEntry)) a.registers fun o => (a.operand o).register := by
    rw [books.handlerEntries, books.registers, registers]
    exact entered
  refine ⟨a, ?_, hentered, fun e he => ?_, fun a' ha' => ?_, fun test a' ha' => ?_⟩
  · have hcount : a.handlerEntries.length = s.handlerEntries.length := by rw [← books.handlerEntries, List.length_map]
    rw [hcount]
    exact hrun
  · obtain ⟨r, hr, -⟩ := hentered.bound e.toHandlerEntry (List.mem_map_of_mem he)
    exact ⟨r, hr, target_of_books books (onlyTargets_addHandlerEntries labels hrun) (Lowering.separate_addHandlerEntries made).2 he hr⟩
  · refine addHandlerEntries_again labels fun l hl i hi hjump => ?_
    rw [CellState.handlerEntry?, ha']
    exact hsplit l hl i hi hjump
  · obtain ⟨L', s', books', between⟩ := ha'.books
    exact addHandlerEntries_again labels (books'.splits between.splits)

end Cells

/-- Splitting the handlers of a method whose labels all occur in its code is complete and idempotent: it makes one entry for each handler that
is jumped to, at the instruction of its label and with a register of its own, and from then on, at whatever point of a visit, it makes none
and changes nothing. -/
theorem Method.handlers_split (labels : undefinedLabel? m = none) :
    (∃ s, Lowering.EntriesMade m s) ∧ ∃ a, Cells.EntriesMade m a :=
  ⟨Lowering.exists_entriesMade labels, Cells.exists_entriesMade labels⟩

/-- Of the two handlers of `sharing` one is jumped to; it has one entry although the exception table has it twice. -/
theorem Method.handlers_split_sharing : undefinedLabel? sharing = none ∧
    (∃ s, Lowering.EntriesMade sharing s ∧ s.handlerEntries = [⟨4, ⟨3⟩, ⟨0⟩⟩] ∧ (s.operand ⟨0⟩).register = some ⟨0⟩) ∧
    ∃ a, Cells.EntriesMade sharing a ∧ a.handlerEntries = [⟨⟨4, ⟨3⟩, ⟨0⟩⟩, ⟨0⟩⟩] ∧ a.cells = #[.register ⟨0⟩] := by
  have labels : undefinedLabel? sharing = none := by decide
  obtain ⟨⟨s, hs⟩, a, ha⟩ := handlers_split labels
  have plain : ((Lowering.addHandlerEntries sharing).run (.ofMethod sharing)).map
      (fun p => (p.2.handlerEntries, (p.2.operand ⟨0⟩).register)) = .ok ([⟨4, ⟨3⟩, ⟨0⟩⟩], some ⟨0⟩) := by decide +kernel
  have cells : ((Cells.addHandlerEntries sharing).run (.ofMethod sharing)).map (fun p => (p.2.handlerEntries, p.2.cells)) =
      .ok ([⟨⟨4, ⟨3⟩, ⟨0⟩⟩, ⟨0⟩⟩], #[.register ⟨0⟩]) := by decide +kernel
  rw [hs.made] at plain
  rw [ha.made] at cells
  obtain ⟨entries, register⟩ := Prod.mk.inj (Except.ok.inj plain)
  obtain ⟨targets, values⟩ := Prod.mk.inj (Except.ok.inj cells)
  exact ⟨labels, ⟨s, hs, entries, register⟩, a, ha, targets, values⟩

end ThreeAddress
