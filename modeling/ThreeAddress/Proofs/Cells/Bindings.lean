import ThreeAddress.Proofs.Cells.Kept
import ThreeAddress.Proofs.Lowering.Beginnings

/-!
# Operands that get registers

The four ways in which an operand gets a register: it is evaluated into one, it moves to another one, it is the exception that a label
binds, or that of an entry. The uses of the operand, and the cell of the statement that defines it, all name the register afterwards.
-/

namespace ThreeAddress

variable {m : Method} {L : Ledger} {a : CellState} {s : State} {i : Nat} {j k : CellId} {o : OperandId} {r q : RegisterId}

namespace CellState

/-- An instruction without an entry defines the register that its first statement assigns. -/
theorem definition?_of_assign {rest : List Pending} (entry : a.handlerEntry? i = none) (unit : a.unit i = .assign j k :: rest) :
    a.definition? i = some j := by
  simp [definition?, entry, unit]

theorem definition?_of_identity {rest : List Pending} {place : Ref CellId} (entry : a.handlerEntry? i = none)
    (unit : a.unit i = .identity j place :: rest) : a.definition? i = some j := by
  simp [definition?, entry, unit]

/-- The operand stands for the register, and the statement is built that evaluates it; its uses are not written yet. -/
def assigned (a : CellState) (o : OperandId) (r : RegisterId) : CellState :=
  (((a.bindTo o r).addCell (.register r)).addCell (a.operand o).value).modifyUnit (a.operand o).insn fun _ =>
    [.assign a.nextCell ⟨a.cells.size + 1⟩]

/-- The operand is evaluated into the register where it was produced, and its uses name the register. -/
def bound (a : CellState) (o : OperandId) (r : RegisterId) : CellState :=
  (a.assigned o r).write (a.operand o).uses (.register r)

/-- The definition of an operand and its uses name another register. -/
def renamed (a : CellState) (o : OperandId) (k : CellId) (r : RegisterId) : CellState :=
  ((a.write [k] (.register r)).bindTo o r).write (a.operand o).uses (.register r)

theorem unit_bound (inside : (a.operand o).insn < a.units.size) : (a.bound o r).unit i =
    if i = (a.operand o).insn then [.assign a.nextCell ⟨a.cells.size + 1⟩] else a.unit i :=
  unit_modifyUnit inside

end CellState

open CellState

/-! ## Cells -/

namespace CellState.Holds

/-- The cells of an operand that is evaluated into a register. -/
theorem bound (h : a.Holds L fun _ => True) (hsize : a.operands.size = L.operands) (hk : L.Known o) (hn : (a.operand o).register = none)
    (entry : a.handlerEntry? (a.operand o).insn = none) (unit : a.unit (a.operand o).insn = [])
    (inside : (a.operand o).insn < a.units.size) (r : RegisterId) :
    (a.bound o r).Holds ((L.add (.definition o)).add (.value o)) fun _ => True := by
  have hlt : o.index < a.operands.size := hsize ▸ hk
  have hg : L.Grows ((L.add (.definition o)).add (.value o)) := (Ledger.Grows.add L _).trans (.add _ _)
  have operand : (a.bound o r).operand o = { a.operand o with register := some r } := (operand_bindTo hlt).trans (if_pos rfl)
  have used : ∀ k ∈ (a.operand o).uses, L.read? k = some o := fun k => (h.uses o k).mp
  -- Until the uses are written, everything holds that does not concern the operand.
  have h₁ : (a.bindTo o r).Holds L (· ≠ o) := (h.bindTo hlt).mono fun _ hp => ⟨trivial, hp⟩
  have h₂ : ((a.bindTo o r).addCell (.register r)).Holds (L.add (.definition o)) (· ≠ o) :=
    h₁.addCell nofun (fun _ heq hp => hp (Owner.definition.inj heq).symm) (fun _ hp => Option.some.inj hp ▸ hk) nofun nofun
  have value : (((a.bindTo o r).addCell (.register r)).operand o).value = (a.operand o).value :=
    (congrArg CellOperand.value operand :)
  have h₃ : (((a.bindTo o r).addCell (.register r)).addCell (a.operand o).value).Holds ((L.add (.definition o)).add (.value o)) (· ≠ o) :=
    h₂.addCell nofun nofun (fun _ hp => Option.some.inj hp ▸ hk) (fun _ heq => Owner.value.inj heq ▸ value.symm) nofun
  have h₄ : (a.assigned o r).Holds ((L.add (.definition o)).add (.value o)) (· ≠ o) :=
    h₃.congr (fun _ => rfl) rfl fun _ _ hd => definition?_modifyUnit inside (Or.inl unit) hd
  have h₅ : (a.bound o r).Holds ((L.add (.definition o)).add (.value o)) (· ≠ o) :=
    h₄.write (fun k hk => Or.inl (hg.owner? (Ledger.read?_eq_some.mp (used k hk)))) fun hne => hne rfl
  have cell : ∀ k, (a.bound o r).cell k = if k ∈ (a.operand o).uses then .register r else (a.assigned o r).cell k := fun k =>
    cell_write fun k hk => h₄.lt_of_read? (hg.read? (used k hk))
  refine h₅.restore (fun k hread => ?_) (fun k hown => ?_) ⟨a.nextCell, (Ledger.Grows.add _ _).owner? h.owner?_nextCell⟩
  · have hold : k ∈ (a.operand o).uses := by
      refine (h.uses o k).mpr (Ledger.read?_eq_some.mpr ?_)
      have hlast := (Ledger.owner?_add.mp (Ledger.read?_eq_some.mp hread)).resolve_right nofun
      exact (Ledger.owner?_add.mp hlast).resolve_right nofun
    rw [cell, if_pos hold, CellState.content, operand]
    rfl
  · -- There was no definition before.
    have hnew : k = a.nextCell := by
      rcases Ledger.owner?_add.mp ((Ledger.owner?_add.mp hown).resolve_right (by simp)) with hold | ⟨hnew, -⟩
      · obtain ⟨-, q, hq, -⟩ := h.defines k o trivial hold
        rw [hn] at hq
        cases hq
      · exact h.eq_nextCell_iff.mpr hnew
    subst hnew
    have unused : a.nextCell ∉ (a.operand o).uses := fun hmem => Nat.lt_irrefl _ (h.lt_of_read? (used _ hmem))
    rw [operand]
    refine ⟨definition?_of_assign entry ((unit_bound inside).trans (if_pos rfl)), r, rfl, ?_⟩
    have first : ((a.bindTo o r).addCell (.register r)).cell a.nextCell = .register r := cell_addCell.trans (if_pos rfl)
    have second : (a.assigned o r).cell a.nextCell = ((a.bindTo o r).addCell (.register r)).cell a.nextCell :=
      cell_addCell.trans (if_neg (by rw [size_addCell]; exact Nat.ne_of_lt (Nat.lt_succ_self _)))
    rw [cell, if_neg unused, second, first]

/-- The cells of an operand that moves to another register. -/
theorem renamed (h : a.Holds L fun _ => True) (hsize : a.operands.size = L.operands) (hk : L.Known o)
    (hown : L.owner? k = some (.definition o)) (r : RegisterId) : (a.renamed o k r).Holds L fun _ => True := by
  have hlt : o.index < a.operands.size := hsize ▸ hk
  have operand : (a.renamed o k r).operand o = { a.operand o with register := some r } :=
    (operand_bindTo (s := a.write [k] (.register r)) hlt).trans (if_pos rfl)
  have used : ∀ j ∈ (a.operand o).uses, L.read? j = some o := fun j => (h.uses o j).mp
  have h₁ : (a.write [k] (.register r)).Holds L (· ≠ o) :=
    (h.mono fun _ _ => trivial).write (fun j hj => Or.inr (List.mem_singleton.mp hj ▸ hown)) fun hne => hne rfl
  have h₂ : ((a.write [k] (.register r)).bindTo o r).Holds L (· ≠ o) := (h₁.bindTo hlt).mono fun _ hp => ⟨hp, hp⟩
  have h₃ : (a.renamed o k r).Holds L (· ≠ o) :=
    h₂.write (fun j hj => Or.inl (Ledger.read?_eq_some.mp (used j hj))) fun hne => hne rfl
  have cell : ∀ j, (a.renamed o k r).cell j = if j ∈ (a.operand o).uses then .register r else (a.write [k] (.register r)).cell j :=
    fun j => cell_write fun j hj => h₂.lt_of_read? (used j hj)
  refine h₃.restore (fun j hread => ?_) (fun j hj => ?_) ⟨k, hown⟩
  · rw [cell, if_pos ((h.uses o j).mpr hread), CellState.content, operand]
    rfl
  · -- An operand has one definition.
    have hdef := (h.defines j o trivial hj).1
    have hsame : j = k := Option.some.inj (hdef.symm.trans (h.defines k o trivial hown).1)
    rw [operand]
    refine ⟨hdef, r, rfl, ?_⟩
    rw [cell]
    split
    · rfl
    · rw [cell_write fun j hj => List.mem_singleton.mp hj ▸ h.lt_of_owner? hown, if_pos (hsame ▸ List.mem_singleton_self _)]

end CellState.Holds

/-! ## Books -/

namespace Books

/-- An operand without a register is evaluated into one. -/
theorem bind (h : Books m L a s) (hk : L.Known o) (hn : (s.operand o).register = none) (hu : s.unit (s.operand o).insn = [])
    (r : RegisterId) :
    Books m ((L.add (.definition o)).add (.value o)) (a.bound o r) ((s.bindTo o r).modifyUnit (s.operand o).insn fun _ => [.define o]) := by
  have inside := h.insideCode o hk
  have hinsn := h.insn o
  have renders : Pending.Renders ((L.add (.definition o)).add (.value o)) (.assign a.nextCell ⟨a.cells.size + 1⟩) (.define o) :=
    .define ((Ledger.Grows.add _ _).owner? h.holds.owner?_nextCell)
      (Ledger.owner?_add.mpr (Or.inr ⟨by simp [Ledger.add, h.holds.size], rfl⟩))
  have owned := ((h.toTracks.bindTo hk r).addCell (.definition o) (.register r)).addCell (.value o) (a.operand o).value
  have tracks := (owned.modifyUnit inside (f := fun _ => [.assign a.nextCell ⟨a.cells.size + 1⟩]) (g := fun _ => [.define o])
    (.cons renders .nil)).write (a.operand o).uses (.register r)
  rw [← hinsn] at tracks inside hu ⊢
  exact ⟨tracks, h.holds.bound h.sizes.1 hk ((h.register o).trans hn) (h.handlerEntry?_eq_none.mpr (hinsn ▸ h.atEntry o hk hn))
    (h.unit_eq_nil.mpr hu) (h.units.1 ▸ inside) r⟩

/-- An operand moves to another register. -/
theorem rename (h : Books m L a s) (hown : L.owner? k = some (.definition o)) (r : RegisterId) :
    Books m L (a.renamed o k r) (s.bindTo o r) :=
  have hk : L.Known o := h.holds.known k _ o hown rfl
  ⟨((h.toTracks.write [k] (.register r)).bindTo hk r).write _ _, h.holds.renamed h.sizes.1 hk hown r⟩

end Books

/-! ## The caught exception -/

namespace CellState

/-- The exception that a label binds to a register: an operand, the result of the label, a cell and a statement. -/
def caught (a : CellState) (i : Nat) (r : RegisterId) : CellState :=
  (((a.withOperand ⟨i, .ref .caughtException, some r, []⟩).modifyFrame i fun f => { f with out := some ⟨a.operands.size⟩ }).addCell
    (.register r)).modifyUnit i fun _ => [.identity a.nextCell .caughtException]

/-- One more entry, with the exception in a register. -/
def withEntry (a : CellState) (i : Nat) (l : Label) (r : RegisterId) : CellState :=
  { (a.withOperand ⟨i, .ref .caughtException, some r, []⟩).addCell (.register r) with
    handlerEntries := a.handlerEntries ++ [⟨⟨i, l, ⟨a.operands.size⟩⟩, a.nextCell⟩] }

/-- The new entry is the one of its instruction if there was none, and the others are as before. -/
theorem handlerEntry?_withEntry {l : Label} {j : Nat} : CellState.handlerEntry? (a.withEntry i l r) j =
    (a.handlerEntry? j).or (if i = j then some ⟨⟨i, l, ⟨a.operands.size⟩⟩, a.nextCell⟩ else none) := by
  simp only [ handlerEntry?, withEntry, List.find?_append, List.find?_singleton, beq_iff_eq]

end CellState

/-- A new operand that is bound from the outset, and the cell of its register: all that is missing is what defines the register. -/
theorem CellState.Holds.exception (h : a.Holds L fun _ => True) (hsize : a.operands.size = L.operands) (i : Nat) (r : RegisterId) :
    ((a.withOperand ⟨i, .ref .caughtException, some r, []⟩).addCell (.register r)).Holds
      (L.addOperand.add (.definition ⟨a.operands.size⟩)) (· ≠ ⟨a.operands.size⟩) := by
  have made : (a.withOperand ⟨i, .ref .caughtException, some r, []⟩).Holds L.addOperand (· ≠ ⟨a.operands.size⟩) :=
    h.withOperand hsize rfl fun p hp => ⟨trivial, fun heq => absurd (by cases p; exact congrArg OperandId.mk (heq.trans hsize.symm)) hp⟩
  refine made.addCell nofun (fun p heq hp => hp (Owner.definition.inj heq).symm) (fun p hp => ?_) nofun nofun
  obtain rfl := Option.some.inj hp
  exact Nat.lt_succ_of_le (Nat.le_of_eq hsize)

/-- Once something defines the register, nothing is missing. -/
theorem CellState.Holds.defineException (h : a.Holds (L.addOperand.add (.definition o)) (· ≠ o)) (hnew : ¬ L.Known o)
    (old : ∀ k w p, L.owner? k = some w → w.operand? = some p → L.Known p) (hk : k.index = L.owners.length)
    (definition : a.definition? (a.operand o).insn = some k) (register : (a.operand o).register = some r)
    (cell : a.cell k = .register r) : a.Holds (L.addOperand.add (.definition o)) fun _ => True := by
  have owner : (L.addOperand.add (.definition o)).owner? k = some (.definition o) := Ledger.owner?_add.mpr (Or.inr ⟨hk, rfl⟩)
  refine h.restore (fun j hread => ?_) (fun j hown => ?_) ⟨k, owner⟩
  · have hold := (Ledger.owner?_add.mp (Ledger.read?_eq_some.mp hread)).resolve_right nofun
    exact absurd (old j _ o hold rfl) hnew
  · obtain rfl : j = k := by
      have hlast := ((Ledger.owner?_add.mp hown).resolve_left fun hold => hnew (old j _ o hold rfl)).1
      cases j
      cases k
      exact congrArg CellId.mk (hlast.trans hk.symm)
    exact ⟨definition, r, register, cell⟩

namespace Books

/-- A label binds the caught exception. -/
theorem caught (h : Books m L a s) (hi : i < m.code.length) (entry : s.handlerEntry? i = none) (unit : s.unit i = []) (r : RegisterId) :
    Books m (L.addOperand.add (.definition s.nextOperand)) (a.caught i r)
      (((s.withOperand ⟨i, .ref .caughtException, some r⟩).modifyFrame i fun f => { f with out := some s.nextOperand }).modifyUnit i
        fun _ => [.caught s.nextOperand]) := by
  have hnext := h.toTracks.nextOperand
  have hknown : L.addOperand.Known s.nextOperand := Nat.lt_succ_of_le (Nat.le_of_eq (h.toTracks.eq_nextOperand_iff.mp rfl))
  have hnew : ¬ L.Known s.nextOperand := h.toTracks.not_known_nextOperand
  have inside : i < a.units.size := h.units.1 ▸ hi
  have hg := Ledger.Grows.addOperand L
  have tracks := h.toTracks.withOperand hi (v := .ref .caughtException) (w := .ref .caughtException) (q := some r) rfl nofun nofun
  have framed := tracks.modifyFrame hi (f := fun f => { f with out := some ⟨a.operands.size⟩ })
    (g := fun f => { f with out := some s.nextOperand })
    (by rw [hnext]; exact congrArg (fun f : Frame => { f with out := some ⟨a.operands.size⟩ }) (h.frame i)) (tracks.inputs i)
    (tracks.rowsKnown i) fun o ho => Option.some.inj ho ▸ hknown
  have owned := h.holds.exception h.sizes.1 i r
  rw [← hnext] at owned
  have renders : Pending.Renders (L.addOperand.add (.definition s.nextOperand)) (.identity a.nextCell .caughtException)
      (.caught s.nextOperand) := .caught (Ledger.owner?_add.mpr (Or.inr ⟨h.holds.size, rfl⟩))
  have stated : (a.caught i r).Tracks m (L.addOperand.add (.definition s.nextOperand)) _ :=
    (framed.addCell (.definition s.nextOperand) (.register r)).modifyUnit hi (f := fun _ => [.identity a.nextCell .caughtException])
      (g := fun _ => [.caught s.nextOperand]) (.cons renders .nil)
  have operand : (a.caught i r).operand s.nextOperand = ⟨i, .ref .caughtException, some r, []⟩ :=
    operand_withOperand.trans (if_pos (congrArg OperandId.index hnext))
  refine ⟨stated, CellState.Holds.defineException (k := a.nextCell) (r := r) ?_ hnew h.holds.known h.holds.size ?_ ?_ ?_⟩
  · exact owned.congr (fun _ => rfl) rfl fun j k hd => definition?_modifyUnit inside (Or.inl (h.toTracks.unit_eq_nil.mpr unit)) hd
  · rw [operand]
    exact definition?_of_identity (h.toTracks.handlerEntry?_eq_none.mpr entry) ((unit_modifyUnit inside).trans (if_pos rfl))
  · rw [operand]
  · exact cell_addCell.trans (if_pos rfl)

/-- A handler gets an entry of its own while no instruction has a statement and every operand is bound. -/
theorem withEntry (h : Books m L a s) (units : ∀ i, s.unit i = []) (bound : ∀ o, L.Known o → (s.operand o).register ≠ none) {l : Label}
    (here : m.code[i]? = some (.label l)) (entry : s.handlerEntry? i = none) (r : RegisterId) :
    Books m (L.addOperand.add (.definition s.nextOperand)) (a.withEntry i l r)
      { s.withOperand ⟨i, .ref .caughtException, some r⟩ with handlerEntries := s.handlerEntries ++ [⟨i, l, s.nextOperand⟩] } := by
  have hi : i < m.code.length := (List.getElem?_eq_some_iff.mp here).1
  have hnext := h.toTracks.nextOperand
  have hnew : ¬ L.Known s.nextOperand := h.toTracks.not_known_nextOperand
  have tracks := (h.toTracks.withOperand hi (v := .ref .caughtException) (w := .ref .caughtException) (q := some r) rfl nofun
    nofun).addCell (.definition s.nextOperand) (.register r)
  have owned := h.holds.exception h.sizes.1 i r
  rw [← hnext] at owned
  have owner : (L.addOperand.add (.definition s.nextOperand)).owner? a.nextCell = some (.definition s.nextOperand) :=
    Ledger.owner?_add.mpr (Or.inr ⟨h.holds.size, rfl⟩)
  -- Nothing has a statement yet, so what defines a register is an entry.
  have definition : ∀ j k, a.definition? j = some k → (a.withEntry i l r).definition? j = some k := by
    intro j k hd
    unfold definition? at hd ⊢
    rw [h.toTracks.unit_eq_nil.mpr (units j)] at hd
    cases he : a.handlerEntry? j with
    | none =>
      rw [he] at hd
      cases hd
    | some e =>
      rw [he] at hd
      rw [handlerEntry?_withEntry, he, Option.some_or]
      exact hd
  have operand : (a.withEntry i l r).operand s.nextOperand = ⟨i, .ref .caughtException, some r, []⟩ :=
    operand_withOperand.trans (if_pos (congrArg OperandId.index hnext))
  refine ⟨{ tracks with entries := ?_, atEntry := ?_, entryLabel := ?_ }, CellState.Holds.defineException (k := a.nextCell) (r := r) ?_ hnew
    h.holds.known h.holds.size ?_ ?_ ?_⟩
  · exact List.rel_append tracks.entries (.cons ⟨by rw [hnext], owner⟩ .nil)
  · -- The new operand is bound like the others.
    intro o hk hn
    change ((s.withOperand ⟨i, .ref .caughtException, some r⟩).operand o).register = none at hn
    by_cases ho : o = s.nextOperand
    · rw [ho, State.operand_withOperand_next] at hn
      cases hn
    · rw [State.operand_withOperand_of_ne ho] at hn
      exact absurd hn (bound o ((Nat.lt_succ_iff_lt_or_eq.mp hk).resolve_right (mt h.toTracks.eq_nextOperand_iff.mpr ho)))
  · intro j e he
    rw [State.handlerEntry?, List.find?_append, List.find?_singleton] at he
    rcases Option.or_eq_some_iff.mp he with hold | ⟨-, hlast⟩
    · exact h.entryLabel j e hold
    · split at hlast
      · rename_i hj
        obtain rfl : i = j := beq_iff_eq.mp hj
        exact ⟨l, here⟩
      · cases hlast
  · exact owned.congr (fun _ => rfl) rfl definition
  · rw [operand]
    unfold definition?
    rw [handlerEntry?_withEntry, h.toTracks.handlerEntry?_eq_none.mpr entry, Option.none_or, if_pos rfl]
  · rw [operand]
  · exact cell_addCell.trans (if_pos rfl)

end Books
end ThreeAddress
