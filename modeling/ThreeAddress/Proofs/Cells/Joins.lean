import ThreeAddress.Proofs.Cells.Steps
import ThreeAddress.Proofs.Lowering.Frames
import ThreeAddress.Proofs.Lowering.Joins

/-!
# Joins with cells

An operand that moves to another register has a definition to be renamed, with cells and without. When the operands of one position have
moved, the cell of that position names their register already.
-/

namespace ThreeAddress

variable {m : Method} {L : Ledger} {a : CellState} {s : State} {i : Nat} {k : CellId} {o : OperandId} {r : RegisterId}
  {row : List OperandId}

/-! ## Definitions -/

/-- The cell of an entry is that of the register of the exception. -/
theorem CellState.Tracks.owner?_target (h : a.Tracks m L s) {e : CellEntry} (he : a.handlerEntry? i = some e) :
    L.owner? e.target = some (.definition e.operand) := by
  obtain ⟨_, -, rfl, ht⟩ := exists_of_forall₂ h.entries.flip (List.mem_of_find?_eq_some he)
  exact ht

/-- Where a cell is there for the register of an operand, the operand has its definition without cells too. -/
theorem Books.definesOperand (h : Books m L a s) (hown : L.owner? k = some (.definition o)) : Lowering.definesOperand s o = true := by
  have hdef := (h.holds.defines k o trivial hown).1
  rw [h.insn] at hdef
  have hentry := h.toTracks.handlerEntry? (s.operand o).insn
  have hunit := h.unit (s.operand o).insn
  unfold CellState.definition? at hdef
  unfold Lowering.definesOperand
  dsimp only
  rw [← hentry]
  cases he : a.handlerEntry? (s.operand o).insn with
  | some e =>
    rw [he] at hdef
    have howner := h.toTracks.owner?_target he
    rw [Option.some.inj hdef, hown] at howner
    exact beq_iff_eq.mpr (Owner.definition.inj (Option.some.inj howner)).symm
  | none =>
    rw [he] at hdef
    dsimp only [Option.map_none] at hdef ⊢
    generalize a.unit (s.operand o).insn = ps at hunit hdef
    generalize s.unit (s.operand o).insn = ds at hunit
    cases hunit with
    | nil => cases hdef
    | cons hp _ =>
      rw [List.head?_cons] at hdef ⊢
      -- Only a statement that defines an operand has the cell of a definition on its left.
      cases hp with
      | define lhs =>
        rw [Option.some.inj hdef, hown] at lhs
        rw [Owner.definition.inj (Option.some.inj lhs), beq_self_eq_true, Bool.true_or]
      | caught target =>
        rw [Option.some.inj hdef, hown] at target
        rw [Owner.definition.inj (Option.some.inj target), beq_self_eq_true, Bool.or_true]
      | copy lhs | increment lhs | write lhs =>
        rw [Option.some.inj hdef, hown] at lhs
        cases lhs
      | _ => cases hdef

/-! ## Moving operands -/

/-- Writing what a cell holds already does nothing. -/
theorem CellState.write_same (hk : k.index < a.cells.size) : a.write [k] (a.cell k) = a := by
  have hcell : a.cell k = a.cells[k.index] := by rw [cell, Array.getElem?_eq_getElem hk, Option.getD_some]
  have hwrite : a.cells.setIfInBounds k.index (a.cell k) = a.cells := by
    rw [Array.setIfInBounds, dif_pos hk, hcell, Array.set_getElem_self]
  exact congrArg (fun cells => { a with cells }) hwrite

namespace Lowering

variable {s' : State} {u : PUnit} {q : RegisterId} {p : OperandId}

/-- An operand that is moved is in the register, and what was there stays there. -/
theorem rebind_register (h : Yields (rebind o r) s u s') (hk : s.Known o) :
    s'.operands.size = s.operands.size ∧ (s'.operand o).register = some r ∧
      ∀ p, (s.operand p).register = some r → (s'.operand p).register = some r := by
  have moved : ∀ p, (s.operand p).register = some r → ((s.bindTo o r).operand p).register = some r := fun p hp => by
    by_cases hpo : p = o
    · rw [hpo, State.operand_bindTo_self hk]
    · rwa [State.operand_bindTo_of_ne hpo]
  have self : ((s.bindTo o r).operand o).register = some r := by rw [State.operand_bindTo_self hk]
  simp only [rebind, yields_bind, yields_get] at h
  obtain ⟨_, _, ⟨rfl, rfl⟩, h⟩ := h
  split at h
  · obtain ⟨-, rfl⟩ := yields_bind_register.mp h
    exact ⟨State.bindTo_size, self, moved⟩
  · rename_i q hq
    simp only [yields_ite, yields_setRegister, yields_fail, yields_pure, and_false, or_false] at h
    rcases h with ⟨-, -, rfl⟩ | ⟨hqr, -, rfl⟩
    · exact ⟨State.bindTo_size, self, moved⟩
    · exact ⟨rfl, hq.trans (congrArg some (not_not.mp hqr)), fun p hp => hp⟩

/-- Operands that are moved one after the other are all in the register in the end. -/
theorem rebinds_register {os : List OperandId} (h : Yields (os.forM (rebind · r)) s u s') (hk : ∀ o ∈ os, s.Known o) :
    (∀ o ∈ os, (s'.operand o).register = some r) ∧ ∀ p, (s.operand p).register = some r → (s'.operand p).register = some r := by
  induction os generalizing s with
  | nil =>
    obtain rfl := yields_forM_nil.mp h
    exact ⟨nofun, fun p hp => hp⟩
  | cons o os ih =>
    obtain ⟨t, ho, hrest⟩ := yields_forM_cons.mp h
    obtain ⟨hsize, hself, hkept⟩ := rebind_register ho (hk o List.mem_cons_self)
    obtain ⟨hall, hkept'⟩ := ih hrest fun p hp => (hsize ▸ hk p (List.mem_cons_of_mem o hp) : p.index < t.operands.size)
    refine ⟨fun p hp => ?_, fun p hp => hkept' p (hkept p hp)⟩
    rcases List.mem_cons.mp hp with rfl | hp
    · exact hkept' p hself
    · exact hall p hp

end Lowering

namespace Cells

open Lowering (column)

/-- The operand moves to the register together with its definition. -/
theorem run_rename (a : CellState) (hk : o.index < a.operands.size) (k : CellId) (r : RegisterId) :
    (do setCell k (.register r); setRegister o r; updateUses o : CellM Unit).run a = .ok (⟨⟩, a.renamed o k r) := by
  have operand : ((a.write [k] (.register r)).bindTo o r).operand o = { a.operand o with register := some r } :=
    (CellState.operand_bindTo (s := a.write [k] (.register r)) hk).trans (if_pos rfl)
  refine (run_updateUses ((a.write [k] (.register r)).bindTo o r) o).trans ?_
  rw [CellState.content, operand]
  rfl

theorem agrees_rebind (h : Books m L a s) (hk : L.Known o) (r : RegisterId) :
    Agrees m L a s (rebind o r) (Lowering.rebind o r) Anything := by
  refine agrees_get_bind ?_
  rw [h.register]
  cases hr : (s.operand o).register with
  | none => exact agrees_bind_register h hk hr r
  | some q =>
    refine agrees_ite Iff.rfl (fun _ => ?_) fun _ => agrees_pure h trivial
    obtain ⟨k, hown⟩ := h.holds.defined o trivial (by rw [h.register, hr]; rfl)
    rw [if_pos (h.definesOperand hown), (h.holds.defines k o trivial hown).1]
    unfold Agrees
    dsimp only
    rw [run_rename a (h.sizes.1 ▸ hk : o.index < a.operands.size)]
    exact ⟨rfl, L, .refl L, h.rename hown r, trivial⟩

/-- One more statement behind those that an instruction has. -/
theorem agrees_appendUnit (h : Books m L a s) (hi : i < m.code.length) {p : Pending} {d : Draft} (hp : p.Renders L d) :
    Agrees m L a s (appendUnit i p) (Lowering.appendUnit i d) Anything := by
  refine agrees_modify (h.modifyUnit hi (List.rel_append (h.unit i) (.cons hp .nil)) ?_) (.refl L)
  cases a.unit i with
  | nil => exact Or.inl rfl
  | cons => exact Or.inr rfl

theorem agrees_bringInto (h : Books m L a s) (hk : L.Known o) (r : RegisterId) :
    Agrees m L a s (bringInto o r) (Lowering.bringInto o r) Anything := by
  refine agrees_get_bind ?_
  dsimp only
  rw [h.register]
  cases hr : (s.operand o).register with
  | none => exact agrees_bind_register h hk hr r
  | some q =>
    refine agrees_ite Iff.rfl (fun _ => ?_) fun _ => agrees_pure h trivial
    rw [h.insn]
    refine (makes_use h hk).agrees fun rhs L₁ a₁ hg₁ h₁ hrhs => ?_
    refine (makes_newCell h₁ _).agrees fun lhs L₂ a₂ hg₂ h₂ hlhs => ?_
    exact agrees_appendUnit h₂ (h.insideCode o hk) (.copy hlhs (hg₂.read? hrhs))

/-! ## Positions and rows -/

theorem agrees_meetingRegister (h : Books m L a s) (os : List OperandId) :
    Agrees m L a s (meetingRegister os) (Lowering.meetingRegister os) Anything := by
  refine agrees_get_bind ?_
  simp only [h.register]
  cases os.findSome? fun o => (s.operand o).register with
  | some r => exact agrees_pure h trivial
  | none => exact agrees_freshRegister h

/-- The cell of a position is one of the uses of an operand in its column. -/
theorem agrees_joinAt (h : Books m L a s) {os : List OperandId} (hc : ∀ p ∈ os, L.Known p) (hk : L.Known o) (shared : Option RegisterId)
    {place : Option CellId} (hplace : ∀ k, place = some k → ∃ p ∈ os, L.read? k = some p) :
    Agrees m L a s (joinAt os shared place o) (Lowering.joinAt os shared o) Anything := by
  cases shared with
  | some r => exact agrees_bind (agrees_bringInto h hk r) fun _ L' a' s' _ h' _ => agrees_pure h' trivial
  | none =>
    have all : ∀ p ∈ os ++ [o], L.Known p := fun p hp =>
      (List.mem_append.mp hp).elim (hc p) fun hp => List.mem_singleton.mp hp ▸ hk
    refine agrees_bind (agrees_meetingRegister h (os ++ [o])) fun r L₁ a₁ s₁ hg₁ h₁ _ => ?_
    refine agrees_bind_yields (agrees_forM h₁ fun p hp _ _ _ hg h' => agrees_rebind h' (hg.known (hg₁.known (all p hp))) r)
      fun _ L₂ a₂ s₂ hy hg₂ h₂ _ => ?_
    cases place with
    | none => exact agrees_pure h₂ trivial
    | some k =>
      -- The operand moved together with its uses, so the cell names the register already.
      obtain ⟨p, hp, hread⟩ := hplace k rfl
      have hread₂ := hg₂.read? (hg₁.read? hread)
      have hmem := List.mem_append_left [o] hp
      have hreg := (Lowering.rebinds_register hy fun q hq => h₁.toTracks.known.mpr (hg₁.known (all q hq))).1 p hmem
      have hcell : a₂.cell k = .register r := by
        rw [h₂.cell hread₂, CellState.content, CellOperand.content, h₂.register, hreg]
      have hsame : a₂.write [k] (.register r) = a₂ := hcell ▸ CellState.write_same (h₂.holds.lt_of_read? hread₂)
      refine ⟨rfl, L₂, .refl L₂, ?_, trivial⟩
      exact (hsame.symm ▸ h₂ : Books m L₂ (a₂.write [k] (.register r)) s₂)

/-- Later visits are joined with those before, position by position. -/
theorem agrees_joinInputs (h : Books m L a s) (hi : i < m.code.length) (hrow : ∀ o ∈ row, L.Known o) :
    Agrees m L a s (joinInputs i row) (Lowering.joinInputs i row) Anything := by
  refine agrees_ite Iff.rfl (fun _ => agrees_pure h trivial) fun _ => agrees_get_bind ?_
  dsimp only
  have frame := h.frame i
  have inputs := h.inputs i
  have rowsKnown := h.rowsKnown i
  rw [← frame] at inputs rowsKnown ⊢
  have joined : (a.frame i).rows.head?.map List.length = some row.length → Agrees m L a s
      (do
        let shared ← row.zipIdx.mapM fun p =>
          joinAt (column (a.frame i).rows p.2) ((a.frame i).shared[p.2]?.join) (a.frame i).uses[p.2]? p.1
        modifyFrame i fun f => { f with rows := f.rows ++ [row], shared := shared.map some })
      (do
        let shared ← row.zipIdx.mapM fun p => Lowering.joinAt (column (a.frame i).rows p.2) ((a.frame i).shared[p.2]?.join) p.1
        Lowering.modifyFrame i fun f => { f with rows := f.rows ++ [row], shared := shared.map some }) Anything := by
    intro hlength
    obtain ⟨first, hfirst, -⟩ := Option.map_eq_some_iff.mp hlength
    refine agrees_bind_yields (agrees_mapM (Q := Anything) (fun _ _ _ => trivial) h fun p hp L' a' s' hg h' => ?_)
      fun shared L' a' s' hy hg h' _ => ?_
    · refine agrees_joinAt h' (fun q hq => ?_) (hg.known (hrow p.1 (List.fst_mem_of_mem_zipIdx hp))) _ fun k hk => ?_
      · obtain ⟨row', hrow', hq⟩ := List.mem_filterMap.mp hq
        exact hg.known (rowsKnown row' hrow' q (List.mem_of_getElem? hq))
      · obtain ⟨q, hq, hread⟩ := Ledger.ReadsAll.getElem? (inputs first hfirst) hk
        exact ⟨q, List.mem_filterMap.mpr ⟨first, List.mem_of_head? hfirst, hq⟩, hg.read? hread⟩
    · -- The first row is still the one that it was.
      have overlooks := Lowering.overlooks_frames (i + 1)
      have same : s'.frame i = (a.frame i).toFrame := frame ▸ overlooks.mapM (fun _ => overlooks.joinAt _ _) _ s shared s' hy i (by omega)
      have frame' := congrArg (fun f : Frame => { f with rows := f.rows ++ [row], shared := shared.map some }) (h'.frame i)
      refine agrees_modifyFrame h' hi frame' (fun row' hr => ?_) (fun row' hr => ?_) (h'.outKnown i)
      · rw [same, List.head?_append, hfirst] at hr
        exact h'.inputs i row' (by rw [same, hfirst]; exact hr)
      · rcases List.mem_append.mp hr with hold | hnew
        · exact h'.rowsKnown i row' hold
        · rw [List.mem_singleton.mp hnew]
          exact fun q hq => hg.known (hrow q hq)
  exact agrees_ite Iff.rfl joined fun _ => agrees_bind agrees_fail fun _ _ _ _ _ _ (h : False) => h.elim

/-- A first visit records its operands and the cells that stand for them. -/
theorem agrees_setInputs (h : Books m L a s) (hi : i < m.code.length) {uses : List CellId} (huses : L.ReadsAll uses row) :
    Agrees m L a s (setInputs i row uses) (Lowering.setInputs i row) Anything := by
  refine agrees_modifyFrame h hi (congrArg (fun f : Frame => { f with rows := [row], shared := row.map fun _ => none }) (h.frame i))
    (fun row' hr => ?_) (fun row' hr o ho => ?_) (h.outKnown i)
  · obtain rfl := Option.some.inj hr
    exact huses
  · rw [List.mem_singleton.mp hr] at ho
    obtain ⟨k, -, hread⟩ := exists_of_forall₂ huses ho
    exact h.holds.known k _ o (Ledger.read?_eq_some.mp hread) rfl

/-! ## Results and statements -/

theorem agrees_firstVisit (h : Books m L a s) (i : Nat) : Agrees m L a s (firstVisit i) (Lowering.firstVisit i) Anything := by
  refine agrees_get_bind ?_
  have out : (a.frame i).out = (s.frame i).out := congrArg Frame.out (h.frame i)
  have unit : (a.unit i).isEmpty = (s.unit i).isEmpty := by
    rw [Bool.eq_iff_iff, List.isEmpty_iff, List.isEmpty_iff, h.unit_eq_nil]
  rw [out, unit]
  exact agrees_pure h trivial

/-- What is built from a row of operands is as it should be, and comes with the cells of the row. -/
def Recorded {α : Type} (P : Ledger → α → Prop) (row : List OperandId) (L : Ledger) (p : α × List CellId) : Prop :=
  P L p.1 ∧ L.ReadsAll p.2 row

/-- The result of an instruction where no handler has an entry. -/
theorem agrees_produce (h : Books m L a s) (hi : i < m.code.length) (entry : s.handlerEntry? i = none) (hrow : ∀ o ∈ row, L.Known o)
    {make : CellM (Rvalue CellId × List CellId)} {v : Rvalue OperandId}
    (made : Makes m L a s make (Recorded (fun L v' => L.Reads v' v) row)) :
    Agrees m L a s (produce i row make) (Lowering.produce i row v) Ledger.Known := by
  refine agrees_get_bind ?_
  have out : (a.frame i).out = (s.frame i).out := congrArg Frame.out (h.frame i)
  rw [out]
  cases hout : (s.frame i).out with
  | some o =>
    refine agrees_bind (agrees_joinInputs h hi hrow) fun _ L' a' s' hg h' _ => ?_
    exact agrees_pure h' (hg.known (h.outKnown i o hout))
  | none =>
    refine made.agrees fun (v', uses) L₁ a₁ _ h₁ ⟨hv, huses⟩ => ?_
    refine agrees_bind (agrees_newOperand h₁ hi entry hv) fun o L₂ a₂ s₂ hg₂ h₂ ho => ?_
    refine agrees_bind (agrees_setInputs h₂ hi (hg₂.readsAll huses)) fun _ L₃ a₃ s₃ hg₃ h₃ _ => ?_
    refine agrees_bind (agrees_modifyFrame h₃ hi (congrArg (fun f : Frame => { f with out := some o }) (h₃.frame i)) (h₃.inputs i)
      (h₃.rowsKnown i) fun p hp => ?_) fun _ L₄ a₄ s₄ hg₄ h₄ _ => agrees_pure h₄ (hg₄.known (hg₃.known ho))
    exact Option.some.inj hp ▸ hg₃.known ho

theorem agrees_emit (h : Books m L a s) (hi : i < m.code.length) (hrow : ∀ o ∈ row, L.Known o) {make : CellM (Pending × List CellId)}
    {d : Draft} (made : Makes m L a s make (Recorded (fun L p => p.Renders L d) row)) :
    Agrees m L a s (emit i row make) (Lowering.emit i row d) Anything := by
  refine agrees_get_bind (agrees_ite h.unit_eq_nil (fun _ => ?_) fun _ => agrees_joinInputs h hi hrow)
  refine made.agrees fun (p, uses) L₁ a₁ _ h₁ ⟨hp, huses⟩ => ?_
  exact agrees_bind (agrees_setInputs h₁ hi huses) fun _ L₂ a₂ s₂ hg₂ h₂ _ => agrees_setUnit h₂ hi (hp.mono hg₂)

end Cells
end ThreeAddress
