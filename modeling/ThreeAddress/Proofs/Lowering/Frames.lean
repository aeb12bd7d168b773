import ThreeAddress.Proofs.Lowering.Framing

/-!
# What other instructions remember

Lowering an instruction changes what that instruction remembers, and at no other one. `Local` is what all its steps have in common. What it
remembers there is made of what it takes from the stack.
-/

namespace ThreeAddress

open State

namespace Lowering

variable {α β : Type} {i k : Nat} {o : OperandId} {r : RegisterId}

/-- A step changes what one instruction remembers at most. -/
def Local (i : Nat) (x : LowerM α) : Prop :=
  ∀ s a s', Yields x s a s' → ∀ j, j ≠ i → s'.frame j = s.frame j

/-- No update but one of what the instruction remembers changes what another one does. -/
theorem overlooks_frames (i : Nat) : Overlooks i fun s s' => ∀ j, j ≠ i → s'.frame j = s.frame j where
  refl _ _ _ := rfl
  trans h h' j hj := (h' j hj).trans (h j hj)
  withRegisters _ _ _ _ := rfl
  withOperand _ _ _ _ := rfl
  bindTo _ _ _ _ _ := rfl
  modifyUnit _ _ _ _ _ := rfl
  modifyFrame _ _ _ hj := frame_modifyFrame_of_ne hj

/-! ## The stack -/

theorem local_push (wide : Bool) : Local i (push o wide) := by
  intro s u s' h j _
  obtain rfl := yields_push.mp h
  rfl

theorem local_take (d : Demand) (wide : Bool) : Local i (take k d wide) := by
  have htake : take k d wide = (if wide then popWide k else popNarrow k) >>= fun o => do settle d o; return o := by
    cases wide <;> rfl
  have hpop : Local i (if wide then popWide k else popNarrow k) := by
    intro s o s' h j _
    obtain ⟨rest, -, rfl⟩ := yields_pop.mp h
    rfl
  have same := overlooks_frames i
  rw [htake]
  exact same.bind hpop fun _ => same.bind (same.settle d) fun _ => same.pure _

theorem local_takeAll (first : Bool) (wants : List (Demand × Bool)) : Local i (takeAll k first wants) :=
  (overlooks_frames i).mapM (fun _ => local_take _ _) wants

theorem local_word {f : Word → LowerM Word} (hf : ∀ w, Local i (f w)) : Local i (peekWord k >>= f) := by
  refine (overlooks_frames i).bind (fun s w s' h j _ => ?_) hf
  rw [(yields_peekWord.mp h).2]

theorem local_popWord : Local i (popWord k) := by
  intro s w s' h j _
  obtain ⟨rest, -, rfl⟩ := yields_popWord.mp h
  rfl

theorem local_secondWord : Local i (secondWord k o) := by
  have same := overlooks_frames i
  refine local_word fun w => ?_
  cases w with
  | wideHalf => exact same.bind local_popWord fun _ => same.pure _
  | operand => exact same.bind (local_take _ _) fun _ => same.pure _

theorem local_anyWord : Local i (anyWord k) := by
  have same := overlooks_frames i
  refine local_word fun w => ?_
  cases w with
  | wideHalf => exact local_popWord
  | operand => exact same.bind (local_take _ _) fun _ => same.pure _

theorem local_pushWords (ws : List Word) : Local i (pushWords ws) := by
  intro s u s' h j _
  obtain rfl := yields_pushWords.mp h
  rfl

theorem local_lowerShuffle (how : Shuffle) (count : Count) : Local i (lowerShuffle k how count) := by
  have same := overlooks_frames i
  have one : ∀ {f : OperandId → LowerM Unit}, (∀ o, Local i (f o)) → Local i (take k .immediate false >>= f) := same.bind (local_take _ _)
  have second : ∀ {o : OperandId} {f : Word → LowerM Unit}, (∀ w, Local i (f w)) → Local i (secondWord k o >>= f) :=
    same.bind local_secondWord
  have other : ∀ {f : Word → LowerM Unit}, (∀ w, Local i (f w)) → Local i (anyWord k >>= f) := same.bind local_anyWord
  cases how with
  | pop =>
    cases count with
    | one => exact one fun _ => same.pure _
    | two => exact one fun _ => other fun _ => same.pure _
  | dup =>
    cases count with
    | one => exact one fun _ => local_pushWords _
    | two => exact one fun _ => second fun _ => local_pushWords _
  | dupX1 =>
    cases count with
    | one => exact one fun _ => one fun _ => local_pushWords _
    | two => exact one fun _ => second fun _ => one fun _ => local_pushWords _
  | dupX2 =>
    cases count with
    | one => exact one fun _ => one fun _ => other fun _ => local_pushWords _
    | two => exact one fun _ => second fun _ => one fun _ => other fun _ => local_pushWords _
  | swap => exact one fun _ => one fun _ => local_pushWords _

/-! ## Operations -/

theorem local_lowerEffect (row : List OperandId) (wide : Option Bool) (e : Effect OperandId) : Local i (lowerEffect i row wide e) := by
  have same := overlooks_frames i
  have result : ∀ v, Local i (leaveResult i row wide v) := fun v => same.bind (same.produce row v) fun _ => local_push _
  cases e with
  | constant | operator | read => exact result _
  | load => exact same.bind (same.slotRegister _) fun _ => result _
  | call => exact relates_ite (same.bind (same.emit _ _) fun _ => same.freezeAll) (same.bind (result _) fun _ => same.freezeAll)
  | store => exact same.bind (same.slotRegister _) fun _ => same.bind (same.emit _ _) fun _ => same.freezeReadersOf
  | increment => exact same.bind (same.slotRegister _) fun _ => same.bind same.freezeReadersOf fun _ => same.emit _ _
  | write => exact same.bind (same.emit _ _) fun _ => same.freezeAll
  | _ => exact same.emit _ _

theorem local_lowerPlain (op : Operation) : Local i (lowerPlain i op) := by
  have same := overlooks_frames i
  refine same.bind (same.get_bind fun _ => same.pure _) fun _ => same.bind (local_takeAll _ _) fun _ => ?_
  split
  · exact local_lowerEffect _ _ _
  · exact relates_fail _

theorem local_lowerLabel (m : Method) (l : Label) : Local i (lowerLabel m i l) := by
  have same := overlooks_frames i
  unfold lowerLabel
  refine relates_ite (same.get_bind fun s => ?_) (same.pure _)
  split
  · split
    · exact same.setUnit _ _
    · exact same.pure _
  · split
    · exact local_push _
    · exact same.bind same.freshRegister fun _ => same.bind (same.newOperand _ _ _) fun _ => same.bind (same.modifyFrame_self _) fun _ =>
        same.bind (same.setUnit _ _) fun _ => local_push _

/-- Lowering an instruction changes what that instruction remembers and nothing else of the kind. -/
theorem local_lowerOperation (m : Method) (op : Operation) : Local i (lowerOperation m i op) := by
  by_cases hp : op.isPlain
  · rw [lowerOperation_plain m i hp]
    exact local_lowerPlain op
  · cases op with
    | shuffle how count => exact local_lowerShuffle how count
    | line => exact (overlooks_frames i).pure _
    | label l => exact local_lowerLabel m l
    | unhandled => exact relates_fail _
    | _ => exact absurd rfl hp

/-! ## Rows -/

/-- Whatever row of operands a step adds to those of an instruction is as it should be. -/
def AddsRows (i : Nat) (P : List OperandId → Prop) (x : LowerM α) : Prop :=
  ∀ s a s', Yields x s a s' → ∀ row ∈ (s'.frame i).rows, row ∈ (s.frame i).rows ∨ P row

section
variable {P : List OperandId → Prop} {row : List OperandId}

/-- A step that is about no instruction adds no row. -/
theorem addsRows_of_local {x : LowerM α} (h : ∀ k, Local k x) : AddsRows i P x := by
  intro s a s' hx row hrow
  rw [h (i + 1) s a s' hx i (by omega)] at hrow
  exact Or.inl hrow

/-- A step of which no update is of what an instruction remembers adds no row. -/
theorem addsRows_of_overlooks {x : LowerM α} (h : ∀ {k R}, Overlooks k R → Relates R x) : AddsRows i P x :=
  addsRows_of_local fun k => h (overlooks_frames k)

theorem addsRows_bind {x : LowerM α} {f : α → LowerM β} (hx : AddsRows i P x) (hf : ∀ a, AddsRows i P (f a)) :
    AddsRows i P (x >>= f) := by
  intro s b s' h row hrow
  obtain ⟨a, t, ha, hb⟩ := yields_bind.mp h
  rcases hf a t b s' hb row hrow with hrow | hnew
  · exact hx s a t ha row hrow
  · exact Or.inr hnew

theorem addsRows_ite {p : Prop} [Decidable p] {x y : LowerM α} (hx : AddsRows i P x) (hy : AddsRows i P y) :
    AddsRows i P (if p then x else y) := by
  split
  · exact hx
  · exact hy

theorem addsRows_fail {f : Fault} : AddsRows i P (fail f : LowerM α) :=
  fun _ _ _ h => absurd h yields_fail

theorem addsRows_modifyFrame {g : Frame → Frame} (hg : ∀ f, ∀ row ∈ (g f).rows, row ∈ f.rows ∨ P row) :
    AddsRows i P (modifyFrame i g) := by
  intro s u s' h row hrow
  obtain rfl := yields_modifyFrame.mp h
  rcases frame_modifyFrame_or s i g i with hf | ⟨-, hf⟩ <;> rw [hf] at hrow
  · exact Or.inl hrow
  · exact hg _ row hrow

theorem addsRows_joinInputs (hrow : P row) : AddsRows i P (joinInputs i row) := by
  have joins : ∀ {ps : List (OperandId × Nat)} {rows : List (List OperandId)} {shared : List (Option RegisterId)},
      AddsRows i P (ps.mapM fun p => joinAt (column rows p.2) (shared[p.2]?.join) p.1) :=
    addsRows_of_overlooks fun same => same.mapM (fun _ => same.joinAt _ _) _
  have record : ∀ shared : List RegisterId,
      AddsRows i P (modifyFrame i fun f => { f with rows := f.rows ++ [row], shared := shared.map some }) := by
    refine fun shared => addsRows_modifyFrame fun f row' hrow' => ?_
    refine (List.mem_append.mp hrow').imp_right fun heq => ?_
    rwa [List.mem_singleton.mp heq]
  refine addsRows_ite (addsRows_of_overlooks (·.pure _)) (addsRows_bind (addsRows_of_overlooks (·.get)) fun s => ?_)
  exact addsRows_ite (addsRows_bind joins record) (addsRows_bind addsRows_fail fun _ => addsRows_bind joins record)

/-- The operands of a first visit are the only row. -/
theorem addsRows_setInputs (hrow : P row) : AddsRows i P (setInputs i row) := by
  refine addsRows_modifyFrame fun f row' hrow' => Or.inr ?_
  rwa [List.mem_singleton.mp hrow']

theorem addsRows_produce {v : Rvalue OperandId} (hrow : P row) : AddsRows i P (produce i row v) := by
  refine addsRows_bind (addsRows_of_overlooks (·.get)) fun s => ?_
  split
  · exact addsRows_bind (addsRows_joinInputs hrow) fun _ => addsRows_of_overlooks (·.pure _)
  · refine addsRows_bind (addsRows_of_overlooks (·.newOperand _ _ _)) fun o =>
      addsRows_bind (addsRows_setInputs hrow) fun _ => addsRows_bind ?_ fun _ => addsRows_of_overlooks (·.pure _)
    exact addsRows_modifyFrame fun f row' hrow' => Or.inl hrow'

theorem addsRows_emit {d : Draft} (hrow : P row) : AddsRows i P (emit i row d) := by
  refine addsRows_bind (addsRows_of_overlooks (·.get)) fun s => addsRows_ite ?_ (addsRows_joinInputs hrow)
  exact addsRows_bind (addsRows_setInputs hrow) fun _ => addsRows_of_overlooks (·.setUnit _ _)

theorem addsRows_lowerEffect {wide : Option Bool} {e : Effect OperandId} (hrow : P row) :
    AddsRows i P (lowerEffect i row wide e) := by
  have result : ∀ v, AddsRows i P (leaveResult i row wide v) := fun v =>
    addsRows_bind (addsRows_produce hrow) fun _ => addsRows_of_local fun _ => local_push _
  have slot : ∀ k, AddsRows i P (slotRegister k) := fun k => addsRows_of_overlooks (·.slotRegister k)
  have all : AddsRows i P freezeAll := addsRows_of_overlooks (·.freezeAll)
  have readers : ∀ r, AddsRows i P (freezeReadersOf r) := fun r => addsRows_of_overlooks (·.freezeReadersOf)
  cases e with
  | constant | operator | read => exact result _
  | load => exact addsRows_bind (slot _) fun _ => result _
  | call => exact addsRows_ite (addsRows_bind (addsRows_emit hrow) fun _ => all) (addsRows_bind (result _) fun _ => all)
  | store => exact addsRows_bind (slot _) fun _ => addsRows_bind (addsRows_emit hrow) fun _ => readers _
  | increment => exact addsRows_bind (slot _) fun _ => addsRows_bind (readers _) fun _ => addsRows_emit hrow
  | write => exact addsRows_bind (addsRows_emit hrow) fun _ => all
  | _ => exact addsRows_emit hrow

/-- A label consumes nothing. -/
theorem addsRows_lowerLabel (m : Method) (l : Label) : AddsRows i P (lowerLabel m i l) := by
  refine addsRows_ite (addsRows_bind (addsRows_of_overlooks (·.get)) fun s => ?_) (addsRows_of_overlooks (·.pure _))
  refine addsRows_ite (addsRows_of_overlooks fun same => relates_ite (same.setUnit _ _) (same.pure _)) ?_
  split
  · exact addsRows_of_local fun _ => local_push _
  · refine addsRows_bind (addsRows_of_overlooks (·.freshRegister)) fun r =>
      addsRows_bind (addsRows_of_overlooks (·.newOperand _ _ _)) fun o =>
      addsRows_bind (addsRows_modifyFrame fun f row hrow => Or.inl hrow) fun _ =>
      addsRows_of_local fun k => (overlooks_frames k).bind ((overlooks_frames k).setUnit _ _) fun _ => local_push _

end

/-- As many operands are taken as are wanted. -/
theorem length_of_takeAll {first : Bool} {wants : List (Demand × Bool)} {os : List OperandId} {s s' : State}
    (h : Yields (takeAll i first wants) s os s') : os.length = wants.length := by
  induction wants generalizing s os with
  | nil =>
    obtain ⟨rfl, -⟩ := yields_mapM_nil.mp h
    rfl
  | cons want wants ih =>
    obtain ⟨o, t, rest, -, hrest, rfl⟩ := yields_mapM_cons.mp h
    rw [List.length_cons, List.length_cons, ih hrest]

/-- A row is made of what an operation takes from a stack. -/
def TakenFrom (i : Nat) (op : Operation) (s : State) (row : List OperandId) : Prop :=
  ∃ first os s', Yields (takeAll i first (op.demands.zip op.takes).reverse) s os s' ∧ row = op.row os.reverse

/-- There is an operand in a row for each that the operation takes. -/
theorem TakenFrom.length_eq {op : Operation} {s : State} {row : List OperandId} (h : TakenFrom i op s row) :
    row.length = op.takes.length := by
  obtain ⟨first, os, s', htake, rfl⟩ := h
  rw [Operation.length_row, List.length_reverse, length_of_takeAll htake, List.length_reverse, List.length_zip, op.length_demands,
    Nat.min_self]

/-- Every row that a visit adds to those of an instruction is made of what the operation takes. -/
theorem rows_of_lowerOperation {m : Method} {op : Operation} {s s' : State} {u : PUnit} (h : Yields (lowerOperation m i op) s u s')
    {row : List OperandId} (hrow : row ∈ (s'.frame i).rows) : row ∈ (s.frame i).rows ∨ TakenFrom i op s row := by
  have quiet : AddsRows i (fun _ => False) (lowerOperation m i op) → row ∈ (s.frame i).rows := fun hadds =>
    (hadds s u s' h row hrow).resolve_right id
  by_cases hp : op.isPlain
  · rw [lowerOperation_plain m i hp] at h
    simp only [lowerPlain, firstVisit, yields_bind, yields_get, yields_pure] at h
    obtain ⟨first, t, ⟨_, _, ⟨rfl, rfl⟩, -, rfl⟩, os, t', htake, h⟩ := h
    have hlocal : Local (i + 1) (takeAll i first (op.demands.zip op.takes).reverse) := local_takeAll _ _
    split at h
    · rcases addsRows_lowerEffect (P := (· = op.row os.reverse)) rfl t' u s' h row hrow with hold | heq
      · exact Or.inl (hlocal t os t' htake i (by omega) ▸ hold)
      · exact Or.inr ⟨first, os, t', htake, heq⟩
    · exact absurd h yields_fail
  · left
    cases op with
    | shuffle how count => exact quiet (addsRows_of_local fun _ => local_lowerShuffle how count)
    | line => exact quiet (addsRows_of_overlooks (·.pure _))
    | label l => exact quiet (addsRows_lowerLabel m l)
    | unhandled => exact absurd h yields_fail
    | _ => exact absurd rfl hp

end Lowering

/-- Whenever an instruction was visited it consumed as many operands as it takes. -/
def State.RowsFull (m : Method) (s : State) : Prop :=
  ∀ (i : Nat) (op : Operation) (row : List OperandId), m.code[i]? = some op → row ∈ (s.frame i).rows → row.length = op.takes.length

/-- A visit of an instruction leaves rows of the length of what it takes. -/
theorem State.RowsFull.visit {m : Method} {s s' : State} {i : Nat} {op : Operation} {u : PUnit} (h : s.RowsFull m)
    (here : m.code[i]? = some op) (hop : Lowering.Yields (Lowering.lowerOperation m i op) s u s') : s'.RowsFull m := by
  intro j op' row here' hrow
  by_cases hji : j = i
  · subst hji
    obtain rfl := Option.some.inj (here.symm.trans here')
    rcases Lowering.rows_of_lowerOperation hop hrow with hold | htaken
    · exact h j op row here hold
    · exact htaken.length_eq
  · rw [Lowering.local_lowerOperation m op s u s' hop j hji] at hrow
    exact h j op' row here' hrow

end ThreeAddress
