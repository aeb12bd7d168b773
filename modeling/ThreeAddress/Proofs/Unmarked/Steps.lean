import ThreeAddress.Proofs.Unmarked.States

/-!
# Steps without line numbers

`Matches` compares a step of lowering a method with one of lowering it without line numbers, from states that mirror each other: both fail,
or both succeed with one result and leave such states again. It is kept by every way to build a step from others, so lowering an operation
is compared with lowering it at its place.
-/

namespace ThreeAddress

open State

namespace Lowering

variable {α β : Type} {m : Method} {s s' : State} {i k : Nat} {o : OperandId} {r : RegisterId} {row : List OperandId} {d : Draft}
  {x x' : LowerM α} {P : State → α → Prop} {Q : State → β → Prop}

/-- Both steps fail, or both succeed with one result, which is as it should be in the state that the first leaves. No operand gets lost. -/
def Matches (m : Method) (s s' : State) (x x' : LowerM α) (P : State → α → Prop) : Prop :=
  Together (fun p p' => p'.1 = p.1 ∧ p.2.Mirrors m p'.2 ∧ s.operands.size ≤ p.2.operands.size ∧ P p.2 p.1) (x.run s) (x'.run s')

/-- Nothing is asked of the result. -/
abbrev Anything : State → α → Prop :=
  fun _ _ => True

/-! ## Building steps -/

theorem matches_pure {a : α} (h : s.Mirrors m s') (hp : P s a) : Matches m s s' (pure a) (pure a) P :=
  ⟨rfl, h, Nat.le_refl _, hp⟩

theorem matches_fail {f f' : Fault} : Matches m s s' (fail f : LowerM α) (fail f') P :=
  trivial

theorem matches_get_bind {f f' : State → LowerM β} (h : Matches m s s' (f s) (f' s') Q) : Matches m s s' (get >>= f) (get >>= f') Q :=
  h

theorem matches_modify {f f' : State → State} (h : (f s).Mirrors m (f' s')) (hsize : s.operands.size ≤ (f s).operands.size) :
    Matches m s s' (modify f : LowerM Unit) (modify f') Anything :=
  ⟨rfl, h, hsize, trivial⟩

theorem matches_bind {f f' : α → LowerM β} (hx : Matches m s s' x x' P)
    (hf : ∀ a t t', t.Mirrors m t' → s.operands.size ≤ t.operands.size → P t a → Matches m t t' (f a) (f' a) Q) :
    Matches m s s' (x >>= f) (x' >>= f') Q := by
  refine Together.bind hx ?_
  rintro ⟨_, t⟩ ⟨a, t'⟩ ⟨rfl, hm, hsize, hp⟩
  exact Together.mono (hf a t t' hm hsize hp) fun _ _ ⟨ha, hm', hle, hq⟩ => ⟨ha, hm', Nat.le_trans hsize hle, hq⟩

theorem matches_ite {p p' : Prop} [Decidable p] [Decidable p'] {y y' : LowerM α} (hp : p' ↔ p) (hx : p → Matches m s s' x x' P)
    (hy : ¬ p → Matches m s s' y y' P) : Matches m s s' (if p then x else y) (if p' then x' else y') P := by
  by_cases h : p
  · rw [if_pos h, if_pos (hp.mpr h)]
    exact hx h
  · rw [if_neg h, if_neg (mt hp.mp h)]
    exact hy h

/-- Operands stay known. -/
theorem known_of_le {t : State} (hsize : s.operands.size ≤ t.operands.size) (hk : s.Known o) : t.Known o :=
  Nat.lt_of_lt_of_le hk hsize

/-- A step for each element of a list, where the results stay as they should be while operands are added. -/
theorem matches_mapM {R : State → β → Prop} (hR : ∀ t u b, t.operands.size ≤ u.operands.size → R t b → R u b) {f f' : α → LowerM β}
    {as : List α} (h : s.Mirrors m s')
    (hf : ∀ a ∈ as, ∀ t t', t.Mirrors m t' → s.operands.size ≤ t.operands.size → Matches m t t' (f a) (f' a) R) :
    Matches m s s' (as.mapM f) (as.mapM f') fun t bs => ∀ b ∈ bs, R t b := by
  induction as generalizing s s' with
  | nil => exact matches_pure h fun b hb => (by cases hb)
  | cons a as ih =>
    rw [List.mapM_cons, List.mapM_cons]
    refine matches_bind (hf a List.mem_cons_self s s' h (Nat.le_refl _)) fun b t t' ht hsize hb => ?_
    refine matches_bind (ih ht fun c hc u u' hu hle => hf c (List.mem_cons_of_mem a hc) u u' hu (Nat.le_trans hsize hle)) fun bs u u' hu hle hbs => ?_
    exact matches_pure hu fun c hc => (List.mem_cons.mp hc).elim (fun heq => heq ▸ hR t u b hle hb) (hbs c)

theorem matches_forM {f f' : α → LowerM PUnit} {as : List α} (h : s.Mirrors m s')
    (hf : ∀ a ∈ as, ∀ t t', t.Mirrors m t' → s.operands.size ≤ t.operands.size → Matches m t t' (f a) (f' a) Anything) :
    Matches m s s' (as.forM f) (as.forM f') Anything := by
  induction as generalizing s s' with
  | nil => exact matches_pure h trivial
  | cons a as ih =>
    refine matches_bind (hf a List.mem_cons_self s s' h (Nat.le_refl _)) fun _ t t' ht hsize _ => ?_
    exact ih ht fun c hc u u' hu hle => hf c (List.mem_cons_of_mem a hc) u u' hu (Nat.le_trans hsize hle)

/-! ## Registers and statements -/

theorem matches_freshRegister (h : s.Mirrors m s') : Matches m s s' freshRegister freshRegister Anything :=
  ⟨h.registers.fresh.1, h.withRegisters h.registers.fresh.2, Nat.le_refl _, trivial⟩

theorem matches_slotRegister (h : s.Mirrors m s') (k : Nat) : Matches m s s' (slotRegister k) (slotRegister k) Anything := by
  have hslot := h.registers.slot k
  refine matches_get_bind ?_
  cases hr : s.registers.slot k with
  | error f =>
    cases hr' : s'.registers.slot k with
    | error f' => exact matches_fail
    | ok p' =>
      rw [hr, hr'] at hslot
      exact hslot.elim
  | ok p =>
    cases hr' : s'.registers.slot k with
    | error f' =>
      rw [hr, hr'] at hslot
      exact hslot.elim
    | ok p' =>
      rw [hr, hr'] at hslot
      obtain ⟨hid, hsame⟩ := hslot
      exact ⟨hid, h.withRegisters hsame, Nat.le_refl _, trivial⟩

theorem matches_newOperand (h : s.Mirrors m s') (hi : m.Stays i) (v : Rvalue OperandId) (q : Option RegisterId) :
    Matches m s s' (newOperand i v q) (newOperand (m.place i) v q) State.Known :=
  ⟨h.nextOperand, h.withOperand hi v q, by simp, known_withOperand.mpr (Or.inr rfl)⟩

theorem matches_setRegister (h : s.Mirrors m s') (o : OperandId) (r : RegisterId) :
    Matches m s s' (setRegister o r) (setRegister o r) Anything :=
  matches_modify (h.bindTo o r) (by simp)

theorem matches_setUnit (h : s.Mirrors m s') (hi : m.Stays i) (d : Draft) :
    Matches m s s' (setUnit i d) (setUnit (m.place i) d) Anything := by
  refine matches_get_bind (matches_ite (by rw [h.unit i hi]) (fun _ => ?_) fun _ => matches_fail)
  exact matches_modify (h.modifyUnit hi _) (Nat.le_refl _)

theorem matches_appendUnit (h : s.Mirrors m s') (hi : m.Stays i) (d : Draft) :
    Matches m s s' (appendUnit i d) (appendUnit (m.place i) d) Anything :=
  matches_modify (h.modifyUnit hi _) (Nat.le_refl _)

/-- The new frame refers to operands that exist. -/
theorem matches_modifyFrame (h : s.Mirrors m s') (hi : m.Stays i) {f : Frame → Frame}
    (rows : ∀ row ∈ (f (s.frame i)).rows, ∀ o ∈ row, s.Known o) (out : ∀ o, (f (s.frame i)).out = some o → s.Known o) :
    Matches m s s' (modifyFrame i f) (modifyFrame (m.place i) f) Anything :=
  matches_modify (h.modifyFrame hi rows out) (Nat.le_refl _)

theorem matches_bind_register (h : s.Mirrors m s') (hk : s.Known o) (r : RegisterId) :
    Matches m s s' (bind o r) (bind o r) Anything := by
  refine matches_bind (matches_setRegister h o r) fun _ t t' ht hsize _ => matches_get_bind ?_
  rw [ht.operand]
  exact matches_setUnit ht (ht.insn_stays o (known_of_le hsize hk)) _

theorem matches_spill (h : s.Mirrors m s') (hk : s.Known o) : Matches m s s' (spill o) (spill o) Anything :=
  matches_bind (matches_freshRegister h) fun r _ _ ht hsize _ => matches_bind_register ht (known_of_le hsize hk) r

/-! ## The stack -/

/-- The operand of a word, if it is one, exists. -/
def WordKnown (s : State) (w : Word) : Prop :=
  ∀ o, w = .operand o → s.Known o

theorem matches_pushWord (h : s.Mirrors m s') {w : Word} (hw : WordKnown s w) : Matches m s s' (pushWord w) (pushWord w) Anything := by
  refine matches_modify ?_ (Nat.le_refl _)
  have hstack : w :: s'.stack = w :: s.stack := congrArg (w :: ·) h.stack
  rw [hstack]
  exact h.withStack fun o ho => (List.mem_cons.mp ho).elim (fun heq => hw o heq.symm) (h.stack_known o)

theorem WordKnown.mono {t : State} {w : Word} (h : WordKnown s w) (hsize : s.operands.size ≤ t.operands.size) : WordKnown t w :=
  fun o ho => known_of_le hsize (h o ho)

theorem wordKnown_operand : WordKnown s (.operand o) ↔ s.Known o :=
  ⟨fun h => h o rfl, fun hk _ heq => Word.operand.inj heq ▸ hk⟩

theorem wordKnown_wideHalf : WordKnown s .wideHalf :=
  fun _ heq => by cases heq

theorem matches_push (h : s.Mirrors m s') (hk : s.Known o) (wide : Bool) : Matches m s s' (push o wide) (push o wide) Anything := by
  cases wide with
  | false => exact matches_pushWord h (wordKnown_operand.mpr hk)
  | true =>
    refine matches_bind (matches_pushWord h wordKnown_wideHalf) fun _ t t' ht hsize _ => ?_
    exact matches_pushWord ht (wordKnown_operand.mpr (known_of_le hsize hk))

theorem matches_pushWords (h : s.Mirrors m s') {ws : List Word} (hws : ∀ w ∈ ws, WordKnown s w) :
    Matches m s s' (pushWords ws) (pushWords ws) Anything :=
  matches_forM h fun w hw _ _ ht hsize => matches_pushWord ht ((hws w hw).mono hsize)

theorem matches_popWord (h : s.Mirrors m s') (i j : Nat) : Matches m s s' (popWord i) (popWord j) WordKnown := by
  refine matches_get_bind ?_
  rw [h.stack]
  cases hs : s.stack with
  | nil => exact matches_fail
  | cons w rest =>
    have hk := h.stack_known
    rw [hs] at hk
    exact ⟨rfl, h.withStack fun o ho => hk o (List.mem_cons_of_mem w ho), Nat.le_refl _, fun o ho => hk o (ho ▸ List.mem_cons_self)⟩

theorem matches_peekWord (h : s.Mirrors m s') (i j : Nat) : Matches m s s' (peekWord i) (peekWord j) WordKnown := by
  refine matches_get_bind ?_
  rw [h.stack]
  cases hs : s.stack with
  | nil => exact matches_fail
  | cons w rest => exact matches_pure h fun o ho => h.stack_known o (by rw [hs, ho]; exact List.mem_cons_self)

theorem matches_popNarrow (h : s.Mirrors m s') (i j : Nat) : Matches m s s' (popNarrow i) (popNarrow j) State.Known := by
  refine matches_bind (matches_popWord h i j) fun w t t' ht _ hw => ?_
  cases w with
  | wideHalf => exact matches_fail
  | operand o => exact matches_pure ht (wordKnown_operand.mp hw)

theorem matches_popWide (h : s.Mirrors m s') (i j : Nat) : Matches m s s' (popWide i) (popWide j) State.Known := by
  refine matches_bind (matches_popNarrow h i j) fun o t t' ht _ ho => ?_
  refine matches_bind (matches_popWord ht i j) fun w u u' hu hsize _ => ?_
  have hk := known_of_le hsize ho
  cases w with
  | wideHalf => exact matches_pure hu hk
  | operand p => exact matches_ite Iff.rfl (fun _ => matches_pure hu hk) fun _ => matches_fail

theorem matches_settle (h : s.Mirrors m s') (hk : s.Known o) (d : Demand) : Matches m s s' (settle d o) (settle d o) Anything := by
  refine matches_get_bind (matches_ite ?_ (fun _ => matches_spill h hk) fun _ => matches_pure h trivial)
  rw [h.operand]

theorem matches_take (h : s.Mirrors m s') (i j : Nat) (d : Demand) (wide : Bool) :
    Matches m s s' (take i d wide) (take j d wide) State.Known := by
  have settled : ∀ o t t', t.Mirrors m t' → t.Known o →
      Matches m t t' (do settle d o; return o) (do settle d o; return o) State.Known := fun o t t' ht ho =>
    matches_bind (matches_settle ht ho d) fun _ u u' hu hsize _ => matches_pure hu (known_of_le hsize ho)
  cases wide with
  | false => exact matches_bind (matches_popNarrow h i j) fun o t t' ht _ ho => settled o t t' ht ho
  | true => exact matches_bind (matches_popWide h i j) fun o t t' ht _ ho => settled o t t' ht ho

theorem matches_takeAll (h : s.Mirrors m s') (i j : Nat) (first : Bool) (wants : List (Demand × Bool)) :
    Matches m s s' (takeAll i first wants) (takeAll j first wants) fun t os => ∀ o ∈ os, t.Known o :=
  matches_mapM (R := State.Known) (fun _ _ _ => known_of_le) h fun _ _ _ _ ht _ => matches_take ht i j _ _

theorem known_of_mem_operandsOf {stack : Stack} (hk : s.StackKnown stack) (ho : o ∈ operandsOf stack) : s.Known o := by
  simp only [operandsOf, List.mem_filterMap, List.mem_reverse] at ho
  obtain ⟨w, hw, ho⟩ := ho
  cases w with
  | wideHalf => cases ho
  | operand p =>
    obtain rfl := Option.some.inj ho
    exact hk p hw

/-- Whether a value is at risk is told alike. -/
theorem matches_freezeEach (h : s.Mirrors m s') {atRisk : State → OperandId → Bool}
    (hrisk : ∀ t t' o, t.Mirrors m t' → atRisk t' o = atRisk t o) :
    Matches m s s' ((operandsOf s.stack).forM (freeze atRisk)) ((operandsOf s'.stack).forM (freeze atRisk)) Anything := by
  rw [h.stack]
  refine matches_forM h fun o ho t t' ht hsize => matches_get_bind ?_
  have hk := known_of_le hsize (known_of_mem_operandsOf h.stack_known ho)
  refine matches_ite ?_ (fun _ => matches_spill ht hk) fun _ => matches_pure ht trivial
  rw [ht.operand, hrisk t t' o ht]

theorem matches_freezeAll (h : s.Mirrors m s') : Matches m s s' freezeAll freezeAll Anything :=
  matches_get_bind (matches_freezeEach h fun _ _ _ ht => by rw [ht.operand])

theorem matches_freezeReadersOf (h : s.Mirrors m s') (r : RegisterId) :
    Matches m s s' (freezeReadersOf r) (freezeReadersOf r) Anything :=
  matches_get_bind (matches_freezeEach h fun _ _ o ht => ht.mentions r o)

/-! ## Joins -/

theorem definesOperand_eq (h : s.Mirrors m s') (hk : s.Known o) : definesOperand s' o = definesOperand s o := by
  have hi := h.insn_stays o hk
  unfold definesOperand
  dsimp only
  rw [h.operand, h.handlerEntry? hi, h.unit _ hi]
  cases s.handlerEntry? (s.operand o).insn <;> rfl

theorem matches_rebind (h : s.Mirrors m s') (hk : s.Known o) (r : RegisterId) : Matches m s s' (rebind o r) (rebind o r) Anything := by
  refine matches_get_bind ?_
  rw [h.operand]
  dsimp only
  cases (s.operand o).register with
  | none => exact matches_bind_register h hk r
  | some q =>
    refine matches_ite Iff.rfl (fun _ => ?_) fun _ => matches_pure h trivial
    exact matches_ite (by rw [definesOperand_eq h hk]) (fun _ => matches_setRegister h o r) fun _ => matches_fail

theorem matches_bringInto (h : s.Mirrors m s') (hk : s.Known o) (r : RegisterId) :
    Matches m s s' (bringInto o r) (bringInto o r) Anything := by
  refine matches_get_bind ?_
  dsimp only
  rw [h.operand]
  dsimp only
  cases (s.operand o).register with
  | none => exact matches_bind_register h hk r
  | some q =>
    exact matches_ite Iff.rfl (fun _ => matches_appendUnit h (h.insn_stays o hk) _) fun _ => matches_pure h trivial

theorem matches_joinAt (h : s.Mirrors m s') {column : List OperandId} (hc : ∀ p ∈ column, s.Known p) (hk : s.Known o)
    (shared : Option RegisterId) : Matches m s s' (joinAt column shared o) (joinAt column shared o) Anything := by
  cases shared with
  | some r => exact matches_bind (matches_bringInto h hk r) fun _ t t' ht _ _ => matches_pure ht trivial
  | none =>
    have all : ∀ p ∈ column ++ [o], s.Known p := fun p hp =>
      (List.mem_append.mp hp).elim (hc p) fun hp => List.mem_singleton.mp hp ▸ hk
    have meeting : Matches m s s' (meetingRegister (column ++ [o])) (meetingRegister (column ++ [o])) Anything := by
      refine matches_get_bind ?_
      simp only [h.operand]
      split
      · exact matches_pure h trivial
      · exact matches_freshRegister h
    refine matches_bind meeting fun r t t' ht hsize _ => ?_
    refine matches_bind (matches_forM ht fun p hp u u' hu hle => ?_) fun _ u u' hu _ _ => matches_pure hu trivial
    exact matches_rebind hu (known_of_le (Nat.le_trans hsize hle) (all p hp)) r

theorem matches_joinInputs (h : s.Mirrors m s') (hi : m.Stays i) (hrow : ∀ o ∈ row, s.Known o) :
    Matches m s s' (joinInputs i row) (joinInputs (m.place i) row) Anything := by
  refine matches_ite Iff.rfl (fun _ => matches_pure h trivial) fun _ => matches_get_bind ?_
  dsimp only
  rw [h.frame i hi]
  have joined : Matches m s s'
      (do
        let shared ← row.zipIdx.mapM fun p => joinAt (column (s.frame i).rows p.2) ((s.frame i).shared[p.2]?.join) p.1
        modifyFrame i fun f => { f with rows := f.rows ++ [row], shared := shared.map some })
      (do
        let shared ← row.zipIdx.mapM fun p => joinAt (column (s.frame i).rows p.2) ((s.frame i).shared[p.2]?.join) p.1
        modifyFrame (m.place i) fun f => { f with rows := f.rows ++ [row], shared := shared.map some }) Anything := by
    refine matches_bind (matches_mapM (R := Anything) (fun _ _ _ _ _ => trivial) h fun p hp t t' ht hsize => ?_)
      fun shared t t' ht hsize _ => ?_
    · refine matches_joinAt ht (fun q hq => ?_) (known_of_le hsize (hrow p.1 (List.fst_mem_of_mem_zipIdx hp))) _
      obtain ⟨row', hrow', hq⟩ := List.mem_filterMap.mp hq
      exact known_of_le hsize (h.rows_known i row' hrow' q (List.mem_of_getElem? hq))
    · refine matches_modifyFrame ht hi (fun row' hrow' q hq => ?_) (ht.out_known i)
      rcases List.mem_append.mp hrow' with hold | hnew
      · exact ht.rows_known i row' hold q hq
      · rw [List.mem_singleton.mp hnew] at hq
        exact known_of_le hsize (hrow q hq)
  exact matches_ite Iff.rfl (fun _ => joined) fun _ => matches_bind matches_fail fun _ _ _ _ _ (h : False) => h.elim

theorem matches_setInputs (h : s.Mirrors m s') (hi : m.Stays i) (hrow : ∀ o ∈ row, s.Known o) :
    Matches m s s' (setInputs i row) (setInputs (m.place i) row) Anything := by
  refine matches_modifyFrame h hi (fun row' hrow' => ?_) (h.out_known i)
  rw [List.mem_singleton.mp hrow']
  exact hrow

/-! ## Results and statements -/

theorem matches_produce (h : s.Mirrors m s') (hi : m.Stays i) (hrow : ∀ o ∈ row, s.Known o) (v : Rvalue OperandId) :
    Matches m s s' (produce i row v) (produce (m.place i) row v) State.Known := by
  refine matches_get_bind ?_
  rw [h.frame i hi]
  cases hout : (s.frame i).out with
  | some o =>
    refine matches_bind (matches_joinInputs h hi hrow) fun _ t t' ht hsize _ => ?_
    exact matches_pure ht (known_of_le hsize (h.out_known i o hout))
  | none =>
    refine matches_bind (matches_newOperand h hi v none) fun o t t' ht hsize ho => ?_
    refine matches_bind (matches_setInputs ht hi fun p hp => known_of_le hsize (hrow p hp)) fun _ u u' hu hle _ => ?_
    have hk := known_of_le hle ho
    refine matches_bind (matches_modifyFrame hu hi (hu.rows_known i) fun p hp => ?_) fun _ w w' hw hle' _ =>
      matches_pure hw (known_of_le hle' hk)
    exact Option.some.inj hp ▸ hk

theorem matches_emit (h : s.Mirrors m s') (hi : m.Stays i) (hrow : ∀ o ∈ row, s.Known o) (d : Draft) :
    Matches m s s' (emit i row d) (emit (m.place i) row d) Anything := by
  refine matches_get_bind (matches_ite (by rw [h.unit i hi]) (fun _ => ?_) fun _ => matches_joinInputs h hi hrow)
  exact matches_bind (matches_setInputs h hi hrow) fun _ t t' ht _ _ => matches_setUnit ht hi d

theorem matches_leaveResult (h : s.Mirrors m s') (hi : m.Stays i) (hrow : ∀ o ∈ row, s.Known o) (wide : Option Bool) (v : Rvalue OperandId) :
    Matches m s s' (leaveResult i row wide v) (leaveResult (m.place i) row wide v) Anything :=
  matches_bind (matches_produce h hi hrow v) fun _ _ _ ht _ ho => matches_push ht ho _

theorem matches_lowerEffect (h : s.Mirrors m s') (hi : m.Stays i) (hrow : ∀ o ∈ row, s.Known o) (wide : Option Bool) (e : Effect OperandId) :
    Matches m s s' (lowerEffect i row wide e) (lowerEffect (m.place i) row wide e) Anything := by
  -- The row stays known while registers are made.
  have later : ∀ {t : State}, s.operands.size ≤ t.operands.size → ∀ o ∈ row, t.Known o := fun hsize o ho => known_of_le hsize (hrow o ho)
  cases e with
  | constant | operator | read => exact matches_leaveResult h hi hrow wide _
  | load k =>
    exact matches_bind (matches_slotRegister h k) fun r t t' ht hsize _ => matches_leaveResult ht hi (later hsize) wide _
  | call c =>
    refine matches_ite Iff.rfl (fun _ => ?_) fun _ => ?_
    · exact matches_bind (matches_emit h hi hrow _) fun _ t t' ht _ _ => matches_freezeAll ht
    · exact matches_bind (matches_leaveResult h hi hrow wide _) fun _ t t' ht _ _ => matches_freezeAll ht
  | store k v =>
    refine matches_bind (matches_slotRegister h k) fun r t t' ht hsize _ => ?_
    exact matches_bind (matches_emit ht hi (later hsize) _) fun _ u u' hu _ _ => matches_freezeReadersOf hu r
  | increment k amount =>
    refine matches_bind (matches_slotRegister h k) fun r t t' ht hsize _ => ?_
    exact matches_bind (matches_freezeReadersOf ht r) fun _ u u' hu hle _ => matches_emit hu hi (later (Nat.le_trans hsize hle)) _
  | write place v => exact matches_bind (matches_emit h hi hrow _) fun _ t t' ht _ _ => matches_freezeAll ht
  | _ => exact matches_emit h hi hrow _

theorem matches_lowerPlain (h : s.Mirrors m s') (hi : m.Stays i) (op : Operation) :
    Matches m s s' (lowerPlain i op) (lowerPlain (m.place i) op) Anything := by
  have first : Matches m s s' (firstVisit i) (firstVisit (m.place i)) Anything := by
    refine matches_get_bind ?_
    rw [h.frame i hi, h.unit i hi]
    exact matches_pure h trivial
  refine matches_bind first fun b t t' ht _ _ => matches_bind (matches_takeAll ht i _ b _) fun os u u' hu _ hos => ?_
  have hrow : ∀ o ∈ os.reverse, u.Known o := fun o ho => hos o (List.mem_reverse.mp ho)
  split
  · exact matches_lowerEffect hu hi (fun o ho => hrow o (Operation.mem_row.mp ho)) _ _
  · exact matches_fail

/-! ## Words and labels -/

theorem matches_anyWord (h : s.Mirrors m s') (i j : Nat) : Matches m s s' (anyWord i) (anyWord j) WordKnown := by
  refine matches_bind (matches_peekWord h i j) fun w t t' ht _ _ => ?_
  cases w with
  | wideHalf => exact matches_popWord ht i j
  | operand =>
    exact matches_bind (matches_take ht i j _ _) fun o u u' hu _ ho => matches_pure hu (wordKnown_operand.mpr ho)

theorem matches_secondWord (h : s.Mirrors m s') (hk : s.Known o) (i j : Nat) :
    Matches m s s' (secondWord i o) (secondWord j o) WordKnown := by
  refine matches_bind (matches_peekWord h i j) fun w t t' ht hsize _ => ?_
  cases w with
  | wideHalf =>
    refine matches_bind (matches_popWord ht i j) fun _ u u' hu hle _ => ?_
    exact matches_pure hu (wordKnown_operand.mpr (known_of_le (Nat.le_trans hsize hle) hk))
  | operand =>
    exact matches_bind (matches_take ht i j _ _) fun o u u' hu _ ho => matches_pure hu (wordKnown_operand.mpr ho)

theorem matches_lowerShuffle (h : s.Mirrors m s') (i j : Nat) (how : Shuffle) (count : Count) :
    Matches m s s' (lowerShuffle i how count) (lowerShuffle j how count) Anything := by
  -- Every stack instruction takes an operand first.
  have one : ∀ {t t' : State} {f f' : OperandId → LowerM Unit}, t.Mirrors m t' → (∀ o u u', u.Mirrors m u' →
      t.operands.size ≤ u.operands.size → u.Known o → Matches m u u' (f o) (f' o) Anything) →
      Matches m t t' (take i .immediate false >>= f) (take j .immediate false >>= f') Anything := fun ht hf =>
    matches_bind (matches_take ht i j _ _) hf
  cases how with
  | pop =>
    cases count with
    | one => exact one h fun _ _ _ ht _ _ => matches_pure ht trivial
    | two => exact one h fun _ _ _ ht _ _ => matches_bind (matches_anyWord ht i j) fun _ _ _ hu _ _ => matches_pure hu trivial
  | dup =>
    cases count with
    | one =>
      refine one h fun o t t' ht _ ho => matches_pushWords ht ?_
      simp [wordKnown_operand, ho]
    | two =>
      refine one h fun o t t' ht _ ho => matches_bind (matches_secondWord ht ho i j) fun w u u' hu hsize hw => matches_pushWords hu ?_
      simp [wordKnown_operand, known_of_le hsize ho, hw]
  | dupX1 =>
    cases count with
    | one =>
      refine one h fun o t t' ht _ ho => one ht fun p u u' hu hsize hp => matches_pushWords hu ?_
      simp [wordKnown_operand, known_of_le hsize ho, hp]
    | two =>
      refine one h fun o t t' ht _ ho => matches_bind (matches_secondWord ht ho i j) fun w u u' hu hsize hw => ?_
      refine one hu fun p v v' hv hle hp => matches_pushWords hv ?_
      simp [wordKnown_operand, known_of_le (Nat.le_trans hsize hle) ho, hw.mono hle, hp]
  | dupX2 =>
    cases count with
    | one =>
      refine one h fun o t t' ht _ ho => one ht fun p u u' hu hsize hp => ?_
      refine matches_bind (matches_anyWord hu i j) fun w v v' hv hle hw => matches_pushWords hv ?_
      simp [wordKnown_operand, known_of_le (Nat.le_trans hsize hle) ho, known_of_le hle hp, hw]
    | two =>
      refine one h fun o t t' ht _ ho => matches_bind (matches_secondWord ht ho i j) fun w u u' hu hsize hw => ?_
      refine one hu fun p v v' hv hle hp => matches_bind (matches_anyWord hv i j) fun w' z z' hz hlast hw' => matches_pushWords hz ?_
      simp [wordKnown_operand, known_of_le (Nat.le_trans hsize (Nat.le_trans hle hlast)) ho, hw.mono (Nat.le_trans hle hlast),
        known_of_le hlast hp, hw']
  | swap =>
    refine one h fun o t t' ht _ ho => one ht fun p u u' hu hsize hp => matches_pushWords hu ?_
    simp [wordKnown_operand, known_of_le hsize ho, hp]

theorem matches_lowerLabel (h : s.Mirrors m s') (hi : m.Stays i) (l : Label) :
    Matches m s s' (lowerLabel m i l) (lowerLabel m.unmarked (m.place i) l) Anything := by
  refine matches_ite Iff.rfl (fun _ => matches_get_bind ?_) fun _ => matches_pure h trivial
  refine matches_ite (by simp [h.handlerEntry? hi]) (fun _ => ?_) fun _ => ?_
  · exact matches_ite (by rw [h.unit i hi]) (fun _ => matches_setUnit h hi _) fun _ => matches_pure h trivial
  · rw [h.frame i hi]
    cases hout : (s.frame i).out with
    | some o => exact matches_push h (h.out_known i o hout) false
    | none =>
      refine matches_bind (matches_freshRegister h) fun r t t' ht _ _ => ?_
      refine matches_bind (matches_newOperand ht hi _ _) fun o u u' hu _ ho => ?_
      refine matches_bind (matches_modifyFrame hu hi (hu.rows_known i) fun p hp => Option.some.inj hp ▸ ho) fun _ v v' hv hle _ => ?_
      refine matches_bind (matches_setUnit hv hi _) fun _ w w' hw hle' _ => ?_
      exact matches_push hw (known_of_le (Nat.le_trans hle hle') ho) false

/-- Lowering an operation that stays is the same at its place in the code without line numbers. -/
theorem matches_lowerOperation (h : s.Mirrors m s') (hi : m.Stays i) {op : Operation} (stays : op.isLine = false) :
    Matches m s s' (lowerOperation m i op) (lowerOperation m.unmarked (m.place i) op) Anything := by
  by_cases hp : op.isPlain
  · rw [lowerOperation_plain m i hp, lowerOperation_plain m.unmarked (m.place i) hp]
    exact matches_lowerPlain h hi op
  · cases op with
    | shuffle how count => exact matches_lowerShuffle h i (m.place i) how count
    | line => cases stays
    | label l => exact matches_lowerLabel h hi l
    | unhandled => exact matches_fail
    | _ => exact absurd rfl hp

end Lowering
end ThreeAddress
