import ThreeAddress.Proofs.Lowering.Plain
import ThreeAddress.Proofs.Lowering.Steps

/-!
# Taking and freezing operands

What it does to take operands from the stack and to freeze those that are left: it evaluates some operands into registers of their own,
and each operand then meets the demand on it, or is safe from the write that follows.
-/

namespace ThreeAddress

open State

theorem Rvalue.asRegister?_eq_some {α : Type} {v : Rvalue α} {r : RegisterId} : v.asRegister? = some r ↔ v = .register r := by
  cases v with
  | immediate i => cases i <;> simp [asRegister?, register]
  | _ => simp [asRegister?, register]

theorem Rvalue.isConstant_iff {α : Type} {v : Rvalue α} : v.isConstant ↔ ∃ c, v = .immediate (.constant c) := by
  cases v with
  | immediate i => cases i <;> simp [isConstant]
  | _ => simp [isConstant]

namespace Lowering

variable {m : Method} {shares : Bool} {s s' s'' : State} {i : Nat} {o : OperandId} {r : RegisterId} {u : PUnit}

/-! ## Registers for operands -/

/-- An operand meets a demand: it has a register, or its value does. -/
def Meets (d : Demand) (s : State) (o : OperandId) : Prop :=
  (s.operand o).register.isSome ∨ d.accepts (s.operand o).value

theorem Meets.mono {d : Demand} (h : Meets d s o) (he : s.Extends s') (hk : s.Known o) : Meets d s' o := by
  rcases h with h | h
  · exact Or.inl (he.bound o h)
  · exact Or.inr (by rwa [he.value o hk])

/-- What meets a demand for a register or a constant needs no evaluation. -/
theorem Meets.isImmediate {d : Demand} (h : Meets d s o) (hd : d ≠ .any) : (s.content o).isImmediate := by
  rcases h with h | h
  · obtain ⟨r, hr⟩ := Option.isSome_iff_exists.mp h
    rw [content_of_register hr]
    rfl
  · cases hr : (s.operand o).register with
    | some r =>
      rw [content_of_register hr]
      rfl
    | none =>
      rw [content_of_unbound hr]
      cases hv : (s.operand o).value with
      | immediate v => rfl
      | _ => cases d <;> simp_all [Demand.accepts, Rvalue.asRegister?, Rvalue.isImmediate, Rvalue.isConstant]

/-- What meets the demand for a register stands for one. -/
theorem Meets.content_register (h : Meets .register s o) : ∃ r, s.content o = .register r := by
  cases hr : (s.operand o).register with
  | some r => exact ⟨r, content_of_register hr⟩
  | none =>
    have haccepts := h.resolve_left (by simp [hr])
    obtain ⟨r, hv⟩ := Option.isSome_iff_exists.mp haccepts
    exact ⟨r, (content_of_unbound hr).trans (Rvalue.asRegister?_eq_some.mp hv)⟩

/-- What meets the demand for a constant stands for one or has a register. -/
theorem Meets.constant_or_register (h : Meets .constant s o) :
    (∃ c, s.content o = .immediate (.constant c)) ∨ ∃ r, (s.operand o).register = some r := by
  cases hr : (s.operand o).register with
  | some r => exact Or.inr ⟨r, rfl⟩
  | none =>
    have haccepts := h.resolve_left (by simp [hr])
    rw [content_of_unbound hr]
    exact Or.inl (Rvalue.isConstant_iff.mp haccepts)

/-- Changes that lead to a stack and leave the frames alone. -/
structure Spills (m : Method) (shares : Bool) (s : State) (stack : Stack) (s' : State) : Prop where
  changes : Changes m shares s s'
  stack : s'.stack = stack
  frames : s'.frames = s.frames

theorem Spills.refl (s : State) : Spills m shares s s.stack s :=
  ⟨.refl, rfl, rfl⟩

theorem Spills.trans {stack stack' : Stack} (h : Spills m shares s stack s') (h' : Spills m shares s' stack' s'') :
    Spills m shares s stack' s'' :=
  ⟨h.changes.trans h'.changes, h'.stack, h'.frames.trans h.frames⟩

/-- What an instruction remembers is as before. -/
theorem Spills.frame {stack : Stack} (h : Spills m shares s stack s') (i : Nat) : s'.frame i = s.frame i := by
  simp only [State.frame, h.frames]

/-- A spilled operand is evaluated into a register of its own. -/
theorem spill_spec (shares : Bool) (h : Yields (spill o) s u s') (hc : s.Coherent m) (hk : s.Known o)
    (hn : (s.operand o).register = none) : Spills m shares s s.stack s' ∧ (s'.operand o).register.isSome := by
  simp only [spill, yields_bind, yields_freshRegister, yields_bind_register] at h
  obtain ⟨r, t, ⟨rfl, rfl⟩, hunit, rfl⟩ := h
  refine ⟨⟨.tail (.single .fresh) (.bind hk hn hunit hc.synthesized_fresh fun _ p => ?_), rfl, rfl⟩, ?_⟩
  · exact hc.fresh_free p
  · rw [modifyUnit_operand, operand_bindTo_self (show (s.withRegisters s.registers.fresh.2).Known o from hk)]
    rfl

/-- An operand that is settled meets the demand. -/
theorem settle_spec (shares : Bool) {d : Demand} (h : Yields (settle d o) s u s') (hc : s.Coherent m) (hk : s.Known o) :
    Spills m shares s s.stack s' ∧ Meets d s' o := by
  simp only [settle, yields_bind, yields_get, yields_ite, yields_pure, Bool.and_eq_true, Bool.not_eq_true',
    Option.isNone_iff_eq_none] at h
  obtain ⟨_, _, ⟨rfl, rfl⟩, ⟨⟨hn, -⟩, h⟩ | ⟨hno, -, rfl⟩⟩ := h
  · obtain ⟨hq, hb⟩ := spill_spec shares h hc hk hn
    exact ⟨hq, Or.inl hb⟩
  · refine ⟨.refl _, ?_⟩
    by_cases hb : (s'.operand o).register = none
    · exact Or.inr (by simpa [hb] using hno)
    · exact Or.inl (Option.isSome_iff_ne_none.mpr hb)

/-! ## Taking operands -/

theorem mem_of_popOperand {wide : Bool} {stack rest : Stack} (h : popOperand wide stack = some (o, rest)) :
    .operand o ∈ stack ∧ ∀ w ∈ rest, w ∈ stack := by
  unfold popOperand at h
  split at h
  · simp only [Option.some.injEq, Prod.mk.injEq] at h
    obtain ⟨rfl, rfl⟩ := h
    exact ⟨by simp, fun w hw => by simp [hw]⟩
  · simp only [Option.some.injEq, Prod.mk.injEq] at h
    obtain ⟨rfl, rfl⟩ := h
    exact ⟨by simp, fun w hw => by simp [hw]⟩
  · split at h
    · simp only [Option.some.injEq, Prod.mk.injEq] at h
      obtain ⟨rfl, rfl⟩ := h
      exact ⟨by simp, fun w hw => by simp [hw]⟩
    · cases h
  · cases h

/-- Operands that are popped were on the stack, and so was all that is left. -/
theorem mem_of_popOperands {ws : List Bool} {os : List OperandId} {stack rest : Stack}
    (h : popOperands ws stack = some (os, rest)) : (∀ o ∈ os, .operand o ∈ stack) ∧ ∀ w ∈ rest, w ∈ stack := by
  induction ws generalizing os stack with
  | nil =>
    simp only [popOperands, Option.some.injEq, Prod.mk.injEq] at h
    obtain ⟨rfl, rfl⟩ := h
    exact ⟨by simp, fun w hw => hw⟩
  | cons w ws ih =>
    simp only [popOperands, Option.bind_eq_bind, Option.bind_eq_some_iff, Option.pure_def, Option.some.injEq, Prod.mk.injEq] at h
    obtain ⟨⟨o, mid⟩, ho, ⟨os', rest'⟩, hos, rfl, rfl⟩ := h
    obtain ⟨hmem, hsub⟩ := mem_of_popOperand ho
    obtain ⟨hmem', hsub'⟩ := ih hos
    refine ⟨?_, fun v hv => hsub v (hsub' v hv)⟩
    intro p hp
    rcases List.mem_cons.mp hp with rfl | hp
    · exact hmem
    · exact hsub _ (hmem' p hp)

theorem take_spec (shares : Bool) {d : Demand} {wide : Bool} (h : Yields (take i d wide) s o s') (hc : s.Coherent m)
    (hk : s.StackKnown s.stack) : ∃ rest, popOperand wide s.stack = some (o, rest) ∧ Spills m shares s rest s' ∧ Meets d s' o := by
  have htake : take i d wide = (if wide then popWide i else popNarrow i) >>= fun o => do settle d o; return o := by
    cases wide <;> rfl
  rw [htake, yields_bind] at h
  obtain ⟨p, t, hpop, h⟩ := h
  obtain ⟨rest, hrest, rfl⟩ := yields_pop.mp hpop
  simp only [yields_bind, yields_pure] at h
  obtain ⟨_, t', hsettle, rfl, rfl⟩ := h
  have hstack : Change m shares s (s.withStack rest) := .stack rest
  obtain ⟨hq, hm⟩ := settle_spec shares hsettle (hstack.coherent hc) (hk _ (mem_of_popOperand hrest).1)
  exact ⟨rest, hrest, .trans ⟨.single hstack, rfl, rfl⟩ hq, hm⟩

/-- Taking operands pops them and makes each meet its demand. -/
theorem takeAll_spec (shares : Bool) {first : Bool} {wants : List (Demand × Bool)} {os : List OperandId}
    (h : Yields (takeAll i first wants) s os s') (hc : s.Coherent m) (hk : s.StackKnown s.stack) :
    ∃ rest, popOperands (wants.map (·.2)) s.stack = some (os, rest) ∧ Spills m shares s rest s' ∧
      List.Forall₂ (fun want o => Meets (want.1.onVisit first) s' o) wants os := by
  induction wants generalizing s os with
  | nil =>
    simp only [takeAll, yields_mapM_nil] at h
    obtain ⟨rfl, rfl⟩ := h
    exact ⟨_, rfl, .refl _, .nil⟩
  | cons want wants ih =>
    simp only [takeAll, yields_mapM_cons] at h
    obtain ⟨o, t, os', htake, hrest, rfl⟩ := h
    obtain ⟨mid, hpop, hq, hm⟩ := take_spec shares htake hc hk
    have he := hq.changes.extends hc
    have hct := hq.changes.coherent hc
    have hk' : t.StackKnown t.stack := by
      rw [hq.stack]
      exact he.stackKnown fun p hp => hk p ((mem_of_popOperand hpop).2 _ hp)
    obtain ⟨rest, hpops, hq', hall⟩ := ih hrest hct hk'
    have hko : t.Known o := he.known (hk o (mem_of_popOperand hpop).1)
    refine ⟨rest, ?_, hq.trans hq', .cons (hm.mono (hq'.changes.extends hct) hko) hall⟩
    rw [hq.stack] at hpops
    simp [popOperands, hpop, hpops]

/-! ## Freezing -/

/-- An operand that has a register, or whose value is not at risk, is frozen. -/
def Frozen (atRisk : State → OperandId → Bool) (s : State) (o : OperandId) : Prop :=
  (s.operand o).register.isSome ∨ atRisk s o = false

theorem freeze_spec (shares : Bool) {atRisk : State → OperandId → Bool} (h : Yields (freeze atRisk o) s u s') (hc : s.Coherent m)
    (hk : s.Known o) : Spills m shares s s.stack s' ∧ ((s'.operand o).register.isSome ∨ (s' = s ∧ atRisk s o = false)) := by
  simp only [freeze, yields_bind, yields_get, yields_ite, yields_pure, Bool.and_eq_true, Option.isNone_iff_eq_none] at h
  obtain ⟨_, _, ⟨rfl, rfl⟩, ⟨⟨hn, -⟩, h⟩ | ⟨hno, -, rfl⟩⟩ := h
  · obtain ⟨hq, hb⟩ := spill_spec shares h hc hk hn
    exact ⟨hq, Or.inl hb⟩
  · refine ⟨.refl _, ?_⟩
    by_cases hb : (s'.operand o).register = none
    · exact Or.inr ⟨rfl, by simpa [hb] using hno⟩
    · exact Or.inl (Option.isSome_iff_ne_none.mpr hb)

/-- Operands that are frozen one after another are all frozen in the end, if nothing that follows can put a value at risk. -/
theorem freezes_spec (shares : Bool) {atRisk : State → OperandId → Bool} {os : List OperandId}
    (h : Yields (os.forM (freeze atRisk)) s u s') (hc : s.Coherent m) (hk : ∀ o ∈ os, s.Known o)
    (stable : ∀ t t' o, t.Coherent m → t'.Coherent m → s.Extends t → t.Extends t' → t.Known o → atRisk t o = false →
      (t'.operand o).register = none → atRisk t' o = false) :
    Spills m shares s s.stack s' ∧ ∀ o ∈ os, Frozen atRisk s' o := by
  induction os generalizing s with
  | nil =>
    rw [yields_forM_nil] at h
    subst h
    exact ⟨.refl _, by simp⟩
  | cons o os ih =>
    rw [yields_forM_cons] at h
    obtain ⟨t, ho, hrest⟩ := h
    obtain ⟨hq, hfrozen⟩ := freeze_spec shares ho hc (hk o (by simp))
    have he := hq.changes.extends hc
    have hct := hq.changes.coherent hc
    obtain ⟨hq', hall⟩ := ih hrest hct (fun p hp => he.known (hk p (by simp [hp])))
      fun t₁ t₂ p h₁ h₂ e₁ => stable t₁ t₂ p h₁ h₂ (he.trans e₁)
    refine ⟨hq.stack ▸ hq.trans hq', ?_⟩
    intro p hp
    rcases List.mem_cons.mp hp with rfl | hp
    · have he' := hq'.changes.extends hct
      rcases hfrozen with hb | ⟨rfl, hrisk⟩
      · exact Or.inl (he'.bound p hb)
      · by_cases hb : (s'.operand p).register = none
        · exact Or.inr (stable t s' p hct (hq'.changes.coherent hct) he he' (hk p (by simp)) hrisk hb)
        · exact Or.inl (Option.isSome_iff_ne_none.mpr hb)
    · exact hall p hp

/-- An operand that does not mention the register of a local slot never will. -/
theorem mentions_stable {k : Nat} (he : s.Extends s') (hc : s.Coherent m) (hc' : s'.Coherent m)
    (hslot : s.registers.slot? k = some r) (o : OperandId) (hk : s.Known o) (h : s.mentions r o = false) :
    s'.mentions r o = false := by
  cases hr' : (s'.operand o).register with
  | some q =>
    have hq : q ≠ r := by
      rintro rfl
      exact (hc'.register o q hr').2 k (he.slot k q hslot)
    rw [State.mentions, content_of_register hr']
    simpa [Rvalue.register] using hq
  | none =>
    have hr : (s.operand o).register = none := by
      by_contra hsome
      have := he.bound o (Option.isSome_iff_ne_none.mpr hsome)
      simp [hr'] at this
    rw [State.mentions, content_of_unbound hr] at h
    rw [State.mentions, content_of_unbound hr', he.value o hk]
    have hops := hc.operands o hk
    cases hv : (s.operand o).value with
    | immediate v => simpa [hv] using h
    | expr | ref =>
      simp only [hv, List.any_eq_false] at h ⊢
      rw [hv] at hops
      intro p hp
      have hlt := (hops p hp).1
      have hp' := h p hp
      simp only [hlt, dite_true, Bool.not_eq_true] at hp' ⊢
      exact mentions_stable he hc hc' hslot p (Nat.lt_trans hlt hk) hp'
termination_by o.index

end Lowering
end ThreeAddress
