import ThreeAddress.Proofs.Labels
import ThreeAddress.Proofs.Lowering.Settled
import ThreeAddress.Proofs.Lowering.Visit

/-!
# Following control straight on

`Followed` says that control was followed from an operation with a stack to where it ended or divided, each operation on the way being
visited with the stack that the one before it left. What was followed stays followed in every later state.
-/

namespace ThreeAddress

open State

/-! ## Where control goes -/

namespace Lowering

variable {m : Method} {i j : Nat} {op : Operation}

/-- Control goes on to the next operation alone where it does not divide or end. -/
theorem leads_of_straight (h : exits m i op = .ok none) : m.Leads i op j ↔ j = i + 1 := by
  cases op with
  | «return» | throw => cases h
  | branch | jump | «switch» =>
    simp only [exits, bind_eq_ok, pure_eq_ok, reduceCtorEq, and_false, exists_false] at h
  | _ => exact Iff.rfl

/-- Where control divides or ends, it goes on to the targets, and to the end of the code if a branch is the last operation. -/
theorem leads_of_exits {ts : List Nat} (h : exits m i op = .ok (some ts)) :
    (∀ j ∈ ts, m.Leads i op j) ∧ ∀ j, m.Leads i op j → j < m.code.length → j ∈ ts := by
  cases op with
  | «return» | throw =>
    simp only [exits, Except.ok.injEq, Option.some.injEq] at h
    subst h
    exact ⟨fun j hj => (by cases hj), fun _ hj _ => hj.elim⟩
  | branch kind operands way target =>
    simp only [exits, bind_eq_ok, pure_eq_ok, labelIndex_eq_ok, Option.some.injEq] at h
    obtain ⟨t, ht, rfl⟩ := h
    refine ⟨fun j hj => ?_, fun j hj hlt => ?_⟩
    · rcases List.mem_append.mp hj with hj | hj
      · split at hj
        · exact Or.inl (List.mem_singleton.mp hj)
        · cases hj
      · rw [List.mem_singleton.mp hj]
        exact Or.inr ht
    · rcases hj with rfl | hj
      · simp [hlt]
      · rw [ht, Option.some.injEq] at hj
        simp [hj]
  | jump target =>
    simp only [exits, bind_eq_ok, pure_eq_ok, labelIndex_eq_ok, Option.some.injEq] at h
    obtain ⟨t, ht, rfl⟩ := h
    refine ⟨fun j hj => by rw [List.mem_singleton.mp hj]; exact ht, fun j hj _ => ?_⟩
    rw [Method.Leads, ht, Option.some.injEq] at hj
    exact List.mem_singleton.mpr hj.symm
  | «switch» default cases =>
    simp only [exits, bind_eq_ok, pure_eq_ok, labelIndex_eq_ok, Option.some.injEq, mapM_eq_ok] at h
    obtain ⟨d, hd, ts, hts, rfl⟩ := h
    have hall : List.Forall₂ (fun l j => m.labelIndex? l = some j) (default :: cases.targets) (d :: ts) := .cons hd hts
    constructor
    · intro j hj
      obtain ⟨l, hl, hlj⟩ := exists_of_forall₂ hall hj
      exact ⟨l, Cases.mem_cons_targets.mp hl, hlj⟩
    · rintro j ⟨l, hl, hlj⟩ -
      obtain ⟨t, ht, hlt⟩ := exists_of_forall₂ hall.flip (Cases.mem_cons_targets.mpr hl)
      rwa [Option.some.inj (hlj.symm.trans hlt)]
  | _ => cases h

/-! ## Depths -/

/-- What is known of depths stays known. -/
def DepthsKeep (depths depths' : Array (Option Nat)) : Prop :=
  depths'.size = depths.size ∧ ∀ i d : Nat, depths[i]?.join = some d → depths'[i]?.join = some d

theorem DepthsKeep.refl (depths : Array (Option Nat)) : DepthsKeep depths depths :=
  ⟨rfl, fun _ _ h => h⟩

theorem DepthsKeep.trans {depths depths' depths'' : Array (Option Nat)} (h : DepthsKeep depths depths')
    (h' : DepthsKeep depths' depths'') : DepthsKeep depths depths'' :=
  ⟨h'.1.trans h.1, fun i d hd => h'.2 i d (h.2 i d hd)⟩

/-- A depth that passed the check is known afterwards. -/
theorem checkDepth_spec {depths depths' : Array (Option Nat)} {d : Nat} (h : checkDepth depths i d = .ok depths') (hi : i < depths.size) :
    DepthsKeep depths depths' ∧ depths'[i]?.join = some d := by
  unfold checkDepth at h
  split at h
  · rename_i hnone
    simp only [Except.ok.injEq] at h
    subst h
    refine ⟨⟨by simp, fun j e hj => ?_⟩, by simp [Array.getElem?_modify, Array.getElem?_eq_getElem hi]⟩
    have hji : i ≠ j := by
      rintro rfl
      simp [hnone] at hj
    simpa [Array.getElem?_modify, hji] using hj
  · rename_i e hsome
    split at h
    · rename_i hed
      simp only [Except.ok.injEq] at h
      subst h
      exact ⟨.refl _, hed ▸ hsome⟩
    · cases h

/-- The check of a depth fixes no other one. -/
theorem checkDepth_of_ne {depths depths' : Array (Option Nat)} {d : Nat} (h : checkDepth depths i d = .ok depths') (hj : j ≠ i) :
    depths'[j]?.join = depths[j]?.join := by
  unfold checkDepth at h
  split at h
  · cases h
    simp [Array.getElem?_modify, hj.symm]
  · split at h <;> cases h
    rfl

/-- A depth passes the check unless another one is fixed. -/
theorem exists_checkDepth {depths : Array (Option Nat)} {d : Nat} (h : ∀ e, depths[i]?.join = some e → e = d) :
    ∃ depths', checkDepth depths i d = .ok depths' := by
  unfold checkDepth
  split
  · exact ⟨_, rfl⟩
  · rename_i e he
    rw [if_pos (h e he)]
    exact ⟨_, rfl⟩

theorem checkEffect_eq_ok {before after : Nat} (h : checkEffect i op before after = .ok ()) {k : Int} (hk : op.stackEffect = some k) :
    (after : Int) = before + k := by
  simp only [checkEffect, hk] at h
  split at h
  · omega
  · cases h

end Lowering

/-! ## What was followed -/

/-- An operation was visited with one stack and left another; the depth there and the change of the depth are as checked. -/
structure Passed (m : Method) (shares : Bool) (s : State) (depths : Array (Option Nat)) (i : Nat) (op : Operation) (before after : Stack) :
    Prop where
  here : m.code[i]? = some op
  visit : Visit m shares i before after s op
  known : s.StackKnown after
  depth : depths[i]?.join = some before.length
  effect : ∀ k, op.stackEffect = some k → (after.length : Int) = before.length + k

/-- Control was followed straight on from an operation with a stack: to which operation, what stack that left, and where control goes. -/
inductive Followed (m : Method) (shares : Bool) (s : State) (depths : Array (Option Nat)) (origin : Nat) (final : Stack)
    (targets : List Nat) : Nat → Stack → Prop where
  /-- Behind the last operation. -/
  | fallen (none : targets = []) (behind : m.code.length ≤ origin) : Followed m shares s depths origin final targets origin final
  | ended {op : Operation} {before : Stack} (passed : Passed m shares s depths origin op before final)
      (exits : Lowering.exits m origin op = .ok (some targets)) : Followed m shares s depths origin final targets origin before
  | straight {i : Nat} {op : Operation} {before after : Stack} (passed : Passed m shares s depths i op before after)
      (exits : Lowering.exits m i op = .ok none) (rest : Followed m shares s depths origin final targets (i + 1) after) :
      Followed m shares s depths origin final targets i before

variable {m : Method} {shares : Bool} {s s' : State} {depths depths' : Array (Option Nat)} {i : Nat} {op : Operation}
  {before after : Stack}

theorem Passed.mono (h : Passed m shares s depths i op before after) (he : s.Extends s') (hc : s.Coherent m) (hc' : s'.Coherent m)
    (hd : Lowering.DepthsKeep depths depths') : Passed m shares s' depths' i op before after :=
  ⟨h.here, h.visit.mono he hc hc' h.known, he.stackKnown h.known, hd.2 _ _ h.depth, h.effect⟩

theorem Followed.mono {origin : Nat} {final : Stack} {targets : List Nat} (h : Followed m shares s depths origin final targets i before)
    (he : s.Extends s') (hc : s.Coherent m) (hc' : s'.Coherent m) (hd : Lowering.DepthsKeep depths depths') :
    Followed m shares s' depths' origin final targets i before := by
  induction h with
  | fallen none behind => exact .fallen none behind
  | ended passed exits => exact .ended (passed.mono he hc hc' hd) exits
  | straight passed exits _ ih => exact .straight (passed.mono he hc hc' hd) exits ih

/-! ## Walks -/

/-- What a state and every place that control is sent to with a stack keep to while a method is visited. If operands are not to be shared,
it rules out that a visit finds other operands than the first one did. -/
structure Guide (m : Method) (shares : Bool) where
  /-- The state is sound. -/
  sound : State → Prop
  /-- Control may come to an operation with a stack. -/
  admits : State → Nat → Stack → Prop
  withStack : ∀ {s : State} (stack : Stack), sound s → sound (s.withStack stack)
  mono : ∀ {s s' : State} {i : Nat} {stack : Stack}, admits s i stack → s.Extends s' → s.Coherent m → s'.Coherent m →
    s.StackKnown stack → admits s' i stack
  alike : ∀ {s : State} {i : Nat} {op : Operation}, s.Coherent m → sound s → admits s i s.stack → m.code[i]? = some op →
    shares = false → s.Exclusive ∧ ∀ xs rest, popOperands op.takes.reverse s.stack = some (xs.reverse, rest) →
      ∀ first, (s.frame i).rows.head? = some first → op.row xs = first
  visit : ∀ {s s' : State} {i : Nat} {op : Operation}, s.Coherent m → s.StackKnown s.stack → sound s → admits s i s.stack →
    m.code[i]? = some op → Lowering.Yields (Lowering.lowerOperation m i op) s ⟨⟩ s' → Changes m shares s s' →
    s'.StackKnown s'.stack → Visit m shares i s.stack s'.stack s' op →
    sound s' ∧ ∀ j, m.Leads i op j → admits s' j s'.stack

/-- Where operands may be shared, nothing is asked for. -/
def Guide.free (m : Method) : Guide m true where
  sound _ := True
  admits _ _ _ := True
  withStack _ _ := trivial
  mono _ _ _ _ _ := trivial
  alike _ _ _ _ h := by cases h
  visit _ _ _ _ _ _ _ _ _ := ⟨trivial, fun _ _ => trivial⟩

/-- What holds of a state in which control is with a stack. -/
structure Guide.Holds (g : Guide m shares) (s : State) (i : Nat) (stack : Stack) : Prop where
  coherent : s.Coherent m
  sound : g.sound s
  known : s.StackKnown stack
  admits : g.admits s i stack

namespace Lowering

/-- One more operation of a walk. -/
theorem passed_of_visit {g : Guide m shares} (h : Yields (lowerOperation m i op) s ⟨⟩ s') (hg : g.Holds s i s.stack)
    (here : m.code[i]? = some op) (hd : checkDepth depths i s.stack.length = .ok depths') (hsize : depths.size = m.code.length)
    (hf : checkEffect i op s.stack.length s'.stack.length = .ok ()) :
    Changes m shares s s' ∧ DepthsKeep depths depths' ∧ Passed m shares s' depths' i op s.stack s'.stack ∧ g.sound s' ∧
      ∀ j, m.Leads i op j → g.Holds s' j s'.stack := by
  obtain ⟨hch, hk, hv⟩ := lowerOperation_spec h hg.coherent here hg.known (g.alike hg.coherent hg.sound hg.admits here)
  obtain ⟨hkeep, hdepth⟩ := checkDepth_spec hd (by rw [hsize]; exact (List.getElem?_eq_some_iff.mp here).1)
  obtain ⟨hsound, hadmits⟩ := g.visit hg.coherent hg.known hg.sound hg.admits here h hch hk hv
  exact ⟨hch, hkeep, ⟨here, hv, hk, hdepth, fun k hk => checkEffect_eq_ok hf hk⟩, hsound,
    fun j hj => ⟨hch.coherent hg.coherent, hsound, hk, hadmits j hj⟩⟩

/-- A walk follows control to where it ends or divides. -/
theorem walk_spec {g : Guide m shares} {ops : List Operation} {halt : Halt State} (h : walk m i ops s depths = .ok halt)
    (hops : m.code.drop i = ops) (hg : g.Holds s i s.stack) (hsize : depths.size = m.code.length) :
    Changes m shares s halt.state ∧ DepthsKeep depths halt.depths ∧ g.sound halt.state ∧ halt.state.StackKnown halt.state.stack ∧
      Followed m shares halt.state halt.depths halt.origin halt.state.stack halt.targets i s.stack ∧
      ∀ j ∈ halt.targets, g.admits halt.state j halt.state.stack := by
  induction ops generalizing i s depths with
  | nil =>
    simp only [walk, Except.ok.injEq] at h
    subst h
    exact ⟨.refl, .refl _, hg.sound, hg.known, .fallen rfl (List.drop_eq_nil_iff.mp hops), fun j hj => by cases hj⟩
  | cons op ops ih =>
    obtain ⟨here, hrest⟩ := Method.here_of_drop hops
    simp only [walk, bind_eq_ok] at h
    obtain ⟨mid, hd, ⟨⟨⟩, t⟩, hop, ⟨⟩, hf, e, he, h⟩ := h
    obtain ⟨hch, hkeep, hpassed, hs, hnext⟩ := passed_of_visit hop hg here hd hsize hf
    cases e with
    | some targets =>
      cases h
      exact ⟨hch, hkeep, hs, hpassed.known, .ended hpassed he, fun j hj => (hnext j ((leads_of_exits he).1 j hj)).admits⟩
    | none =>
      have hg' := hnext (i + 1) ((leads_of_straight he).mpr rfl)
      obtain ⟨hch', hkeep', hsound, hk, hfol, hadm⟩ := ih h hrest hg' (hkeep.1.trans hsize)
      have hc' := hch'.coherent hg'.coherent
      exact ⟨hch.trans hch', hkeep.trans hkeep', hsound, hk,
        .straight (hpassed.mono (hch'.extends hg'.coherent) hg'.coherent hc' hkeep') he hfol, hadm⟩

end Lowering
end ThreeAddress
