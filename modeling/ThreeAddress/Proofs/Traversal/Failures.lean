import ThreeAddress.Proofs.Lowering.Rejections
import ThreeAddress.Proofs.Traversal.Reached

/-!
# Why visiting a method fails

At the outset a method fails for a label that it refers to and that does not occur in its code, and for nothing else. If there is no
such label, then a task that is followed fails for what the method does alone.
-/

namespace ThreeAddress

open State

variable {m : Method} {s : State} {depths : Array (Option Nat)} {i : Nat} {op : Operation} {f : Fault} {test : EdgeTest}
  {t : Traversal State}

namespace Lowering

theorem checkDepth_eq_error {d : Nat} (h : checkDepth depths i d = .error f) : f = .inconsistentMerge i := by
  unfold checkDepth at h
  split at h
  · cases h
  · split at h
    · cases h
    · cases h
      rfl

theorem blamesMethod_of_checkEffect {before after : Nat} (h : checkEffect i op before after = .error f) : f.blamesMethod := by
  unfold checkEffect at h
  split at h
  · cases h
  · dsimp only at h
    split at h
    · cases h
    · cases h
      rfl

/-- Every label that is referred to can be looked up. -/
theorem exists_labelIndex {l : Label} (h : (m.labelIndex? l).isSome) : ∃ i, labelIndex m l = .ok i := by
  obtain ⟨i, hi⟩ := Option.isSome_iff_exists.mp h
  exact ⟨i, labelIndex_eq_ok.mpr hi⟩

/-- The targets of an operation can be looked up. -/
theorem exits_ne_error (hl : ∀ l ∈ m.referredLabels, (m.labelIndex? l).isSome) (here : m.code[i]? = some op) :
    exits m i op ≠ .error f := by
  have lookup : ∀ {l : Label}, l ∈ op.jumpTargets → labelIndex m l ≠ .error f := by
    intro l hmem h
    obtain ⟨j, hj⟩ := exists_labelIndex (hl l (Method.mem_referredLabels_of_mem_labels here (op.jumpTargets_eq ▸ hmem)))
    rw [hj] at h
    cases h
  intro h
  cases op with
  | branch kind operands way target | jump target =>
    simp only [exits, bind_eq_error, pure_ne_error, and_false, exists_false, or_false] at h
    exact lookup (by simp [Operation.jumpTargets]) h
  | «switch» default cases =>
    simp only [exits, bind_eq_error, pure_ne_error, and_false, exists_false, or_false] at h
    rcases h with h | ⟨d, -, h⟩
    · exact lookup (by simp [Operation.jumpTargets]) h
    · obtain ⟨l, hmem, h⟩ := error_of_mapM h
      exact lookup (by simp [Operation.jumpTargets, hmem]) h
  | _ => cases h

/-- A walk fails at one operation: the depth there is fixed otherwise, the operation cannot be lowered, or it changes the depth otherwise
than it must. -/
theorem error_of_walk {ops : List Operation} (hl : ∀ l ∈ m.referredLabels, (m.labelIndex? l).isSome)
    (h : walk m i ops s depths = .error f) (hops : m.code.drop i = ops) (hg : (Guide.free m).Holds s i s.stack)
    (hsize : depths.size = m.code.length) : ∃ j op t, (Guide.free m).Holds t j t.stack ∧ m.code[j]? = some op ∧
      (f = .inconsistentMerge j ∨ (lowerOperation m j op).run t = .error f ∨
        ∃ t', Yields (lowerOperation m j op) t ⟨⟩ t' ∧ checkEffect j op t.stack.length t'.stack.length = .error f) := by
  induction ops generalizing i s depths with
  | nil => cases h
  | cons op ops ih =>
    obtain ⟨here, hrest⟩ := Method.here_of_drop hops
    simp only [walk, bind_eq_error] at h
    rcases h with hd | ⟨mid, hd, h⟩
    · exact ⟨i, op, s, hg, here, Or.inl (checkDepth_eq_error hd)⟩
    · rcases h with hop | ⟨⟨⟨⟩, t⟩, hop, h⟩
      · exact ⟨i, op, s, hg, here, Or.inr (Or.inl hop)⟩
      · rcases h with hf | ⟨⟨⟩, hf, h⟩
        · exact ⟨i, op, s, hg, here, Or.inr (Or.inr ⟨t, hop, hf⟩)⟩
        · rcases h with he | ⟨e, he, h⟩
          · exact absurd he (exits_ne_error hl here)
          · obtain ⟨-, hkeep, -, -, hnext⟩ := passed_of_visit hop hg here hd hsize hf
            cases e with
            | some targets => exact absurd h pure_ne_error
            | none => exact ih h hrest (hnext _ ((leads_of_straight he).mpr rfl)) (hkeep.1.trans hsize)

/-- A walk fails for a fault of the method alone. -/
theorem blamesMethod_of_walk {ops : List Operation} (hl : ∀ l ∈ m.referredLabels, (m.labelIndex? l).isSome)
    (h : walk m i ops s depths = .error f) (hops : m.code.drop i = ops) (hg : (Guide.free m).Holds s i s.stack)
    (hsize : depths.size = m.code.length) : f.blamesMethod := by
  obtain ⟨j, op, t, hgt, here, rfl | hop | ⟨t', -, hf⟩⟩ := error_of_walk hl h hops hg hsize
  · rfl
  · exact (failsBy_lowerOperation hgt.coherent here hgt.known f hop).blamesMethod
  · exact blamesMethod_of_checkEffect hf

theorem failsBy_lift {α : Type} {P : Fault → Prop} {x : Except Fault α} (h : ∀ f, x ≠ .error f) : FailsBy P (monadLift x) s := by
  intro f hf
  cases x with
  | error e => exact absurd rfl (h e)
  | ok a => cases hf

theorem labelIndex_ne_error {l : Label} (h : (m.labelIndex? l).isSome) : labelIndex m l ≠ .error f := by
  obtain ⟨i, hi⟩ := exists_labelIndex h
  rw [hi]
  simp

/-- The labels of handlers can be looked up. -/
theorem failsBy_addHandlerEntries {P : Fault → Prop} (hl : ∀ l ∈ m.handlerLabels, (m.labelIndex? l).isSome) :
    FailsBy P (addHandlerEntries m) s := by
  refine failsBy_bind (failsBy_mapM (Q := fun _ => True) trivial fun l hmem t _ => ⟨?_, fun _ _ _ => trivial⟩) fun _ _ _ => failsBy_pure
  refine failsBy_bind (failsBy_lift fun _ => labelIndex_ne_error (hl l hmem)) fun i t' _ => ?_
  refine failsBy_get_bind (failsBy_ite (fun _ => ?_) fun _ => failsBy_pure)
  exact failsBy_bind failsBy_modifyGet fun _ _ _ => failsBy_bind failsBy_modifyGet fun _ _ _ => failsBy_bind failsBy_modify fun _ _ _ =>
    failsBy_pure

end Lowering

namespace Traversal

open Lowering

/-- A stack is refused by an edge on which another one is on its way, if that is looked at first. -/
theorem offer_eq_error {key : Nat × Nat} (h : t.offer test key = .error f) : test = .pendingFirst ∧ f = .inconsistentMerge key.2 := by
  have unlessSent : ∀ {e : Edge} {stack : Stack}, e.unlessSent stack ≠ .conflict := by
    intro e stack
    unfold Edge.unlessSent
    split <;> simp
  simp only [offer] at h
  split at h
  · cases h
  · cases h
  · rename_i hv
    cases h
    refine ⟨?_, rfl⟩
    cases test with
    | pendingFirst => rfl
    | historyOnly =>
      split at hv
      · cases hv
      · exact absurd hv unlessSent

/-- One of several edges refuses the stack. -/
theorem offers_eq_error {origin : Nat} {targets : List Nat} (h : targets.foldlM (fun t j => t.offer test (origin, j)) t = .error f) :
    test = .pendingFirst ∧ ∃ j ∈ targets, f = .inconsistentMerge j := by
  induction targets generalizing t with
  | nil => exact absurd h pure_ne_error
  | cons j targets ih =>
    simp only [List.foldlM_cons, bind_eq_error] at h
    rcases h with h | ⟨mid, -, h⟩
    · obtain ⟨htest, hf⟩ := offer_eq_error h
      exact ⟨htest, j, List.mem_cons_self, hf⟩
    · obtain ⟨htest, k, hk, hf⟩ := ih h
      exact ⟨htest, k, List.mem_cons_of_mem _ hk, hf⟩

/-- Following a task fails for a fault of the method alone. -/
theorem blamesMethod_of_follow {task : Task} {rest : List Task} (hl : ∀ l ∈ m.referredLabels, (m.labelIndex? l).isSome)
    (h : follow test m { t with tasks := rest } task = .error f) (htasks : t.tasks = task :: rest)
    (hx : t.Explored (Guide.free m) fun _ _ => False) : f.blamesMethod := by
  simp only [follow, bind_eq_error] at h
  rcases h with h | ⟨halt, -, h⟩
  · rw [arrive_tasks] at h
    obtain ⟨hg, -⟩ := hx.begin htasks
    exact blamesMethod_of_walk hl h rfl hg hx.size
  · obtain ⟨-, j, -, rfl⟩ := offers_eq_error h
    rfl

/-- Everything is done at the outset if all labels that are referred to can be looked up. -/
theorem start_ne_error (hl : ∀ l ∈ m.referredLabels, (m.labelIndex? l).isSome) : start (S := State) m ≠ .error f := by
  intro h
  have handlers : ∀ l ∈ m.handlerLabels, (m.labelIndex? l).isSome := fun l hmem =>
    hl l (Method.mem_referredLabels_of_mem_handlerLabels hmem)
  simp only [start, undefinedLabel?_eq_none.mpr hl] at h
  split at h
  · cases h
  · simp only [bind_eq_error] at h
    rcases h with h | ⟨⟨k, s⟩, -, h⟩
    · exact (failsBy_addHandlerEntries (P := fun _ => False) handlers f h).elim
    · rcases h with h | ⟨tasks, -, h⟩
      · obtain ⟨l, hmem, h⟩ := error_of_mapM h
        simp only [handlerTask, bind_eq_error, pure_ne_error, and_false, exists_false, or_false] at h
        exact absurd h (labelIndex_ne_error (handlers l hmem))
      · exact absurd h pure_ne_error

/-- At the outset a method fails for a label that does not occur in its code, and for nothing else. -/
theorem start_eq_error : start (S := State) m = .error f ↔ ∃ l, undefinedLabel? m = some l ∧ f = .undefinedLabel l := by
  constructor
  · intro h
    cases hu : undefinedLabel? m with
    | none => exact absurd h (start_ne_error (undefinedLabel?_eq_none.mp hu))
    | some l =>
      simp only [start, hu, Except.error.injEq] at h
      exact ⟨l, rfl, h.symm⟩
  · rintro ⟨l, hu, rfl⟩
    simp only [start, hu]

end Traversal
end ThreeAddress
