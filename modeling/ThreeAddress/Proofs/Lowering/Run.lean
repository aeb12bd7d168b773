import ThreeAddress.Lowering.Traversal
import ThreeAddress.Proofs.Results

/-!
# Steps of lowering that succeed

`Yields x s a s'` says that the step `x` succeeds from the state `s` with the result `a` and leaves `s'`. Each way to build a step has
an equivalence that takes a success apart.
-/

namespace ThreeAddress.Lowering

variable {α β : Type}

/-- A step succeeds from a state with a result, and leaves a state. -/
def Yields (x : LowerM α) (s : State) (a : α) (s' : State) : Prop :=
  x.run s = .ok (a, s')

@[simp] theorem yields_pure {s s' : State} {a b : α} : Yields (pure a) s b s' ↔ b = a ∧ s' = s := by
  rw [Yields, StateT.run_pure, pure_eq_ok, Prod.mk.injEq, @eq_comm _ a, @eq_comm _ s]

@[simp] theorem yields_bind {x : LowerM α} {f : α → LowerM β} {s s' : State} {b : β} :
    Yields (x >>= f) s b s' ↔ ∃ a t, Yields x s a t ∧ Yields (f a) t b s' := by
  simp only [Yields, StateT.run_bind]
  cases h : x.run s with
  | error e => exact iff_of_false (fun hf => by cases hf) (by simp)
  | ok p =>
    obtain ⟨a, t⟩ := p
    constructor
    · intro hf
      exact ⟨a, t, rfl, hf⟩
    · rintro ⟨a', t', heq, hf⟩
      simp only [Except.ok.injEq, Prod.mk.injEq] at heq
      obtain ⟨rfl, rfl⟩ := heq
      exact hf

@[simp] theorem yields_get {s s' a : State} : Yields get s a s' ↔ a = s ∧ s' = s := by
  rw [Yields, StateT.run_get, pure_eq_ok, Prod.mk.injEq, @eq_comm _ s a, @eq_comm _ s s']

@[simp] theorem yields_set {s s' t : State} {u : PUnit} : Yields (set t) s u s' ↔ s' = t := by
  rw [Yields, StateT.run_set, pure_eq_ok, Prod.mk.injEq, @eq_comm _ t]
  exact and_iff_right rfl

@[simp] theorem yields_modifyGet {f : State → α × State} {s s' : State} {a : α} :
    Yields (modifyGet f) s a s' ↔ a = (f s).1 ∧ s' = (f s).2 := by
  rw [Yields, StateT.run_modifyGet, pure_eq_ok, Prod.mk.injEq, @eq_comm _ (f s).1, @eq_comm _ (f s).2]

@[simp] theorem yields_modify {f : State → State} {s s' : State} {u : PUnit} : Yields (modify f) s u s' ↔ s' = f s := by
  rw [Yields, StateT.run_modify, pure_eq_ok, Prod.mk.injEq, @eq_comm _ (f s)]
  exact and_iff_right rfl

@[simp] theorem yields_fail {f : Fault} {s s' : State} {a : α} : ¬ Yields (fail f) s a s' := by
  intro h
  cases h

@[simp] theorem yields_ite {p : Prop} [Decidable p] {x y : LowerM α} {s s' : State} {a : α} :
    Yields (if p then x else y) s a s' ↔ (p ∧ Yields x s a s') ∨ (¬ p ∧ Yields y s a s') := by
  by_cases h : p <;> simp [h]

/-- A computation without a state leaves the state as it is. -/
@[simp] theorem yields_lift {x : Except Fault α} {s s' : State} {a : α} : Yields (monadLift x) s a s' ↔ x = .ok a ∧ s' = s := by
  cases x with
  | error e => exact iff_of_false (fun h => by cases h) (by simp)
  | ok b =>
    constructor
    · intro h
      cases h
      exact ⟨rfl, rfl⟩
    · rintro ⟨h, rfl⟩
      cases h
      rfl

/-! ## Steps repeated over a list -/

@[simp] theorem yields_forM_nil {f : α → LowerM PUnit} {s s' : State} {u : PUnit} : Yields ([].forM f) s u s' ↔ s' = s := by
  simp

@[simp] theorem yields_forM_cons {f : α → LowerM PUnit} {a : α} {as : List α} {s s' : State} {u : PUnit} :
    Yields ((a :: as).forM f) s u s' ↔ ∃ t, Yields (f a) s ⟨⟩ t ∧ Yields (as.forM f) t ⟨⟩ s' := by
  constructor
  · intro h
    obtain ⟨⟨⟩, t, ha, hr⟩ := yields_bind.mp h
    exact ⟨t, ha, hr⟩
  · rintro ⟨t, ha, hr⟩
    exact yields_bind.mpr ⟨⟨⟩, t, ha, hr⟩

@[simp] theorem yields_mapM_nil {f : α → LowerM β} {s s' : State} {bs : List β} :
    Yields ([].mapM f) s bs s' ↔ bs = [] ∧ s' = s := by
  simp

@[simp] theorem yields_mapM_cons {f : α → LowerM β} {a : α} {as : List α} {s s' : State} {bs : List β} :
    Yields ((a :: as).mapM f) s bs s' ↔
      ∃ b t rest, Yields (f a) s b t ∧ Yields (as.mapM f) t rest s' ∧ bs = b :: rest := by
  simp only [List.mapM_cons, yields_bind, yields_pure]
  constructor
  · rintro ⟨b, t, hb, rest, t', hr, rfl, rfl⟩
    exact ⟨b, t, rest, hb, hr, rfl⟩
  · rintro ⟨b, t, rest, hb, hr, rfl⟩
    exact ⟨b, t, hb, rest, s', hr, rfl, rfl⟩

end ThreeAddress.Lowering
