import Mathlib.Data.List.Forall2

/-!
# Results that may fail

How a success of steps that may fail is taken apart: a success of one step after another, and of one step for each element of a list.
`Together` compares two steps that may fail, `Accord` also compares how they fail.
-/

namespace ThreeAddress

variable {ε α β γ : Type}

theorem bind_eq_ok {x : Except ε α} {f : α → Except ε β} {b : β} : (x >>= f) = .ok b ↔ ∃ a, x = .ok a ∧ f a = .ok b := by
  cases x with
  | error e => exact iff_of_false (fun h => by cases h) (by simp)
  | ok a =>
    constructor
    · intro h
      exact ⟨a, rfl, h⟩
    · rintro ⟨a', ha, h⟩
      cases ha
      exact h

theorem pure_eq_ok {a b : α} : (pure a : Except ε α) = .ok b ↔ a = b := by
  simp [pure, Except.pure]

theorem map_eq_ok {x : Except ε α} {f : α → β} {b : β} : f <$> x = .ok b ↔ ∃ a, x = .ok a ∧ f a = b := by
  cases x <;> simp [Functor.map, Except.map]

theorem bind_eq_error {x : Except ε α} {f : α → Except ε β} {e : ε} :
    (x >>= f) = .error e ↔ x = .error e ∨ ∃ a, x = .ok a ∧ f a = .error e := by
  cases x with
  | error e' =>
    constructor
    · intro h
      cases h
      exact Or.inl rfl
    · rintro (h | ⟨a, ha, -⟩)
      · cases h
        rfl
      · cases ha
  | ok a =>
    constructor
    · intro h
      exact Or.inr ⟨a, rfl, h⟩
    · rintro (h | ⟨a', ha, h⟩)
      · cases h
      · cases ha
        exact h

theorem pure_ne_error {a : α} {e : ε} : (pure a : Except ε α) ≠ .error e := by
  simp [pure, Except.pure]

/-- What is said to have succeeded gives something. -/
theorem exists_ok_of_isOk {x : Except ε α} (h : x.isOk) : ∃ a, x = .ok a := by
  cases x with
  | error e => cases h
  | ok a => exact ⟨a, rfl⟩

/-- A step for each element of a list fails where it does for one of them. -/
theorem error_of_mapM {f : α → Except ε β} {as : List α} {e : ε} (h : as.mapM f = .error e) : ∃ a ∈ as, f a = .error e := by
  induction as with
  | nil => exact absurd h pure_ne_error
  | cons a as ih =>
    simp only [List.mapM_cons, bind_eq_error, pure_ne_error, and_false, exists_false, or_false] at h
    rcases h with h | ⟨b, -, h⟩
    · exact ⟨a, by simp, h⟩
    · obtain ⟨a', ha', h⟩ := ih h
      exact ⟨a', by simp [ha'], h⟩

/-- What each of the steps for the elements of a list keeps is kept by all of them together. -/
theorem run_mapM_keeps {σ : Type} {P : σ → Prop} {f : α → StateT σ (Except ε) β} {as : List α} {bs : List β} {s s' : σ}
    (h : (as.mapM f).run s = .ok (bs, s')) (hs : P s) (step : ∀ a ∈ as, ∀ s b s', (f a).run s = .ok (b, s') → P s → P s') : P s' := by
  induction as generalizing s bs with
  | nil =>
    obtain ⟨-, rfl⟩ := Prod.mk.inj (pure_eq_ok.mp h)
    exact hs
  | cons a as ih =>
    rw [List.mapM_cons, StateT.run_bind] at h
    obtain ⟨⟨b, t⟩, hone, h⟩ := bind_eq_ok.mp h
    obtain ⟨⟨rest, t'⟩, hrest, h⟩ := bind_eq_ok.mp h
    obtain ⟨-, rfl⟩ := Prod.mk.inj (pure_eq_ok.mp h)
    exact ih hrest (step a List.mem_cons_self s b t hone hs) fun a' ha' => step a' (List.mem_cons_of_mem a ha')

/-- Steps that count nothing and leave the state as it is do so one after the other. -/
theorem run_count_of_idle {σ : Type} {f : α → StateT σ (Except ε) Nat} {as : List α} {s : σ} (h : ∀ a ∈ as, (f a).run s = .ok (0, s)) :
    StateT.run (do return (← as.mapM f).foldr (· + ·) 0) s = .ok (0, s) := by
  have all : (as.mapM f).run s = .ok (as.map fun _ => 0, s) := by
    induction as with
    | nil => rfl
    | cons a as ih =>
      have rest := ih fun a' ha' => h a' (List.mem_cons_of_mem a ha')
      rw [List.mapM_cons, StateT.run_bind]
      refine bind_eq_ok.mpr ⟨_, h a List.mem_cons_self, ?_⟩
      rw [StateT.run_bind]
      exact bind_eq_ok.mpr ⟨_, rest, rfl⟩
  have none_counted : (as.map fun _ => 0).foldr (· + ·) 0 = 0 := by
    rw [List.foldr_map]
    exact List.foldr_fixed' (fun _ => rfl) as
  rw [StateT.run_bind]
  exact bind_eq_ok.mpr ⟨_, all, by rw [none_counted]; rfl⟩

/-- What is related to the elements of a list, one by one, is related to one of them each. -/
theorem exists_of_forall₂ {R : α → β → Prop} {as : List α} {bs : List β} {b : β} (h : List.Forall₂ R as bs) (hb : b ∈ bs) :
    ∃ a ∈ as, R a b := by
  induction h with
  | nil => cases hb
  | cons hr _ ih =>
    rcases List.mem_cons.mp hb with rfl | hb
    · exact ⟨_, List.mem_cons_self, hr⟩
    · obtain ⟨a, ha, hr⟩ := ih hb
      exact ⟨a, List.mem_cons_of_mem _ ha, hr⟩

/-- Lists are related in another way if those of their elements are that are related. -/
theorem forall₂_of_mem {R S : α → β → Prop} {as : List α} {bs : List β} (h : List.Forall₂ R as bs)
    (hs : ∀ a ∈ as, ∀ b ∈ bs, R a b → S a b) : List.Forall₂ S as bs := by
  induction h with
  | nil => exact .nil
  | cons hr _ ih =>
    refine .cons (hs _ List.mem_cons_self _ List.mem_cons_self hr) (ih fun a ha b hb => ?_)
    exact hs a (List.mem_cons_of_mem _ ha) b (List.mem_cons_of_mem _ hb)

/-- A step for each element of a list succeeds if it does for each of them. -/
theorem mapM_eq_ok {f : α → Except ε β} {as : List α} {bs : List β} :
    as.mapM f = .ok bs ↔ List.Forall₂ (fun a b => f a = .ok b) as bs := by
  induction as generalizing bs with
  | nil => rw [List.mapM_nil, pure_eq_ok, List.forall₂_nil_left_iff, eq_comm]
  | cons a as ih =>
    simp only [List.mapM_cons, bind_eq_ok, pure_eq_ok, List.forall₂_cons_left_iff]
    constructor
    · rintro ⟨b, hb, rest, hr, rfl⟩
      exact ⟨b, rest, hb, ih.mp hr, rfl⟩
    · rintro ⟨b, rest, hb, hr, rfl⟩
      exact ⟨b, hb, rest, ih.mpr hr, rfl⟩

/-- What `mapM` gives for a list is what `map` gives, as long as both agree where the first succeeds. -/
theorem map_eq_of_mapM {f : α → Except ε β} {as : List α} {bs : List β} {g : β → γ} {h : α → γ} (hm : as.mapM f = .ok bs)
    (hf : ∀ a b, f a = .ok b → g b = h a) : bs.map g = as.map h := by
  have hall := mapM_eq_ok.mp hm
  clear hm
  induction hall with
  | nil => rfl
  | cons hb _ ih => rw [List.map_cons, List.map_cons, hf _ _ hb, ih]

/-! ## Two results -/

/-- Both succeed, with related results, or both fail. -/
def Together {ε' : Type} (R : α → β → Prop) : Except ε α → Except ε' β → Prop
  | .ok a, .ok b => R a b
  | .error _, .error _ => True
  | _, _ => False

namespace Together

variable {ε' δ : Type} {R : α → β → Prop} {x : Except ε α} {y : Except ε' β}

theorem refl (x : Except ε α) : Together Eq x x := by
  cases x with
  | error => exact trivial
  | ok => exact rfl

theorem mono {R' : α → β → Prop} (h : Together R x y) (hr : ∀ a b, R a b → R' a b) : Together R' x y := by
  cases x with
  | error => cases y <;> exact h
  | ok a =>
    cases y with
    | error => exact h
    | ok b => exact hr a b h

/-- What is related are the results. -/
theorem with_ok (h : Together R x y) : Together (fun a b => x = .ok a ∧ R a b) x y := by
  cases x with
  | error => cases y <;> exact h
  | ok a =>
    cases y with
    | error => exact h
    | ok b => exact ⟨rfl, h⟩

theorem bind {S : γ → δ → Prop} {f : α → Except ε γ} {g : β → Except ε' δ} (h : Together R x y)
    (hf : ∀ a b, R a b → Together S (f a) (g b)) : Together S (x >>= f) (y >>= g) := by
  cases x with
  | error =>
    cases y with
    | error => exact trivial
    | ok => exact h.elim
  | ok a =>
    cases y with
    | error => exact h.elim
    | ok b => exact hf a b h

theorem bind_eq {S : γ → δ → Prop} {y : Except ε' α} {f : α → Except ε γ} {g : α → Except ε' δ} (h : Together Eq x y)
    (hf : ∀ a, Together S (f a) (g a)) : Together S (x >>= f) (y >>= g) :=
  h.bind fun a _ hab => hab ▸ hf a

theorem mapError {ε₁ ε₂ : Type} (h : Together R x y) (f : ε → ε₁) (g : ε' → ε₂) : Together R (x.mapError f) (y.mapError g) := by
  cases x <;> cases y <;> exact h

/-- A step for each element of a list. -/
theorem mapM {P : γ → δ → Prop} {f : γ → Except ε α} {g : δ → Except ε' β} {cs : List γ} {ds : List δ} (h : List.Forall₂ P cs ds)
    (hf : ∀ c d, P c d → Together R (f c) (g d)) : Together (List.Forall₂ R) (cs.mapM f) (ds.mapM g) := by
  induction h with
  | nil => exact List.Forall₂.nil
  | cons hp _ ih =>
    rw [List.mapM_cons, List.mapM_cons]
    exact (hf _ _ hp).bind fun a b hab => ih.bind fun as bs hall => List.Forall₂.cons hab hall

/-- A step for each element of one list, with the results of the second given by those of the first. -/
theorem mapM_map {f : γ → Except ε α} {f' : γ → Except ε' β} {g : α → β} {cs : List γ}
    (hf : ∀ c, Together (fun a b => b = g a) (f c) (f' c)) : Together (fun as bs => bs = as.map g) (cs.mapM f) (cs.mapM f') := by
  have hsame : List.Forall₂ Eq cs cs := List.forall₂_same.mpr fun _ _ => rfl
  have hall : Together (List.Forall₂ fun a b => b = g a) (cs.mapM f) (cs.mapM f') := by
    refine mapM hsame fun c c' hc => ?_
    subst hc
    exact hf c
  refine hall.mono fun as bs hab => ?_
  induction hab with
  | nil => rfl
  | cons hb _ ih => rw [hb, ih, List.map_cons]

/-- A step for each element of one list, with the same results. -/
theorem mapM_eq {f : γ → Except ε α} {f' : γ → Except ε' α} {cs : List γ} (hf : ∀ c, Together Eq (f c) (f' c)) :
    Together Eq (cs.mapM f) (cs.mapM f') := by
  refine (mapM_map (g := id) fun c => (hf c).mono fun a b hab => hab.symm).mono fun as bs hab => ?_
  rw [hab, List.map_id]

/-- Steps one after the other for the elements of a list. -/
theorem foldlM {P : γ → δ → Prop} {f : α → γ → Except ε α} {g : β → δ → Except ε' β} {cs : List γ} {ds : List δ} (h : List.Forall₂ P cs ds)
    (hf : ∀ a b c d, R a b → P c d → Together R (f a c) (g b d)) {a : α} {b : β} (hab : R a b) :
    Together R (cs.foldlM f a) (ds.foldlM g b) := by
  induction h generalizing a b with
  | nil => exact hab
  | cons hp _ ih =>
    rw [List.foldlM_cons, List.foldlM_cons]
    exact (hf a b _ _ hab hp).bind fun a' b' hab' => ih hab'

end Together

/-- Both succeed, with related results, or both fail in the same way. -/
def Accord (R : α → β → Prop) : Except ε α → Except ε β → Prop
  | .ok a, .ok b => R a b
  | .error e, .error e' => e = e'
  | _, _ => False

namespace Accord

variable {δ : Type} {R : α → β → Prop} {x : Except ε α} {y : Except ε β}

theorem refl {R : α → α → Prop} (x : Except ε α) (h : ∀ a, x = .ok a → R a a) : Accord R x x := by
  cases x with
  | error => exact rfl
  | ok a => exact h a rfl

theorem mono {R' : α → β → Prop} (h : Accord R x y) (hr : ∀ a b, R a b → R' a b) : Accord R' x y := by
  cases x with
  | error => cases y <;> exact h
  | ok a =>
    cases y with
    | error => exact h
    | ok b => exact hr a b h

/-- What is related are the results. -/
theorem with_ok (h : Accord R x y) : Accord (fun a b => x = .ok a ∧ y = .ok b ∧ R a b) x y := by
  cases x with
  | error => cases y <;> exact h
  | ok a =>
    cases y with
    | error => exact h
    | ok b => exact ⟨rfl, rfl, h⟩

/-- A success of the first is one of the second. -/
theorem exists_ok {a : α} (h : Accord R x y) (hx : x = .ok a) : ∃ b, y = .ok b ∧ R a b := by
  cases y with
  | error e =>
    rw [hx] at h
    exact h.elim
  | ok b =>
    rw [hx] at h
    exact ⟨b, rfl, h⟩

/-- A success of the second is one of the first. -/
theorem exists_ok_left {b : β} (h : Accord R x y) (hy : y = .ok b) : ∃ a, x = .ok a ∧ R a b := by
  cases x with
  | error e =>
    rw [hy] at h
    exact h.elim
  | ok a =>
    rw [hy] at h
    exact ⟨a, rfl, h⟩

theorem bind {S : γ → δ → Prop} {f : α → Except ε γ} {g : β → Except ε δ} (h : Accord R x y)
    (hf : ∀ a b, R a b → Accord S (f a) (g b)) : Accord S (x >>= f) (y >>= g) := by
  cases x with
  | error =>
    cases y with
    | error => exact h
    | ok => exact h.elim
  | ok a =>
    cases y with
    | error => exact h.elim
    | ok b => exact hf a b h

/-- The same step first. -/
theorem bind_same {α β γ : Type} {S : β → γ → Prop} {x : Except ε α} {f : α → Except ε β} {g : α → Except ε γ}
    (hf : ∀ a, x = .ok a → Accord S (f a) (g a)) : Accord S (x >>= f) (x >>= g) :=
  (Accord.refl (R := fun a b => a = b ∧ x = .ok a) x fun _ ha => ⟨rfl, ha⟩).bind fun a _ ⟨hab, ha⟩ => hab ▸ hf a ha

/-- Steps one after the other for the elements of a list. -/
theorem foldlM {f : α → γ → Except ε α} {g : β → γ → Except ε β} {cs : List γ}
    (hf : ∀ a b, ∀ c ∈ cs, R a b → Accord R (f a c) (g b c)) {a : α} {b : β} (hab : R a b) : Accord R (cs.foldlM f a) (cs.foldlM g b) := by
  induction cs generalizing a b with
  | nil => exact hab
  | cons c cs ih =>
    rw [List.foldlM_cons, List.foldlM_cons]
    exact (hf a b c List.mem_cons_self hab).bind fun a' b' hab' => ih (fun a b c hc => hf a b c (List.mem_cons_of_mem _ hc)) hab'

end Accord
end ThreeAddress
