import ThreeAddress.Proofs.Semantics.Meaning

/-!
# Values with other operands

How the ways to replace the operands of a value fit together: `map` replaces them outright, `mapM` by steps.
-/

namespace ThreeAddress

variable {α β γ : Type}

/-- A value with every operand replaced. -/
def Rvalue.map (f : α → β) : Rvalue α → Rvalue β
  | .immediate i => .immediate i
  | .expr e => .expr (e.map f)
  | .ref r => .ref (r.map f)

theorem Rvalue.operands_map (f : α → β) (v : Rvalue α) : (v.map f).operands = v.operands.map f := by
  cases v with
  | immediate => rfl
  | expr e => exact e.operands_map f
  | ref r => exact r.operands_map f

/-- Only what replaces the operands of a value matters. -/
theorem Rvalue.map_congr {f g : α → β} {v : Rvalue α} (h : ∀ o ∈ v.operands, f o = g o) : v.map f = v.map g := by
  cases v with
  | immediate => rfl
  | expr e => exact congrArg Rvalue.expr (Expr.map_congr h)
  | ref r => exact congrArg Rvalue.ref (Ref.map_congr h)

/-! ## Replacing twice -/

section
variable (f : α → β) (g : β → γ)

theorem Invoke.map_map (c : Invoke α) : (c.map f).map g = c.map fun a => g (f a) := by
  cases c <;> simp [Invoke.map]

theorem Expr.map_map (e : Expr α) : (e.map f).map g = e.map fun a => g (f a) := by
  cases e <;> simp [Expr.map, Invoke.map_map]

theorem Ref.map_map (r : Ref α) : (r.map f).map g = r.map fun a => g (f a) := by
  cases r <;> simp [Ref.map]

theorem Rvalue.map_map (v : Rvalue α) : (v.map f).map g = v.map fun a => g (f a) := by
  cases v <;> simp [Rvalue.map, Expr.map_map, Ref.map_map]

end

/-! ## What there is besides operands -/

/-- A call is its operands and what is left without them. -/
theorem Invoke.ext_operands {c d : Invoke α} (rest : (c.map fun _ => ()) = d.map fun _ => ()) (operands : c.operands = d.operands) :
    c = d := by
  cases c <;> cases d <;> simp_all [Invoke.map, Invoke.operands]

theorem Expr.ext_operands {e e' : Expr α} (rest : (e.map fun _ => ()) = e'.map fun _ => ()) (operands : e.operands = e'.operands) :
    e = e' := by
  cases e <;> cases e'
  case invoke.invoke => exact congrArg Expr.invoke (Invoke.ext_operands (Expr.invoke.inj rest) operands)
  all_goals simp_all [Expr.map, Expr.operands]

theorem Ref.ext_operands {r r' : Ref α} (rest : (r.map fun _ => ()) = r'.map fun _ => ()) (operands : r.operands = r'.operands) :
    r = r' := by
  cases r <;> cases r' <;> simp_all [Ref.map, Ref.operands]

theorem Rvalue.ext_operands {v w : Rvalue α} (rest : (v.map fun _ => ()) = w.map fun _ => ()) (operands : v.operands = w.operands) :
    v = w := by
  cases v <;> cases w
  case expr.expr => exact congrArg Rvalue.expr (Expr.ext_operands (Rvalue.expr.inj rest) operands)
  case ref.ref => exact congrArg Rvalue.ref (Ref.ext_operands (Rvalue.ref.inj rest) operands)
  all_goals simp_all [Rvalue.map]

/-! ## Replacing by steps -/

section
variable {m : Type → Type} [Monad m] [LawfulMonad m] (f : α → β)

theorem Invoke.mapM_pure (c : Invoke α) : c.mapM (fun a => (pure (f a) : m β)) = pure (c.map f) := by
  cases c <;> simp [Invoke.mapM, Invoke.map]

theorem Expr.mapM_pure (e : Expr α) : e.mapM (fun a => (pure (f a) : m β)) = pure (e.map f) := by
  cases e <;> simp [Expr.mapM, Expr.map, Invoke.mapM_pure]

theorem Ref.mapM_pure (r : Ref α) : r.mapM (fun a => (pure (f a) : m β)) = pure (r.map f) := by
  cases r <;> simp [Ref.mapM, Ref.map]

/-- Steps that do nothing but give a result replace outright. -/
theorem Rvalue.mapM_pure (v : Rvalue α) : v.mapM (fun a => (pure (f a) : m β)) = pure (v.map f) := by
  cases v <;> simp [Rvalue.mapM, Rvalue.map, Expr.mapM_pure, Ref.mapM_pure]

variable (g : β → m γ)

theorem Invoke.mapM_map (c : Invoke α) : (c.map f).mapM g = c.mapM fun a => g (f a) := by
  cases c <;> simp [Invoke.mapM, Invoke.map, List.mapM_map, Function.comp_def]

theorem Expr.mapM_map (e : Expr α) : (e.map f).mapM g = e.mapM fun a => g (f a) := by
  cases e <;> simp [Expr.mapM, Expr.map, Invoke.mapM_map, List.mapM_map, Function.comp_def]

theorem Ref.mapM_map (r : Ref α) : (r.map f).mapM g = r.mapM fun a => g (f a) := by
  cases r <;> simp [Ref.mapM, Ref.map]

/-- Operands may be replaced outright before they are replaced by steps. -/
theorem Rvalue.mapM_map (v : Rvalue α) : (v.map f).mapM g = v.mapM fun a => g (f a) := by
  cases v <;> simp [Rvalue.mapM, Rvalue.map, Expr.mapM_map, Ref.mapM_map]

end

section
variable {m : Type → Type} [Monad m] [LawfulMonad m] (f : α → m β) (g : β → γ)

theorem map_mapM (as : List α) : List.map g <$> as.mapM f = as.mapM fun a => g <$> f a := by
  induction as with
  | nil => simp
  | cons a as ih => simp [← ih]

theorem Invoke.map_mapM (c : Invoke α) : Invoke.map g <$> c.mapM f = c.mapM fun a => g <$> f a := by
  cases c <;> simp [Invoke.mapM, Invoke.map, ← ThreeAddress.map_mapM]

theorem Expr.map_mapM (e : Expr α) : Expr.map g <$> e.mapM f = e.mapM fun a => g <$> f a := by
  cases e <;> simp [Expr.mapM, Expr.map, ← Invoke.map_mapM, ← ThreeAddress.map_mapM]

theorem Ref.map_mapM (r : Ref α) : Ref.map g <$> r.mapM f = r.mapM fun a => g <$> f a := by
  cases r <;> simp [Ref.mapM, Ref.map]

/-- Operands may be replaced outright after they were replaced by steps. -/
theorem Rvalue.map_mapM (v : Rvalue α) : Rvalue.map g <$> v.mapM f = v.mapM fun a => g <$> f a := by
  cases v <;> simp [Rvalue.mapM, Rvalue.map, ← Expr.map_mapM, ← Ref.map_mapM]

end

/-- Replacing by steps that succeed is replacing outright, as far as both agree. -/
theorem Rvalue.map_eq_of_mapM {ε : Type} {f : α → Except ε β} {g : β → γ} {h : α → γ} (hf : ∀ a b, f a = .ok b → g b = h a) {v : Rvalue α}
    {w : Rvalue β} (hm : v.mapM f = .ok w) : w.map g = v.map h := by
  cases v with
  | immediate i =>
    obtain rfl := pure_eq_ok.mp hm
    rfl
  | expr e =>
    obtain ⟨d, hd, hw⟩ := bind_eq_ok.mp hm
    obtain rfl := pure_eq_ok.mp hw
    exact congrArg Rvalue.expr (Expr.map_eq_of_mapM hf hd)
  | ref r =>
    obtain ⟨d, hd, hw⟩ := bind_eq_ok.mp hm
    obtain rfl := pure_eq_ok.mp hw
    exact congrArg Rvalue.ref (Ref.map_eq_of_mapM hf hd)

/-! ## Shapes -/

theorem Rvalue.shape_eq (v : Rvalue α) : v.shape = v.map fun _ => () :=
  v.mapM_pure (m := Id) fun _ => ()

theorem Rvalue.shape_map (f : α → β) (v : Rvalue α) : (v.map f).shape = v.shape := by
  rw [shape_eq, shape_eq, map_map]

end ThreeAddress
