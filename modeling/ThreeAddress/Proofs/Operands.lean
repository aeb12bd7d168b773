import ThreeAddress.Proofs.Cells.Values
import ThreeAddress.Proofs.Layout.Finish

/-!
# The places of operands

Calls, expressions, references and right sides list their operands, and they have their operands replaced by steps that may fail. Whether a
value must be evaluated early is decided by its list of operands, and the value that ends up in a body is made by replacing them. The two go
through a value separately, for a call on a receiver even in different orders. Still they find the same operands in the same places.
-/

namespace ThreeAddress

/-- The ways through the operands of a kind of values: to list them, to replace them outright, and to replace them by steps that may
fail. -/
structure Places (F : Type → Type) where
  list {α : Type} : F α → List α
  map {α β : Type} : (α → β) → F α → F β
  mapM {ε α β : Type} : (α → Except ε β) → F α → Except ε (F β)

def Invoke.places : Places Invoke :=
  ⟨Invoke.operands, Invoke.map, Invoke.mapM⟩

def Expr.places : Places Expr :=
  ⟨Expr.operands, Expr.map, Expr.mapM⟩

def Ref.places : Places Ref :=
  ⟨Ref.operands, Ref.map, Ref.mapM⟩

def Rvalue.places : Places Rvalue :=
  ⟨Rvalue.operands, Rvalue.map, Rvalue.mapM⟩

namespace Places

variable {F : Type → Type} {p : Places F} {ε α β γ : Type}

/-- The operands that are listed are those that are replaced, and nothing else is. -/
structure Agree (p : Places F) : Prop where
  /-- Steps succeed for a value exactly if they do for each of its operands. -/
  succeeds {ε α β : Type} (f : α → Except ε β) (v : F α) : (∃ w, p.mapM f v = .ok w) ↔ ∀ a ∈ p.list v, ∃ b, f a = .ok b
  /-- The operands of the result are what the steps give for the operands, in the same order. -/
  operands {ε α β : Type} (f : α → Except ε β) (v : F α) (w : F β) :
    p.mapM f v = .ok w → List.Forall₂ (fun a b => f a = .ok b) (p.list v) (p.list w)
  /-- With nothing in the places of operands the result is what the value was. -/
  rest {ε α β : Type} (f : α → Except ε β) (v : F α) (w : F β) : p.mapM f v = .ok w → p.map (fun _ => ()) w = p.map (fun _ => ()) v
  /-- There is nothing in a value besides its operands and that. -/
  whole {α : Type} (v w : F α) : p.map (fun _ => ()) v = p.map (fun _ => ()) w → p.list v = p.list w → v = w
  /-- Replacing operands twice is replacing them once, also where a step fails. -/
  twice {ε α β γ : Type} (f : α → Except ε β) (g : β → γ) (v : F α) :
    (p.mapM f v >>= p.mapM fun b => .ok (g b)) = p.mapM (fun a => (f a).map g) v
  /-- Operands that are replaced by themselves stay, and so does the value. -/
  same {ε α : Type} (v : F α) : p.mapM (ε := ε) .ok v = .ok v

/-- What is seen of a kind of values constructor by constructor. -/
structure Lawful (p : Places F) : Prop where
  list_map {α β : Type} (f : α → β) (v : F α) : p.list (p.map f v) = (p.list v).map f
  mapM_ok {ε α β : Type} (f : α → β) (v : F α) : p.mapM (ε := ε) (fun a => .ok (f a)) v = .ok (p.map f v)
  map_mapM {ε α β γ : Type} (f : α → Except ε β) (g : β → γ) (v : F α) : p.map g <$> p.mapM f v = p.mapM (fun a => g <$> f a) v
  map_eq_of_mapM {ε α β γ : Type} {f : α → Except ε β} {g : β → γ} {h : α → γ} {v : F α} {w : F β} :
    (∀ a b, f a = .ok b → g b = h a) → p.mapM f v = .ok w → p.map g w = p.map h v
  error_of_mapM {ε α β : Type} {f : α → Except ε β} {v : F α} {e : ε} : p.mapM f v = .error e → ∃ a ∈ p.list v, f a = .error e
  ext {α : Type} {v w : F α} : p.map (fun _ => ()) v = p.map (fun _ => ()) w → p.list v = p.list w → v = w

namespace Lawful

theorem map_map (h : p.Lawful) (f : α → β) (g : β → γ) (v : F α) : p.map g (p.map f v) = p.map (fun a => g (f a)) v := by
  have steps := h.map_mapM (ε := Unit) (fun a => .ok (f a)) g v
  rw [h.mapM_ok] at steps
  exact Except.ok.inj (steps.trans (h.mapM_ok (fun a => g (f a)) v))

theorem map_self (h : p.Lawful) (v : F α) : p.map (fun a => a) v = v := by
  refine h.ext (h.map_map _ _ v) ?_
  rw [h.list_map, List.map_id']

/-- Steps that succeed give the operands of the result, one by one. -/
theorem forall₂_of_mapM (h : p.Lawful) {f : α → Except ε β} {v : F α} {w : F β} (hm : p.mapM f v = .ok w) :
    List.Forall₂ (fun a b => f a = .ok b) (p.list v) (p.list w) := by
  have options : (p.list v).map (fun a => (f a).toOption) = (p.list w).map some := by
    rw [← h.list_map, ← h.list_map, h.map_eq_of_mapM (fun _ _ => eq_toOption) hm]
  rw [← List.forall₂_eq_eq_eq, List.forall₂_map_left_iff, List.forall₂_map_right_iff] at options
  refine options.imp fun a b hab => ?_
  cases hf : f a with
  | error e =>
    rw [hf] at hab
    cases hab
  | ok b' =>
    rw [hf] at hab
    cases hab
    rfl

/-- What is seen constructor by constructor is enough for the ways through operands to agree. -/
theorem agree (h : p.Lawful) : p.Agree where
  succeeds f v := by
    constructor
    · rintro ⟨w, hw⟩ a ha
      obtain ⟨b, -, hb⟩ := exists_of_forall₂ (h.forall₂_of_mapM hw).flip ha
      exact ⟨b, hb⟩
    · intro hall
      cases hv : p.mapM f v with
      | ok w => exact ⟨w, rfl⟩
      | error e =>
        obtain ⟨a, ha, he⟩ := h.error_of_mapM hv
        obtain ⟨b, hb⟩ := hall a ha
        rw [he] at hb
        cases hb
  operands f v w hm := h.forall₂_of_mapM hm
  rest f v w hm := h.map_eq_of_mapM (fun _ _ _ => rfl) hm
  whole v w := h.ext
  twice {ε α β γ} f g v := by
    have outright : (p.mapM fun b => .ok (g b)) = fun w => (.ok (p.map g w) : Except ε (F γ)) := funext (h.mapM_ok g)
    rw [outright]
    exact (bind_pure_comp (p.map g) (p.mapM f v)).trans (h.map_mapM f g v)
  same v := by
    rw [h.mapM_ok fun a => a, h.map_self]

end Lawful
end Places

theorem Invoke.places_lawful : Invoke.places.Lawful where
  list_map := operands_map
  mapM_ok := mapM_pure
  map_mapM := map_mapM
  map_eq_of_mapM hf hm := map_eq_of_mapM hf hm
  error_of_mapM := error_of_mapM
  ext := ext_operands

theorem Expr.places_lawful : Expr.places.Lawful where
  list_map := operands_map
  mapM_ok := mapM_pure
  map_mapM := map_mapM
  map_eq_of_mapM hf hm := map_eq_of_mapM hf hm
  error_of_mapM := error_of_mapM
  ext := ext_operands

theorem Ref.places_lawful : Ref.places.Lawful where
  list_map := operands_map
  mapM_ok := mapM_pure
  map_mapM := map_mapM
  map_eq_of_mapM hf hm := map_eq_of_mapM hf hm
  error_of_mapM := error_of_mapM
  ext := ext_operands

theorem Rvalue.places_lawful : Rvalue.places.Lawful where
  list_map := operands_map
  mapM_ok := mapM_pure
  map_mapM := map_mapM
  map_eq_of_mapM hf hm := map_eq_of_mapM hf hm
  error_of_mapM := error_of_mapM
  ext := ext_operands

/-- Whatever the kind of values, listing the operands and replacing them go to the same places. -/
theorem places_agree : Invoke.places.Agree ∧ Expr.places.Agree ∧ Ref.places.Agree ∧ Rvalue.places.Agree :=
  ⟨Invoke.places_lawful.agree, Expr.places_lawful.agree, Ref.places_lawful.agree, Rvalue.places_lawful.agree⟩

end ThreeAddress
