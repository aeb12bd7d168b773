import ThreeAddress.Proofs.Semantics.StackMachine

/-!
# Widths alone

What the machine pops, and what the stack instructions make of a stack, depends on the widths of its cells and on nothing else. An operation
that succeeds on the widths of a stack therefore finds what it consumes on the stack itself.
-/

namespace ThreeAddress

variable {α β V : Type} {f : α → β} {wide : α → Bool} {wide' : β → Bool}

/-- Popping only looks at widths. -/
theorem popAll_map (hw : ∀ a, wide' (f a) = wide a) (ws : List Bool) (as : List α) :
    popAll wide' ws (as.map f) = (popAll wide ws as).map fun p => (p.1.map f, p.2.map f) := by
  induction ws generalizing as with
  | nil => rfl
  | cons w ws ih =>
    cases as with
    | nil => rfl
    | cons a as =>
      simp only [List.map_cons, popAll, hw, ih]
      split
      · cases popAll wide ws as <;> rfl
      · rfl

theorem popGroup_map (hw : ∀ a, wide' (f a) = wide a) (count : Count) (as : List α) :
    popGroup wide' count (as.map f) = (popGroup wide count as).map fun p => (p.1.map f, p.2.map f) := by
  rcases as with - | ⟨a, - | ⟨b, as⟩⟩ <;> cases count <;> simp only [List.map_cons, List.map_nil, popGroup, hw] <;>
    repeat' (first | rfl | split)

/-- The stack instructions only look at widths. -/
theorem rearrange_map (hw : ∀ a, wide' (f a) = wide a) (how : Shuffle) (count : Count) (as : List α) :
    rearrange wide' how count (as.map f) = (rearrange wide how count as).map (List.map f) := by
  cases how with
  | pop | dup =>
    simp only [rearrange, popGroup_map hw]
    cases popGroup wide count as with
    | error e => rfl
    | ok p => simp [Except.map, bind, Except.bind, pure, Except.pure]
  | dupX1 | dupX2 =>
    simp only [rearrange, popGroup_map hw]
    cases popGroup wide count as with
    | error e => rfl
    | ok p =>
      simp only [Except.map, bind, Except.bind, popGroup_map hw]
      split <;> rename_i h <;> split at h <;> cases h <;> simp_all [pure, Except.pure]
  | swap =>
    simp only [rearrange, popGroup_map hw]
    cases popGroup wide .one as with
    | error e => rfl
    | ok p =>
      simp only [Except.map, bind, Except.bind, popGroup_map hw]
      split <;> rename_i h <;> split at h <;> cases h <;> simp_all [pure, Except.pure]

/-! ## Ways to fail -/

/-- Popping fails because values are missing or have other widths. -/
theorem popAll_ne_unhandled {ws : List Bool} {as : List α} : popAll wide ws as ≠ .error .unhandled := by
  induction ws generalizing as with
  | nil => exact fun h => by cases h
  | cons w ws ih =>
    cases as with
    | nil => exact fun h => by cases h
    | cons a as =>
      simp only [popAll]
      split
      · simp only [ne_eq, bind_eq_error, pure_ne_error, and_false, exists_false, or_false]
        exact ih
      · exact fun h => by cases h

theorem popGroup_ne_unhandled {count : Count} {as : List α} : popGroup wide count as ≠ .error .unhandled := by
  rcases as with - | ⟨a, - | ⟨b, as⟩⟩ <;> cases count <;> simp only [popGroup] <;>
    repeat' (first | exact (fun h => by cases h) | split)

theorem rearrange_ne_unhandled {how : Shuffle} {count : Count} {as : List α} : rearrange wide how count as ≠ .error .unhandled := by
  cases how <;>
    simp only [rearrange, ne_eq, bind_eq_error, popGroup_ne_unhandled, pure_ne_error, and_false, exists_false, or_false, not_false_iff]

end ThreeAddress
