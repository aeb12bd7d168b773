import ThreeAddress.Proofs.Lowering.Coherent
import ThreeAddress.Proofs.Lowering.Plain

/-!
# Local slots

Every operation that names a local slot uses the register of that slot: a load stands for it, a store copies into it, and an increment
changes it.
-/

namespace ThreeAddress
namespace State

variable {m : Method} {s : State}

/-- Loads and stores of a slot use its register. -/
structure UsesSlots (m : Method) (s : State) (slot : Nat → Option RegisterId) : Prop where
  load : ∀ i kind k o, m.code[i]? = some (.load kind k) → (s.frame i).out = some o →
    ∃ r, slot k = some r ∧ (s.operand o).value = .register r
  store : ∀ i kind k d, m.code[i]? = some (.store kind k) → d ∈ s.unit i → ∃ r v, slot k = some r ∧ d = .copy r v
  increment : ∀ i k amount d, m.code[i]? = some (.increment k amount) → d ∈ s.unit i →
    ∃ r, slot k = some r ∧ d = .increment r amount

/-- A statement at an operation that leaves no result carries the operation out. -/
theorem Coherent.draft_of_mem {i : Nat} {op : Operation} {d : Draft} (h : s.Coherent m) (here : m.code[i]? = some op)
    (plain : op.isPlain) (pushes : op.pushes = none) (hd : d ∈ s.unit i) :
    ∃ xs e, op.effect xs = some e ∧ e.draft? s.registers.slot? = some d := by
  cases h.stage i (List.getElem?_eq_some_iff.mp here).1 with
  | untouched _ _ unit => simp [unit] at hd
  | result built pushes' =>
    obtain rfl := Option.some.inj (here.symm.trans built.here)
    simp [pushes] at pushes'
  | @statement op' xs e d' built _ _ draft unit =>
    obtain rfl := Option.some.inj (here.symm.trans built.here)
    obtain rfl : d = d' := by simpa [unit] using hd
    exact ⟨xs, e, built.effect, draft⟩
  | caught here' | shared here' =>
    obtain rfl := Option.some.inj (here.symm.trans here')
    cases plain

theorem Coherent.usesSlots (h : s.Coherent m) : s.UsesSlots m s.registers.slot? where
  load i kind k o here hout := by
    cases h.stage i (List.getElem?_eq_some_iff.mp here).1 with
    | untouched out | statement _ _ out | shared _ _ out => simp [hout] at out
    | @result op xs e p built _ out value =>
      obtain rfl := Option.some.inj (hout.symm.trans out)
      obtain rfl := Option.some.inj (here.symm.trans built.here)
      have heffect := built.effect
      rcases xs with - | ⟨x, xs⟩ <;> cases heffect
      obtain ⟨r, hr, hvalue⟩ := Option.map_eq_some_iff.mp value
      exact ⟨r, hr, hvalue.symm⟩
    | caught here' => cases here.symm.trans here'
  store i kind k d here hd := by
    obtain ⟨xs, e, effect, draft⟩ := h.draft_of_mem here rfl rfl hd
    rcases xs with - | ⟨x, - | ⟨y, xs⟩⟩ <;> cases effect
    obtain ⟨r, hr, rfl⟩ := Option.map_eq_some_iff.mp draft
    exact ⟨r, x, hr, rfl⟩
  increment i k amount d here hd := by
    obtain ⟨xs, e, effect, draft⟩ := h.draft_of_mem here rfl rfl hd
    rcases xs with - | ⟨x, xs⟩ <;> cases effect
    obtain ⟨r, hr, rfl⟩ := Option.map_eq_some_iff.mp draft
    exact ⟨r, hr, rfl⟩

/-- Slots that keep their registers are used as before. -/
theorem UsesSlots.mono {slot slot' : Nat → Option RegisterId} (h : s.UsesSlots m slot)
    (keeps : ∀ k r, slot k = some r → slot' k = some r) : s.UsesSlots m slot' where
  load i kind k o here hout := by
    obtain ⟨r, hr, hrest⟩ := h.load i kind k o here hout
    exact ⟨r, keeps k r hr, hrest⟩
  store i kind k d here hd := by
    obtain ⟨r, v, hr, hrest⟩ := h.store i kind k d here hd
    exact ⟨r, v, keeps k r hr, hrest⟩
  increment i k amount d here hd := by
    obtain ⟨r, hr, hrest⟩ := h.increment i k amount d here hd
    exact ⟨r, keeps k r hr, hrest⟩

end State
end ThreeAddress
