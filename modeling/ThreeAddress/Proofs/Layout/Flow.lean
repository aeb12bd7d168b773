import ThreeAddress.Proofs.Labels
import ThreeAddress.Proofs.Lowering.Coherent

/-!
# Where control goes from a unit

Control goes from an operation to the operation behind it, to the labels that it names, or to both. In the unit of an operation every
statement but the last goes on to the next one, and the last goes where the operation does.
-/

namespace ThreeAddress

variable {α : Type}

/-- Control may go on from an operation to the one behind it. -/
def Operation.goesOn : Operation → Bool
  | .return _ | .throw | .jump _ | .switch _ _ => false
  | _ => true

/-- Control goes on to the operation behind, if it may, and to the labels that are named. -/
theorem Method.leads_iff {m : Method} {i j : Nat} {op : Operation} :
    m.Leads i op j ↔ (op.goesOn ∧ j = i + 1) ∨ ∃ l ∈ op.labels, m.labelIndex? l = some j := by
  cases op with
  | «switch» default cases => simp only [Leads, Operation.goesOn, Operation.mem_labels_switch, Bool.false_eq_true, false_and, false_or]
  | _ => simp [Leads, Operation.goesOn, Operation.labels, or_comm]

/-- Control goes on behind an operation that pushes a value. -/
theorem Operation.goesOn_of_pushes {op : Operation} {wide : Bool} (h : op.pushes = some wide) : op.goesOn = true := by
  cases op <;> first | rfl | cases h

/-- An operation that pushes a value names no label. -/
theorem Operation.labels_of_pushes {op : Operation} {wide : Bool} (h : op.pushes = some wide) : op.labels = [] := by
  cases op <;> first | rfl | cases h

/-- Control may go on behind a statement. -/
def Draft.fallsThrough : Draft → Bool
  | .goto _ | .switch _ _ _ _ | .return _ | .returnVoid | .throw _ => false
  | _ => true

/-- The labels that a statement names, in order. -/
def Draft.labels : Draft → List Label
  | .branch _ _ _ target | .goto target => [target]
  | .switch _ _ targets default => targets ++ [default]
  | _ => []

/-- Control may go on behind what carries an effect out. -/
def Effect.goesOn : Effect α → Bool
  | .jump _ | .switch _ _ _ | .return _ | .returnVoid | .throw _ => false
  | _ => true

/-- The labels that an effect names, in order. -/
def Effect.labels : Effect α → List Label
  | .branch _ _ _ target | .jump target => [target]
  | .switch _ cases default => cases.targets ++ [default]
  | _ => []

/-- An effect leads where its operation does. -/
theorem Operation.flow_of_effect {op : Operation} {xs : List α} {e : Effect α} (he : op.effect xs = some e) :
    e.goesOn = op.goesOn ∧ e.labels = op.labels := by
  rw [← op.jumpTargets_eq]
  revert he
  fun_cases effect op xs <;> intro he <;>
    first
    | (cases he <;> exact ⟨rfl, rfl⟩)
    | (obtain ⟨c, -, rfl⟩ := Option.map_eq_some_iff.mp he; exact ⟨rfl, rfl⟩)

/-- A statement leads where the effect does that it carries out. -/
theorem Effect.flow_of_draft? {e : Effect OperandId} {slot : Nat → Option RegisterId} {d : Draft} (hd : e.draft? slot = some d) :
    d.fallsThrough = e.goesOn ∧ d.labels = e.labels := by
  cases e with
  | store k v | increment k v =>
    simp only [draft?, Option.map_eq_some_iff] at hd
    obtain ⟨r, -, rfl⟩ := hd
    exact ⟨rfl, rfl⟩
  | constant | load | operator | read => cases hd
  | _ =>
    simp only [draft?, Option.some.injEq] at hd
    subst hd
    exact ⟨rfl, rfl⟩

/-- Control goes on behind a value. -/
theorem Effect.flow_of_rvalue? {e : Effect α} {slot : Nat → Option RegisterId} {v : Rvalue α} (hv : e.rvalue? slot = some v) :
    e.goesOn = true ∧ e.labels = [] := by
  cases e with
  | constant | load | operator | read | call => exact ⟨rfl, rfl⟩
  | _ => cases hv

namespace State

variable {m : Method} {s : State} {i : Nat} {op : Operation} {d : Draft}

/-- Copies go on to what is behind them. -/
theorem flow_of_mem_copies {o : OperandId} {rs : List RegisterId} (h : d ∈ copies o rs) : d.fallsThrough = true ∧ d.labels = [] := by
  obtain ⟨r, -, rfl⟩ := List.mem_map.mp h
  exact ⟨rfl, rfl⟩

/-- Where control goes from the statements of an operation. -/
structure UnitFlow (s : State) (i : Nat) (op : Operation) : Prop where
  inner : ∀ (k : Nat) (d : Draft), (s.unit i)[k]? = some d → k + 1 < (s.unit i).length → d.fallsThrough = true ∧ d.labels = []
  last : ∀ d, (s.unit i).getLast? = some d → d.fallsThrough = op.goesOn ∧ d.labels = op.labels

/-- All statements go on to what is behind them, and so does the operation. -/
theorem UnitFlow.of_quiet (quiet : ∀ d ∈ s.unit i, d.fallsThrough = true ∧ d.labels = []) (goesOn : op.goesOn = true)
    (targets : op.labels = []) : s.UnitFlow i op where
  inner k d hd _ := quiet d (List.mem_of_getElem? hd)
  last d hd := by
    rw [goesOn, targets]
    exact quiet d (List.mem_of_getLast? hd)

/-- The unit of an operation leads where the operation does. -/
theorem Stage.flow (h : s.Stage m i) (here : m.code[i]? = some op) : s.UnitFlow i op := by
  cases h with
  | untouched _ _ unit => exact ⟨fun k d hd => by simp [unit] at hd, fun d hd => by simp [unit] at hd⟩
  | result built _ _ value unbound bound =>
    obtain rfl := Option.some.inj (here.symm.trans built.here)
    obtain ⟨hgo, hlabels⟩ := Operation.flow_of_effect built.effect
    obtain ⟨hgo', hlabels'⟩ := Effect.flow_of_rvalue? value
    refine .of_quiet (fun d hd => ?_) (hgo ▸ hgo') (hlabels ▸ hlabels')
    rename_i o _ _
    by_cases hr : (s.operand o).register = none
    · rw [unbound hr] at hd
      cases hd
    · obtain ⟨rs, hunit, -⟩ := bound (Option.isSome_iff_ne_none.mpr hr)
      rw [hunit] at hd
      rcases List.mem_cons.mp hd with rfl | hd
      · exact ⟨rfl, rfl⟩
      · exact flow_of_mem_copies hd
  | statement built _ _ draft unit =>
    obtain rfl := Option.some.inj (here.symm.trans built.here)
    obtain ⟨hgo, hlabels⟩ := Operation.flow_of_effect built.effect
    obtain ⟨hgo', hlabels'⟩ := Effect.flow_of_draft? draft
    refine ⟨fun k d hd hk => ?_, fun d hd => ?_⟩
    · simp [unit] at hk
    · simp only [unit, List.getLast?_singleton, Option.some.injEq] at hd
      subst hd
      exact ⟨hgo'.trans hgo, hlabels'.trans hlabels⟩
  | caught here' _ _ _ _ _ _ unit =>
    obtain rfl := Option.some.inj (here.symm.trans here')
    obtain ⟨rs, hunit, -⟩ := unit
    refine .of_quiet (fun d hd => ?_) rfl rfl
    rw [hunit] at hd
    rcases List.mem_cons.mp hd with rfl | hd
    · exact ⟨rfl, rfl⟩
    · exact flow_of_mem_copies hd
  | shared here' _ _ _ unit =>
    obtain rfl := Option.some.inj (here.symm.trans here')
    obtain ⟨rs, hunit, -⟩ := unit
    refine .of_quiet (fun d hd => ?_) rfl rfl
    rcases hunit with hunit | hunit <;> rw [hunit] at hd
    · exact flow_of_mem_copies hd
    · rcases List.mem_cons.mp hd with rfl | hd
      · exact ⟨rfl, rfl⟩
      · exact flow_of_mem_copies hd

/-- A statement names no label that its operation does not name. -/
theorem UnitFlow.labels_subset (h : s.UnitFlow i op) (hd : d ∈ s.unit i) : ∀ l ∈ d.labels, l ∈ op.labels := by
  intro l hl
  obtain ⟨k, hk⟩ := List.getElem?_of_mem hd
  by_cases hlast : k + 1 < (s.unit i).length
  · rw [(h.inner k d hk hlast).2] at hl
    cases hl
  · have hlen := (List.getElem?_eq_some_iff.mp hk).1
    have hget : (s.unit i).getLast? = some d := by
      rw [List.getLast?_eq_getElem?, show (s.unit i).length - 1 = k by omega, hk]
    rwa [(h.last d hget).2] at hl

end State
end ThreeAddress
