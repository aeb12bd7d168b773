import ThreeAddress.Proofs.Lowering.Visit
import ThreeAddress.Proofs.Semantics.Widths

/-!
# Values along paths

`Operation.carry` is what an operation makes of a stack of any cells, and a visit makes of the words of a simulated stack what the operation
makes of the cells that they stand for. `Method.Carries` follows the values on the stack along the paths of a method, each value named by the
operation that pushed it. A method is uniform if an operation finds values of the same producers on the stack, whatever way control came to
it: values may stay on the stack where ways of control come together, but different ones never take one place.
-/

namespace ThreeAddress

open State

variable {α β : Type} {wide : α → Bool} {wide' : β → Bool} {result : Bool → α} {result' : Bool → β} {f : α → β}
  {stands : OperandId → α → Prop} {m : Method} {shares : Bool} {s : State} {i : Nat} {op : Operation} {before after rest : Stack}
  {xs : List OperandId} {e : Effect OperandId} {as : List α} {cells cells' : List (Cell Nat)} {ws : List Bool}

/-! ## What operations make of stacks -/

/-- What an operation makes of a stack of cells, with the cell that it pushes for a result of a width. -/
def Operation.carry (wide : α → Bool) (result : Bool → α) (op : Operation) (as : List α) : Except Misuse (List α) :=
  match op with
  | .shuffle how count => rearrange wide how count as
  | .line _ | .label _ => .ok as
  | .unhandled _ _ => .error .unhandled
  | op => do
    let (_, rest) ← popAll wide op.takes.reverse as
    return (op.pushes.map result).toList ++ rest

/-- Plain operations pop what they take and push their result. -/
theorem Operation.carry_plain (h : op.isPlain) (as : List α) :
    op.carry wide result as = do
      let p ← popAll wide op.takes.reverse as
      return (op.pushes.map result).toList ++ p.2 := by
  cases op <;> first | rfl | cases h

/-- The widths on a stack are cells of their own. -/
theorem Operation.reshape_eq_carry (op : Operation) (ws : List Bool) : op.reshape ws = op.carry id id ws := by
  cases op with
  | shuffle | line | label | unhandled => rfl
  | _ => simp only [reshape, carry, Option.map_id, id]

/-- What an operation makes of a stack depends on the widths of the cells alone. -/
theorem Operation.carry_map (hw : ∀ a, wide' (f a) = wide a) (hr : ∀ w, f (result w) = result' w) (op : Operation) (as : List α) :
    op.carry wide' result' (as.map f) = (op.carry wide result as).map (List.map f) := by
  have pushed : ∀ w : Option Bool, (w.map result').toList = ((w.map result).toList).map f := fun w => by cases w <;> simp [hr]
  cases op with
  | shuffle how count => exact rearrange_map hw how count as
  | line | label | unhandled => rfl
  | _ =>
    simp only [carry, popAll_map hw]
    cases popAll wide _ as with
    | error e => rfl
    | ok p => simp only [Except.map, bind, Except.bind, pure, Except.pure, List.map_append, pushed]

/-- The widths that a plain operation makes are those of its result and of the cells that it leaves. -/
theorem Operation.reshape_plain {V : Type} (h : op.isPlain) (as : List (Cell V)) :
    op.reshape (as.map Cell.wide) =
      (popAll Cell.wide op.takes.reverse as).map fun p => op.pushes.toList ++ p.2.map Cell.wide := by
  have wide : ∀ c : Cell V, id c.wide = c.wide := fun _ => rfl
  rw [reshape_eq_carry, carry_plain h, popAll_map wide, Option.map_id, id]
  cases popAll Cell.wide op.takes.reverse as <;> rfl

/-! ## Visits -/

/-- What a visit pops are operands for the cells that the operation consumes, unless a width is wrong. -/
theorem Performed.popAll (h : Performed shares i op before after xs rest e s) (hs : Spells wide stands before as)
    (hw : popAll wide op.takes.reverse as ≠ .error .width) :
    ∃ popped below, popAll wide op.takes.reverse as = .ok (popped, below) ∧ List.Forall₂ stands xs.reverse popped ∧
      Spells wide stands rest below := by
  cases hp : ThreeAddress.popAll wide op.takes.reverse as with
  | error e =>
    cases e with
    | underflow => exact absurd hp (hs.not_underflow h.pop)
    | width => exact absurd hp hw
    | unhandled => exact absurd hp popAll_ne_unhandled
  | ok p =>
    obtain ⟨popped, below⟩ := p
    obtain ⟨os, rest', hpop, hall, hrest⟩ := hs.pop hp
    rw [h.pop, Option.some.injEq, Prod.mk.injEq] at hpop
    obtain ⟨rfl, rfl⟩ := hpop
    exact ⟨popped, below, rfl, hall, hrest⟩

/-- A visit leaves words for the cells that the operation makes, unless a width is wrong. -/
theorem Visit.carry (h : Visit m shares i before after s op) (handlers : m.handlerLabels = []) (hs : Spells wide stands before as)
    (hr : ∀ w, wide (result w) = w) (hout : ∀ o w, (s.frame i).out = some o → stands o (result w))
    (hw : op.carry wide result as ≠ .error .width) : ∃ as', op.carry wide result as = .ok as' ∧ Spells wide stands after as' := by
  cases h with
  | plain plain performed =>
    rw [Operation.carry_plain plain] at hw ⊢
    obtain ⟨popped, below, hpop, -, hrest⟩ := performed.popAll hs fun hp => hw (by rw [hp]; rfl)
    refine ⟨_, by rw [hpop]; rfl, ?_⟩
    cases hpush : op.pushes with
    | none =>
      rw [(performed.leaves.statement hpush).2]
      exact hrest
    | some w =>
      obtain ⟨o, ho, rfl⟩ := performed.leaves.result w hpush
      have hpushed := hrest.push (hout o w ho)
      rwa [hr] at hpushed
  | @shuffle how count words =>
    cases hc : rearrange wide how count as with
    | error e =>
      cases e with
      | underflow => exact absurd hc (hs.rearrange_not_underflow words)
      | width => exact absurd hc hw
      | unhandled => exact absurd hc rearrange_ne_unhandled
    | ok as' =>
      obtain ⟨stack', hstack, hspells⟩ := hs.rearrange hc
      rw [words, Option.some.injEq] at hstack
      exact ⟨as', hc, hstack ▸ hspells⟩
  | line same | label _ same => exact ⟨as, rfl, same ▸ hs⟩
  | caught handler =>
    rw [handlers] at handler
    cases handler

/-- A visit leaves words for the widths that the operation makes, unless a width is wrong. -/
theorem Visit.reshape (h : Visit m shares i before after s op) (handlers : m.handlerLabels = [])
    (hs : Spells id (fun _ _ => True) before ws) (hw : op.reshape ws ≠ .error .width) :
    ∃ ws', op.reshape ws = .ok ws' ∧ Spells id (fun _ _ => True) after ws' := by
  rw [op.reshape_eq_carry] at hw ⊢
  exact h.carry handlers hs (fun _ => rfl) (fun _ _ _ => trivial) hw

/-! ## Where values come from -/

/-- What an operation makes of a stack on which each value is named by the operation that pushed it. -/
abbrev Operation.trace (op : Operation) (i : Nat) : List (Cell Nat) → Except Misuse (List (Cell Nat)) :=
  op.carry Cell.wide (Cell.mk i)

/-- Some path from the first operation leads to an operation with values on the stack that certain operations pushed. -/
inductive Method.Carries (m : Method) : Nat → List (Cell Nat) → Prop where
  | start : m.Carries 0 []
  | step {i j : Nat} {op : Operation} {cells cells' : List (Cell Nat)} (carries : m.Carries i cells) (here : m.code[i]? = some op)
      (traced : op.trace i cells = .ok cells') (leads : m.Leads i op j) : m.Carries j cells'

/-- Every operation finds values of the same producers on the stack, whatever path leads to it, and uses each with the width it was pushed
with. -/
structure Method.Uniform (m : Method) : Prop where
  same : ∀ i cells cells', m.Carries i cells → m.Carries i cells' → cells' = cells
  widths : ∀ i op ws, m.code[i]? = some op → Reaches m i ws → op.reshape ws ≠ .error .width

/-- The widths on a stack change as its values do. -/
theorem Operation.reshape_map (op : Operation) (i : Nat) (cells : List (Cell Nat)) :
    op.reshape (cells.map Cell.wide) = (op.trace i cells).map (List.map Cell.wide) := by
  have wide : ∀ c : Cell Nat, id c.wide = c.wide := fun _ => rfl
  have pushed : ∀ w, (Cell.mk i w).wide = id w := fun _ => rfl
  rw [op.reshape_eq_carry]
  exact op.carry_map wide pushed cells

/-- Values that are traced have the widths that the operation makes. -/
theorem Operation.reshape_of_trace (h : op.trace i cells = .ok cells') : op.reshape (cells.map Cell.wide) = .ok (cells'.map Cell.wide) := by
  rw [op.reshape_map i, h]
  rfl

/-- A path that brings values brings their widths. -/
theorem Method.Carries.reaches (h : m.Carries i cells) : Reaches m i (cells.map Cell.wide) := by
  induction h with
  | start => exact .start
  | step _ here traced leads ih => exact .step ih here (Operation.reshape_of_trace traced) leads

/-- Widths that a path brings are those of values. -/
theorem Reaches.carries (h : Reaches m i ws) : ∃ cells, m.Carries i cells ∧ cells.map Cell.wide = ws := by
  induction h with
  | start => exact ⟨[], .start, rfl⟩
  | @step i j op ws ws' _ here shape leads ih =>
    obtain ⟨cells, carries, rfl⟩ := ih
    rw [op.reshape_map i] at shape
    cases traced : op.trace i cells with
    | error e => simp [traced, Except.map] at shape
    | ok cells' =>
      rw [traced] at shape
      exact ⟨cells', .step carries here traced leads, Except.ok.inj shape⟩

/-- A method that keeps the result of a call on the stack while control divides and comes together again. -/
def Method.waiting : Method :=
  { className := "Sample", name := "run", signature := { params := [], ret := .void }, isStatic := true, maxLocals := 2, maxStack := 2,
    code := [.invoke .static ⟨"Sample", "f", ⟨[], .int⟩⟩, .load .int 0, .branch .int .one .eq ⟨1⟩, .increment 0 1, .label ⟨1⟩,
      .store .int 1, .return .void]
    exceptions := [], localNames := [] }

/-- The values on the stack before each operation. -/
theorem Method.cells_of_carries_waiting (h : waiting.Carries i cells) :
    [[], [⟨0, false⟩], [⟨1, false⟩, ⟨0, false⟩], [⟨0, false⟩], [⟨0, false⟩], [⟨0, false⟩], []][i]? = some cells := by
  induction h with
  | start => rfl
  | @step i j op cells cells' _ here traced leads ih =>
    match i with
    | 0 | 1 | 3 | 4 | 5 =>
      cases ih
      cases here
      cases leads
      exact congrArg some (Except.ok.inj traced)
    | 2 =>
      cases ih
      cases here
      rcases leads with rfl | leads
      · exact congrArg some (Except.ok.inj traced)
      · cases leads
        exact congrArg some (Except.ok.inj traced)
    | 6 =>
      cases here
      cases leads
    | i + 7 => cases ih

theorem Method.uniform_waiting : waiting.Uniform where
  same i cells cells' h h' := Option.some.inj ((cells_of_carries_waiting h').symm.trans (cells_of_carries_waiting h))
  widths i op ws here hr := by
    obtain ⟨cells, carries, rfl⟩ := hr.carries
    have hcells := cells_of_carries_waiting carries
    match i with
    | 0 | 1 | 2 | 3 | 4 | 5 | 6 =>
      cases hcells
      cases here
      exact fun h => by cases h
    | i + 7 => cases hcells

end ThreeAddress
