import ThreeAddress.Proofs.Traversal.Reached

/-!
# Words along paths

`Method.Outlines` follows the words on the stack along paths through the code: which of them stand for values and which are the lower halves of
wide ones. In a method that is lowered, whatever path control takes, an operation finds a word that stands for a value wherever it consumes
one, and above another word if the value is wide. So the lower half of a wide value is never taken for a value of its own. More is not
checked: two words that stand for values may pass for a wide one, and the upper word of a wide value for a narrow one.
-/

namespace ThreeAddress

variable {m : Method} {shares : Bool} {s : State} {i : Nat} {op : Operation} {before after words : Stack}

/-- What an operation makes of the outline of a stack; none if it does not find what it consumes. -/
def Operation.outline (op : Operation) (words : Stack) : Option Stack :=
  match op with
  | .shuffle how count => shuffleWords how count words
  | .line _ | .label _ => some words
  | .unhandled _ _ => none
  | op => do
    let (_, rest) ← popOperands op.takes.reverse words
    return op.pushes.elim rest (pushOperand ⟨0⟩ · rest)

/-- Some path from the first operation comes to an operation with the outline of a stack. -/
inductive Method.Outlines (m : Method) : Nat → Stack → Prop where
  | start : m.Outlines 0 []
  | step {i j : Nat} {op : Operation} {words words' : Stack} (outlines : m.Outlines i words) (here : m.code[i]? = some op)
      (made : op.outline words = some words') (leads : m.Leads i op j) : m.Outlines j words'

/-- A plain operation pops what it takes and pushes its result. -/
theorem Operation.outline_plain (h : op.isPlain) (words : Stack) :
    op.outline words = do
      let p ← popOperands op.takes.reverse words
      return op.pushes.elim p.2 (pushOperand ⟨0⟩ · p.2) := by
  cases op <;> first | rfl | cases h

/-- A visit makes of the outline of a stack what the operation makes of it. -/
theorem Visit.outline (h : Visit m shares i before after s op) (handlers : m.handlerLabels = []) :
    op.outline before.outline = some after.outline := by
  cases h with
  | plain plain performed =>
    obtain ⟨os, hpop⟩ := popOperands_outline performed.pop
    rw [Operation.outline_plain plain, hpop]
    cases hw : op.pushes with
    | none =>
      rw [(performed.leaves.statement hw).2]
      rfl
    | some w =>
      obtain ⟨o, -, hafter⟩ := performed.leaves.result w hw
      rw [hafter, pushOperand_outline]
      rfl
  | shuffle words => exact shuffleWords_outline words
  | line same | label _ same =>
    rw [same]
    rfl
  | caught handler =>
    rw [handlers] at handler
    cases handler

/-- What comes along a path comes with the outline of that path. -/
theorem Method.Outlines.arrived {g : Guide m shares} {t : Traversal State} (h : m.Outlines i words) (hx : t.Explored g fun _ _ => False)
    (hn : t.tasks = []) (handlers : m.handlerLabels = []) (hi : i < m.code.length) :
    ∃ stack, t.Arrived m shares i stack ∧ stack.outline = words := by
  induction h with
  | start => exact ⟨[], Traversal.arrived_of_awaited hx hn (Or.inl (Or.inl ⟨rfl, rfl⟩)), rfl⟩
  | step _ here made leads ih =>
    obtain ⟨stack, ha, rfl⟩ := ih (List.getElem?_eq_some_iff.mp here).1
    obtain ⟨after, hp, hnext⟩ := ha.passed_on hx hn here
    rw [hp.visit.outline handlers, Option.some.injEq] at made
    obtain ⟨stack', houtline, -, ha'⟩ := hnext _ leads hi
    exact ⟨stack', ha', houtline.trans made⟩

/-- In a method without handlers that is lowered, whatever path control takes to an operation, the operation finds words that stand for values
wherever it consumes values. -/
theorem Method.outline_of_lower {keepLines : Bool} {b : Body} (h : m.lower keepLines = .ok b) (handlers : m.exceptions = []) :
    ∀ i op words, m.Outlines i words → m.code[i]? = some op → (op.outline words).isSome := by
  have hl : m.handlerLabels = [] := by simp [handlerLabels, handlers]
  obtain ⟨t, ht, -⟩ := lower_eq_ok.mp h
  obtain ⟨hx, hn⟩ := Traversal.complete_spec ht (Guide.free_begins m)
  intro i op words houtlines here
  obtain ⟨stack, ha, rfl⟩ := houtlines.arrived hx hn hl (List.getElem?_eq_some_iff.mp here).1
  obtain ⟨after, hp, -⟩ := ha.passed_on hx hn here
  rw [hp.visit.outline hl]
  rfl

/-- The half of a wide value is not taken for a narrow one. -/
example : Operation.outline (.store .int 0) [.wideHalf] = none := rfl

/-- Two words that stand for values may pass for a wide one. -/
example : Operation.outline (.store .long 0) [.operand ⟨0⟩, .operand ⟨0⟩] = some [] := rfl

end ThreeAddress
