import Mathlib.Algebra.Ring.Nat
import ThreeAddress.Proofs.Traversal.Reached

/-!
# Depths along paths

`Method.Path` follows the depth of the stack along paths through the code, by the effects of the operations alone. In a method that is
lowered, all paths to an operation, of any length and around any loops, come there with one depth, and no operation pops more words than
it finds.
-/

namespace ThreeAddress

/-! ## Paths -/

/-- The words that an operation pops. -/
def Operation.wordsPopped : Operation → Nat
  | .shuffle .pop count | .shuffle .dup count => count.toNat
  | .shuffle .dupX1 count => count.toNat + 1
  | .shuffle .dupX2 count => count.toNat + 2
  | .shuffle .swap _ => 2
  | op => (op.takes.map fun wide => if wide then 2 else 1).sum

/-- Some path from the first operation comes to an operation, and the effects along it add up to a depth. Labels and line numbers have
none. -/
inductive Method.Path (m : Method) : Nat → Int → Prop where
  | start : m.Path 0 0
  | step {i j : Nat} {op : Operation} {d : Int} (path : m.Path i d) (here : m.code[i]? = some op) (leads : m.Leads i op j) :
      m.Path j (d + op.stackEffect.getD 0)

/-! ## Words on the stack -/

theorem length_of_popOperand {wide : Bool} {o : OperandId} {stack rest : Stack} (h : popOperand wide stack = some (o, rest)) :
    stack.length = rest.length + if wide then 2 else 1 := by
  unfold popOperand at h
  split at h
  · simp only [Option.some.injEq, Prod.mk.injEq] at h
    simp [← h.2]
  · simp only [Option.some.injEq, Prod.mk.injEq] at h
    simp [← h.2]
  · split at h
    · simp only [Option.some.injEq, Prod.mk.injEq] at h
      simp [← h.2]
    · cases h
  · cases h

/-- Popping operands takes two words for each wide one and one for each other. -/
theorem length_of_popOperands {ws : List Bool} {os : List OperandId} {stack rest : Stack} (h : popOperands ws stack = some (os, rest)) :
    stack.length = rest.length + (ws.map fun wide => if wide then 2 else 1).sum := by
  induction ws generalizing os stack with
  | nil =>
    simp only [popOperands, Option.some.injEq, Prod.mk.injEq] at h
    simp [h.2]
  | cons w ws ih =>
    simp only [popOperands, Option.bind_eq_bind, Option.bind_eq_some_iff, Option.pure_def, Option.some.injEq, Prod.mk.injEq] at h
    obtain ⟨⟨o, mid⟩, ho, ⟨os', rest'⟩, hos, -, rfl⟩ := h
    rw [length_of_popOperand ho, ih hos, List.map_cons, List.sum_cons]
    omega

theorem length_of_popWords {whole : Bool} {count : Count} {words : List Word} {stack rest : Stack}
    (h : popWords whole count stack = some (words, rest)) : stack.length = rest.length + count.toNat := by
  unfold popWords at h
  split at h
  all_goals
    simp only [Option.some.injEq, Prod.mk.injEq, reduceCtorEq] at h
    try simp [← h.2, Count.toNat]

/-- A stack instruction finds the words that it moves. -/
theorem wordsPopped_le_of_shuffleWords {how : Shuffle} {count : Count} {before after : Stack}
    (h : shuffleWords how count before = some after) : (Operation.shuffle how count).wordsPopped ≤ before.length := by
  cases how with
  | pop | dup =>
    simp only [shuffleWords, Option.bind_eq_bind, Option.bind_eq_some_iff] at h
    obtain ⟨⟨words, rest⟩, hg, -⟩ := h
    have := length_of_popWords hg
    simp only [Operation.wordsPopped]
    omega
  | dupX1 | dupX2 | swap =>
    simp only [shuffleWords, Option.bind_eq_bind, Option.bind_eq_some_iff] at h
    obtain ⟨⟨words, rest⟩, hg, ⟨words', rest'⟩, hg', -⟩ := h
    have := length_of_popWords hg
    have := length_of_popWords hg'
    simp only [Operation.wordsPopped, Count.toNat] at *
    omega

variable {m : Method} {shares : Bool} {s : State} {depths : Array (Option Nat)} {i : Nat} {op : Operation} {before after : Stack}

/-- An operation that was passed found the words that it pops. -/
theorem Passed.wordsPopped_le (h : Passed m shares s depths i op before after) : op.wordsPopped ≤ before.length := by
  cases h.visit with
  | plain plain performed =>
    have hlen := length_of_popOperands performed.pop
    rw [List.map_reverse, List.sum_reverse] at hlen
    have hwords : op.wordsPopped = (op.takes.map fun wide => if wide then 2 else 1).sum := by
      cases op with
      | shuffle => cases plain
      | _ => rfl
    omega
  | shuffle words => exact wordsPopped_le_of_shuffleWords words
  | line | label | caught => exact Nat.zero_le _

/-- The words that an operation adds to the stack. The label of a handler that is not jumped to pushes the caught exception. -/
def Method.growthAt (m : Method) : Operation → Int
  | .label l => if l ∈ m.handlerLabels ∧ ¬ m.isJumpTarget l then 1 else 0
  | op => op.stackEffect.getD 0

theorem Method.growthAt_of_no_handlers (handlers : m.handlerLabels = []) (op : Operation) : m.growthAt op = op.stackEffect.getD 0 := by
  cases op with
  | label l => simp [growthAt, handlers, Operation.stackEffect]
  | _ => rfl

/-- An operation that leads on adds its words to the stack, where the label of a handler has an entry if the handler is jumped to. -/
theorem Passed.length_after {j : Nat} (h : Passed m shares s depths i op before after)
    (entries : ∀ l, op = .label l → l ∈ m.handlerLabels → ((s.handlerEntry? i).isSome ↔ m.isJumpTarget l))
    (leads : m.Leads i op j) : (after.length : Int) = before.length + m.growthAt op := by
  cases hk : op.stackEffect with
  | some k =>
    have hgrowth : m.growthAt op = k := by
      cases op with
      | label => cases hk
      | _ => simp [Method.growthAt, hk]
    rw [hgrowth]
    exact h.effect k hk
  | none =>
    cases h.visit with
    | plain plain =>
      cases op with
      | throw => exact leads.elim
      | label | unhandled => cases plain
      | shuffle how => cases how <;> cases hk
      | _ => cases hk
    | shuffle => rename_i how _ _; cases how <;> cases hk
    | line => cases hk
    | @label l quiet same =>
      have hnone : ¬ (l ∈ m.handlerLabels ∧ ¬ m.isJumpTarget l) := fun hl => hl.2 ((entries l rfl hl.1).mp (quiet hl.1))
      rw [Method.growthAt, if_neg hnone, same, Int.add_zero]
    | @caught l o handler entry out pushed =>
      have hjump : ¬ m.isJumpTarget l := fun hjump => by
        have hsome := (entries l rfl handler).mpr hjump
        simp [entry] at hsome
      rw [Method.growthAt, if_pos ⟨handler, hjump⟩, pushed, List.length_cons, Int.natCast_succ]

/-! ## Depths -/

/-- What comes along a path comes with the depth of that path. -/
theorem Method.Path.arrived {g : Guide m shares} {t : Traversal State} {d : Int} (h : m.Path i d) (hx : t.Explored g fun _ _ => False)
    (hn : t.tasks = []) (handlers : m.handlerLabels = []) (hi : i < m.code.length) :
    ∃ stack, t.Arrived m shares i stack ∧ (stack.length : Int) = d := by
  induction h with
  | start => exact ⟨[], Traversal.arrived_of_awaited hx hn (Or.inl (Or.inl ⟨rfl, rfl⟩)), rfl⟩
  | step path here leads ih =>
    obtain ⟨stack, ha, hd⟩ := ih (List.getElem?_eq_some_iff.mp here).1
    obtain ⟨after, hp, hnext⟩ := ha.passed hx hn here
    obtain ⟨stack', hlen, ha'⟩ := hnext _ leads hi
    refine ⟨stack', ha', ?_⟩
    rw [hlen, hp.length_after (fun l _ hl => by simp [handlers] at hl) leads, Method.growthAt_of_no_handlers handlers, hd]

/-- In a method without handlers that is lowered, all paths to an operation come there with one depth, and the operation finds the words
that it pops. -/
theorem Method.depths_agree_of_lower {keepLines : Bool} {b : Body} (h : m.lower keepLines = .ok b) (handlers : m.exceptions = []) :
    ∀ i op, m.code[i]? = some op → ∀ d, m.Path i d → (op.wordsPopped : Int) ≤ d ∧ ∀ d', m.Path i d' → d' = d := by
  have hl : m.handlerLabels = [] := by simp [handlerLabels, handlers]
  obtain ⟨t, ht, -⟩ := lower_eq_ok.mp h
  obtain ⟨hx, hn⟩ := Traversal.complete_spec ht (Guide.free_begins m)
  intro i op here d hpath
  -- Whatever comes to the operation comes with the depth that its first visit fixed.
  have fixed : ∀ d, m.Path i d → ∃ n : Nat, t.depths[i]?.join = some n ∧ (n : Int) = d ∧ op.wordsPopped ≤ n := by
    intro d hpath
    obtain ⟨stack, ha, hd⟩ := hpath.arrived hx hn hl (List.getElem?_eq_some_iff.mp here).1
    obtain ⟨after, hp, -⟩ := ha.passed hx hn here
    exact ⟨stack.length, hp.depth, hd, hp.wordsPopped_le⟩
  obtain ⟨n, hdepth, rfl, hle⟩ := fixed d hpath
  refine ⟨Int.ofNat_le.mpr hle, fun d' hpath' => ?_⟩
  obtain ⟨n', hdepth', rfl, -⟩ := fixed d' hpath'
  rw [hdepth, Option.some.injEq] at hdepth'
  rw [hdepth']

theorem Method.depths_agree_countdown :
    (∃ b, countdown.lower false = .ok b) ∧ ∀ d, countdown.Path 4 d → d = 1 := by
  obtain ⟨b, hb⟩ : ∃ b, countdown.lower false = .ok b := exists_ok_of_isOk (by decide +kernel)
  have const : countdown.Path 1 1 := .step .start (show countdown.code[0]? = some (.const (.int 9)) from rfl) rfl
  have store : countdown.Path 2 0 := .step const (show countdown.code[1]? = some (.store .int 0) from rfl) rfl
  have label : countdown.Path 3 0 := .step store (show countdown.code[2]? = some (.label ⟨1⟩) from rfl) rfl
  have path : countdown.Path 4 1 := .step label (show countdown.code[3]? = some (.load .int 0) from rfl) rfl
  exact ⟨⟨b, hb⟩, (depths_agree_of_lower hb rfl 4 _ rfl 1 path).2⟩

end ThreeAddress
