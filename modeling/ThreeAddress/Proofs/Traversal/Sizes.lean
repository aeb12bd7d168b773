import ThreeAddress.Proofs.Lowering.Rejections
import ThreeAddress.Proofs.Semantics.Carrying
import ThreeAddress.Proofs.Traversal.Depths

/-!
# Sizes

How many words values take, and that operations which work on nothing void change the depth of the stack by their effect. Where words spell
the widths that an operation can be applied to, the operation finds what it consumes.
-/

namespace ThreeAddress

open State

/-! ## Values -/

/-- The words of a value. -/
def wordsOf (wide : Bool) : Nat :=
  if wide then 2 else 1

theorem wordsOf_pos (wide : Bool) : 0 < wordsOf wide := by
  cases wide <;> decide

/-- Nothing that the operation takes from the stack or from a slot, or puts there, is void. -/
def Operation.isVoidFree : Operation → Bool
  | .load kind _ | .store kind _ | .arrayLoad kind | .arrayStore kind | .arithmetic kind _ | .compare kind _ => kind ≠ .void
  | .convert source target => source ≠ .void && target ≠ .void
  | .getStatic field | .putStatic field | .getField field | .putField field => field.type ≠ .void
  | .invoke _ method => !method.signature.params.contains .void
  | .invokeDynamic site => !site.signature.params.contains .void
  | _ => true

theorem Kind.wordsOf_isWide {kind : Kind} (h : kind ≠ .void) : wordsOf kind.isWide = kind.size := by
  cases kind <;> first | rfl | exact absurd rfl h

theorem ValueType.wordsOf_isWide {t : ValueType} (h : t ≠ .void) : wordsOf t.isWide = t.size := by
  cases t <;> first | rfl | exact absurd rfl h

/-- The words of a result; there is none if the type is void. -/
theorem ValueType.wordsOf_result (t : ValueType) : ((if t = .void then none else some t.isWide).map wordsOf).getD 0 = t.size := by
  by_cases hv : t = .void
  · rw [if_pos hv, hv]
    rfl
  · rw [if_neg hv]
    exact wordsOf_isWide hv

theorem Constant.wordsOf_isWide (c : Constant) : wordsOf c.isWide = c.size := rfl

/-- A value that is pushed takes its words. -/
theorem length_pushOperand (o : OperandId) (wide : Bool) (stack : Stack) :
    (pushOperand o wide stack).length = stack.length + wordsOf wide := by
  cases wide <;> rfl

theorem Operation.paramWords_eq {params : List ValueType} (h : .void ∉ params) :
    (params.map fun t => wordsOf t.isWide).sum = paramWords params := by
  induction params with
  | nil => rfl
  | cons t params ih =>
    rw [List.mem_cons, not_or] at h
    rw [List.map_cons, List.sum_cons, ih h.2, ValueType.wordsOf_isWide (Ne.symm h.1)]
    rfl

/-- The effect of a plain operation is what it pushes less what it pops. -/
theorem Operation.stackEffect_eq {op : Operation} {k : Int} (plain : op.isPlain) (free : op.isVoidFree) (hk : op.stackEffect = some k) :
    ((op.pushes.map wordsOf).getD 0 : Int) - (op.takes.map wordsOf).sum = k := by
  have narrow : wordsOf false = 1 := rfl
  cases op with
  | throw | label | unhandled => cases hk
  | shuffle => cases plain
  | load kind | store kind | arrayLoad kind | arrayStore kind | compare kind =>
    have := Kind.wordsOf_isWide (by simpa [isVoidFree] using free : kind ≠ .void)
    simp only [stackEffect, Option.some.injEq] at hk
    simp only [pushes, takes, Kind.takesTwo_eq, Option.map_some, Option.map_none, Option.getD_some, Option.getD_none, List.map_cons,
      List.map_nil, List.sum_cons, List.sum_nil]
    omega
  | convert source target =>
    have hfree : source ≠ .void ∧ target ≠ .void := by simpa [isVoidFree] using free
    have := Kind.wordsOf_isWide hfree.1
    have := Kind.wordsOf_isWide hfree.2
    simp only [stackEffect, Option.some.injEq] at hk
    simp only [pushes, takes, Kind.takesTwo_eq, Option.map_some, Option.getD_some, List.map_cons, List.map_nil, List.sum_cons,
      List.sum_nil]
    omega
  | arithmetic kind op =>
    have := Kind.wordsOf_isWide (by simpa [isVoidFree] using free : kind ≠ .void)
    simp only [stackEffect, Option.some.injEq] at hk
    cases op <;> simp [Arithmetic.isShift] at hk <;> simp [pushes, takes] <;> omega
  | getStatic field | putStatic field | getField field | putField field =>
    have := ValueType.wordsOf_isWide (by simpa [isVoidFree] using free : field.type ≠ .void)
    simp only [stackEffect, Option.some.injEq] at hk
    simp only [pushes, takes, ValueType.takesTwo_eq, Option.map_some, Option.map_none, Option.getD_some, Option.getD_none,
      List.map_cons, List.map_nil, List.sum_cons, List.sum_nil]
    omega
  | invoke kind method =>
    have hparams := paramWords_eq (by simpa [isVoidFree] using free : .void ∉ method.signature.params)
    have hret := method.signature.ret.wordsOf_result
    simp only [stackEffect, Option.some.injEq] at hk
    simp only [pushes, ValueType.takesTwo_eq, hret]
    cases kind with
    | static =>
      simp only [takes, ValueType.takesTwo_eq, List.map_map, Function.comp_def, hparams]
      simpa [InvokeKind.hasReceiver] using hk
    | virtual | interface | special =>
      simp only [takes, ValueType.takesTwo_eq, List.map_cons, List.sum_cons, List.map_map, Function.comp_def, hparams, narrow]
      simp only [InvokeKind.hasReceiver, if_true] at hk
      omega
  | invokeDynamic site =>
    have hparams := paramWords_eq (by simpa [isVoidFree] using free : .void ∉ site.signature.params)
    have hret := site.signature.ret.wordsOf_result
    simp only [stackEffect, Option.some.injEq] at hk
    simp only [pushes, takes, ValueType.takesTwo_eq, hret, List.map_map, Function.comp_def, hparams]
    omega
  | newMultiArray type dims =>
    simp only [stackEffect, Option.some.injEq] at hk
    simp only [pushes, takes, Option.map_some, Option.getD_some, List.map_replicate, List.sum_replicate_nat, narrow, Nat.mul_one]
    omega
  | branch kind count way target => cases count <;> cases hk <;> rfl
  | «return» kind =>
    simp only [stackEffect, Option.some.injEq] at hk
    by_cases hv : kind = .void
    · subst hv
      cases hk
      rfl
    · have := Kind.wordsOf_isWide hv
      simp only [pushes, takes, Kind.takesTwo_eq, Option.map_none, Option.getD_none, List.map_cons, List.map_nil, List.sum_cons,
        List.sum_nil]
      omega
  | const c =>
    have := c.wordsOf_isWide
    simp only [stackEffect, Option.some.injEq] at hk
    simp only [pushes, takes, Constant.takesTwo_eq, Option.map_some, Option.getD_some, List.map_nil, List.sum_nil]
    omega
  | _ =>
    cases hk
    rfl

/-! ## Stacks -/

/-- Words for widths are as many as the widths make up. -/
theorem Spells.length {stack : Stack} {ws : List Bool} (h : Spells id (fun _ _ => True) stack ws) :
    stack.length = (ws.map wordsOf).sum := by
  induction h with
  | nil => rfl
  | narrow width _ _ ih =>
    rw [id] at width
    rw [List.length_cons, List.map_cons, List.sum_cons, ih, width]
    exact Nat.add_comm _ 1
  | wide width _ _ _ ih =>
    rw [id] at width
    rw [List.length_cons, List.length_cons, List.map_cons, List.sum_cons, ih, width]
    exact Nat.add_comm _ 2

/-- Words for widths that an operation can be applied to are all that the operation consumes. -/
theorem Spells.finds {op : Operation} {stack : Stack} {ws ws' : List Bool} (h : Spells id (fun _ _ => True) stack ws)
    (shape : op.reshape ws = .ok ws') : op.finds stack := by
  have plain : op.isPlain → (popOperands op.takes.reverse stack).isSome := by
    intro hp
    simp only [op.reshape_eq_carry, Operation.carry_plain hp, bind_eq_ok] at shape
    obtain ⟨⟨popped, below⟩, hpop, -⟩ := shape
    obtain ⟨os, rest, hos, -⟩ := h.pop hpop
    rw [hos, Option.isSome_some]
  cases op with
  | shuffle how count =>
    obtain ⟨stack', hshuffle, -⟩ := h.rearrange shape
    rw [Operation.finds, hshuffle, Option.isSome_some]
  | line | label => rfl
  | unhandled => cases shape
  | _ => exact plain rfl

/-- Moving words as one moves as many as there are. -/
theorem length_of_popWords_fst {whole : Bool} {count : Count} {words : List Word} {stack rest : Stack}
    (h : popWords whole count stack = some (words, rest)) : words.length = count.toNat := by
  unfold popWords at h
  split at h <;> cases h <;> rfl

/-- Stack instructions change the depth by their effect. -/
theorem length_of_shuffleWords {how : Shuffle} {count : Count} {before after : Stack} (h : shuffleWords how count before = some after)
    {k : Int} (hk : (Operation.shuffle how count).stackEffect = some k) : (after.length : Int) = before.length + k := by
  cases how with
  | pop | dup =>
    simp only [shuffleWords, Option.bind_eq_bind, Option.bind_eq_some_iff, Option.pure_def, Option.some.injEq] at h
    obtain ⟨⟨words, rest⟩, hg, rfl⟩ := h
    have := length_of_popWords hg
    have := length_of_popWords_fst hg
    cases hk
    simp only [List.length_append]
    omega
  | dupX1 | dupX2 | swap =>
    simp only [shuffleWords, Option.bind_eq_bind, Option.bind_eq_some_iff, Option.pure_def, Option.some.injEq] at h
    obtain ⟨⟨words, rest⟩, hg, ⟨words', rest'⟩, hg', rfl⟩ := h
    dsimp only at hg'
    have := length_of_popWords hg
    have := length_of_popWords_fst hg
    have := length_of_popWords hg'
    have := length_of_popWords_fst hg'
    cases hk
    simp only [List.length_append]
    omega

/-- Operations without void change the depth by their effect. -/
theorem Visit.length_effect {m : Method} {shares : Bool} {s : State} {i : Nat} {op : Operation} {before after : Stack}
    (h : Visit m shares i before after s op) (free : op.isVoidFree) {k : Int} (hk : op.stackEffect = some k) :
    (after.length : Int) = before.length + k := by
  cases h with
  | plain plain performed =>
    have heffect := Operation.stackEffect_eq plain free hk
    have hpop := length_of_popOperands performed.pop
    rw [List.map_reverse, List.sum_reverse] at hpop
    have htakes : (op.takes.map fun wide => if wide then 2 else 1) = op.takes.map wordsOf := rfl
    rw [htakes] at hpop
    cases hp : op.pushes with
    | none =>
      rw [(performed.leaves.statement hp).2]
      simp only [hp, Option.map_none, Option.getD_none] at heffect
      omega
    | some wide =>
      obtain ⟨o, -, rfl⟩ := performed.leaves.result wide hp
      rw [hp, Option.map_some, Option.getD_some] at heffect
      rw [length_pushOperand]
      omega
  | shuffle words => exact length_of_shuffleWords words hk
  | line same =>
    cases hk
    simp [same]
  | label | caught => cases hk

end ThreeAddress
