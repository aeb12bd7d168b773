import ThreeAddress.Proofs.Layout.Failures
import ThreeAddress.Proofs.Lowering.Framing
import ThreeAddress.Proofs.Traversal.Sizes

/-!
# Stack effects

The number of words that a step of lowering pushes and pops does not depend on the state, so that every success of an operation changes the
depth of the stack by one number, on the first visit and on every later one. Unless the operation works on something void, that number is the
stack effect of the operation: a method is rejected for a stack effect only because of an operation that works on something void.
-/

namespace ThreeAddress

open State

namespace Lowering

variable {α β : Type} {i : Nat} {o : OperandId} {k l n : Int}

/-! ## The depth after a step -/

/-- Every success of a step changes the depth of the stack by a number of words. -/
def Deepens (k : Int) (x : LowerM α) : Prop :=
  Relates (fun s s' => (s'.stack.length : Int) = s.stack.length + k) x

/-- All updates but one of the stack leave the stack alone. -/
theorem overlooks_stack (i : Nat) : Overlooks i fun s s' => s'.stack = s.stack where
  refl _ := rfl
  trans h h' := h'.trans h
  withRegisters _ _ := rfl
  withOperand _ _ := rfl
  bindTo _ _ _ := rfl
  modifyUnit _ _ _ := rfl
  modifyFrame _ _ := rfl

/-- A step that leaves the stack alone leaves its depth. -/
theorem deepens_of_same {x : LowerM α} (h : Relates (fun s s' => s'.stack = s.stack) x) : Deepens 0 x := by
  intro s a s' hx
  rw [h s a s' hx, Int.add_zero]

theorem deepens_pure (a : α) : Deepens 0 (pure a) :=
  deepens_of_same ((overlooks_stack 0).pure a)

theorem deepens_get : Deepens 0 (get : LowerM State) :=
  deepens_of_same (overlooks_stack 0).get

theorem deepens_bind {x : LowerM α} {f : α → LowerM β} (hx : Deepens k x) (hf : ∀ a, Deepens l (f a)) (sum : k + l = n) :
    Deepens n (x >>= f) := by
  intro s b s' h
  obtain ⟨a, t, ha, hb⟩ := yields_bind.mp h
  rw [hf a t b s' hb, hx s a t ha, Int.add_assoc, sum]

/-- A step behind which the stack is left alone. -/
theorem deepens_bind_same {x : LowerM α} {f : α → LowerM β} (hx : Deepens k x) (hf : ∀ a, Deepens 0 (f a)) : Deepens k (x >>= f) :=
  deepens_bind hx hf (Int.add_zero k)

/-- A step that leaves the stack alone before another one. -/
theorem deepens_same_bind {x : LowerM α} {f : α → LowerM β} (hx : Deepens 0 x) (hf : ∀ a, Deepens k (f a)) : Deepens k (x >>= f) :=
  deepens_bind hx hf (Int.zero_add k)

/-- One word is popped before another step. -/
theorem deepens_pop_bind {x : LowerM α} {f : α → LowerM β} (hx : Deepens (-1) x) (hf : ∀ a, Deepens (k + 1) (f a)) :
    Deepens k (x >>= f) :=
  deepens_bind hx hf (by omega)

/-- The words of a list of steps are those of each of them. -/
theorem deepens_mapM {f : α → LowerM β} {words : α → Int} (hf : ∀ a, Deepens (words a) (f a)) (as : List α) :
    Deepens (as.map words).sum (as.mapM f) := by
  induction as with
  | nil => exact deepens_pure []
  | cons a as ih =>
    rw [List.mapM_cons, List.map_cons, List.sum_cons]
    exact deepens_bind (hf a) (fun _ => deepens_bind_same ih fun _ => deepens_pure _) rfl

/-! ## Words and operands -/

theorem deepens_push (wide : Bool) : Deepens (wordsOf wide) (push o wide) := by
  intro s u s' h
  rw [yields_push.mp h, withStack_stack, length_pushOperand, Int.natCast_add]

theorem deepens_pushWords (ws : List Word) (hk : ws.length = k) : Deepens k (pushWords ws) := by
  intro s u s' h
  rw [yields_pushWords.mp h, withStack_stack, List.length_append, List.length_reverse, Int.natCast_add, Int.add_comm, hk]

theorem deepens_take (d : Demand) (wide : Bool) : Deepens (-wordsOf wide) (take i d wide) := by
  have htake : take i d wide = (if wide then popWide i else popNarrow i) >>= fun o => do settle d o; return o := by
    cases wide <;> rfl
  have hpop : Deepens (-wordsOf wide) (if wide then popWide i else popNarrow i) := by
    intro s o s' h
    obtain ⟨rest, hrest, rfl⟩ := yields_pop.mp h
    have hlength := length_of_popOperand hrest
    rw [withStack_stack, wordsOf]
    omega
  rw [htake]
  exact deepens_bind_same hpop fun _ => deepens_bind_same (deepens_of_same ((overlooks_stack 0).settle d)) fun _ => deepens_pure _

/-- One operand that is not wide. -/
theorem deepens_takeOne : Deepens (-1) (take i .immediate false) :=
  deepens_take .immediate false

theorem deepens_popWord : Deepens (-1) (popWord i) := by
  intro s w s' h
  obtain ⟨rest, hstack, rfl⟩ := yields_popWord.mp h
  rw [hstack, withStack_stack, List.length_cons]
  omega

/-- Looking at the top word leaves the stack alone. -/
theorem deepens_peekWord_bind {f : Word → LowerM β} (hf : ∀ w, Deepens k (f w)) : Deepens k (peekWord i >>= f) := by
  refine deepens_same_bind (deepens_of_same fun s w s' h => ?_) hf
  rw [(yields_peekWord.mp h).2]

theorem deepens_secondWord : Deepens (-1) (secondWord i o) := by
  refine deepens_peekWord_bind fun w => ?_
  cases w with
  | wideHalf => exact deepens_bind_same deepens_popWord fun _ => deepens_pure _
  | operand => exact deepens_bind_same deepens_takeOne fun _ => deepens_pure _

theorem deepens_anyWord : Deepens (-1) (anyWord i) := by
  refine deepens_peekWord_bind fun w => ?_
  cases w with
  | wideHalf => exact deepens_popWord
  | operand => exact deepens_bind_same deepens_takeOne fun _ => deepens_pure _

/-! ## Operations -/

/-- A stack instruction pops and pushes what its effect says. -/
theorem deepens_lowerShuffle {how : Shuffle} {count : Count} (hk : (Operation.shuffle how count).stackEffect = some k) :
    Deepens k (lowerShuffle i how count) := by
  have one : ∀ {k : Int} {f : OperandId → LowerM Unit}, (∀ o, Deepens (k + 1) (f o)) → Deepens k (take i .immediate false >>= f) :=
    deepens_pop_bind deepens_takeOne
  have second : ∀ {k : Int} {o : OperandId} {f : Word → LowerM Unit}, (∀ w, Deepens (k + 1) (f w)) → Deepens k (secondWord i o >>= f) :=
    deepens_pop_bind deepens_secondWord
  have other : ∀ {k : Int} {f : Word → LowerM Unit}, (∀ w, Deepens (k + 1) (f w)) → Deepens k (anyWord i >>= f) :=
    deepens_pop_bind deepens_anyWord
  cases how with
  | pop =>
    cases count with
    | one =>
      cases hk
      exact one fun _ => deepens_pure _
    | two =>
      cases hk
      exact one fun _ => other fun _ => deepens_pure _
  | dup =>
    cases count with
    | one =>
      cases hk
      exact one fun _ => deepens_pushWords _ rfl
    | two =>
      cases hk
      exact one fun _ => second fun _ => deepens_pushWords _ rfl
  | dupX1 =>
    cases count with
    | one =>
      cases hk
      exact one fun _ => one fun _ => deepens_pushWords _ rfl
    | two =>
      cases hk
      exact one fun _ => second fun _ => one fun _ => deepens_pushWords _ rfl
  | dupX2 =>
    cases count with
    | one =>
      cases hk
      exact one fun _ => one fun _ => other fun _ => deepens_pushWords _ rfl
    | two =>
      cases hk
      exact one fun _ => second fun _ => one fun _ => other fun _ => deepens_pushWords _ rfl
  | swap =>
    cases hk
    exact one fun _ => one fun _ => deepens_pushWords _ rfl

/-- The operands that are taken are gone from the stack. -/
theorem deepens_takeAll (first : Bool) (wants : List (Demand × Bool)) :
    Deepens (-(wants.map fun want => wordsOf want.2).sum) (takeAll i first wants) := by
  have hsum : (wants.map fun want => -(wordsOf want.2 : Int)).sum = -((wants.map fun want => wordsOf want.2).sum : Nat) := by
    induction wants with
    | nil => rfl
    | cons want wants ih =>
      rw [List.map_cons, List.map_cons, List.sum_cons, List.sum_cons, ih, Int.natCast_add, Int.neg_add]
  rw [← hsum]
  exact deepens_mapM (fun want => deepens_take _ want.2) wants

/-- An effect leaves what it pushes on the stack. -/
theorem deepens_lowerEffect (row : List OperandId) {wide : Option Bool} {e : Effect OperandId}
    (leaves : ∀ b, e.leaves? = some b → wide.isSome = b) : Deepens ((wide.map wordsOf).getD 0 : Nat) (lowerEffect i row wide e) := by
  have same := overlooks_stack i
  have result : ∀ (w : Bool) v, Deepens (wordsOf w) (leaveResult i row (some w) v) := fun w v =>
    deepens_same_bind (deepens_of_same (same.produce row v)) fun _ => deepens_push w
  have statement : ∀ d, Deepens 0 (emit i row d) := fun d => deepens_of_same (same.emit row d)
  have slot : ∀ k, Deepens 0 (slotRegister k) := fun k => deepens_of_same (same.slotRegister k)
  have freeze : Deepens 0 freezeAll := deepens_of_same same.freezeAll
  have readers : ∀ r, Deepens 0 (freezeReadersOf r) := fun r => deepens_of_same same.freezeReadersOf
  cases wide with
  | none =>
    cases e with
    | constant | load | operator | read => cases leaves true rfl
    | call => exact deepens_bind_same (statement _) fun _ => freeze
    | store => exact deepens_same_bind (slot _) fun _ => deepens_bind_same (statement _) fun _ => readers _
    | increment => exact deepens_same_bind (slot _) fun _ => deepens_same_bind (readers _) fun _ => statement _
    | write => exact deepens_bind_same (statement _) fun _ => freeze
    | _ => exact statement _
  | some w =>
    cases e with
    | constant | operator | read => exact result w _
    | load => exact deepens_same_bind (slot _) fun _ => result w _
    | call => exact deepens_bind_same (result w _) fun _ => freeze
    | _ => cases leaves false rfl

/-- A plain operation takes its operands and pushes its result. -/
theorem deepens_lowerPlain (i : Nat) (op : Operation) :
    Deepens (((op.pushes.map wordsOf).getD 0 : Nat) - ((op.takes.map wordsOf).sum : Nat)) (lowerPlain i op) := by
  have hwants : ((op.demands.zip op.takes).reverse.map fun want => wordsOf want.2).sum = (op.takes.map wordsOf).sum := by
    rw [List.map_reverse, List.sum_reverse, ← List.map_snd_zip (Nat.le_of_eq op.length_demands.symm), List.map_map,
      List.map_snd_zip (Nat.le_of_eq op.length_demands.symm)]
    rfl
  have taken : ∀ first, Deepens (-((op.takes.map wordsOf).sum : Nat)) (takeAll i first (op.demands.zip op.takes).reverse) := fun first => by
    rw [← hwants]
    exact deepens_takeAll first _
  refine deepens_same_bind (deepens_bind_same deepens_get fun _ => deepens_pure _) fun first => ?_
  refine deepens_bind (l := ((op.pushes.map wordsOf).getD 0 : Nat)) (taken first) (fun popped => ?_) (by omega)
  cases he : op.effect popped.reverse with
  | none => exact fun s u s' h => absurd h yields_fail
  | some e => exact deepens_lowerEffect _ fun b hb => Operation.isSome_pushes he hb

/-- Unless an operation works on something void, its successes change the depth of the stack by its effect, whatever the state. -/
theorem deepens_lowerOperation (m : Method) {op : Operation} (free : op.isVoidFree) (hk : op.stackEffect = some k) :
    Deepens k (lowerOperation m i op) := by
  by_cases hp : op.isPlain
  · rw [lowerOperation_plain m i hp, ← Operation.stackEffect_eq hp free hk]
    exact deepens_lowerPlain i op
  · cases op with
    | shuffle how count => exact deepens_lowerShuffle hk
    | line =>
      cases hk
      exact deepens_pure _
    | label | unhandled => cases hk
    | _ => exact absurd rfl hp

/-! ## Failures -/

/-- The operation at an index works on something void, and its effect is another than the change of the depth that a fault reports. -/
structure Blames (m : Method) (i : Nat) (expected actual : Int) (op : Operation) : Prop where
  here : m.code[i]? = some op
  void : op.isVoidFree = false
  effect : op.stackEffect = some expected
  differs : actual ≠ expected

/-- An operation that fails the check of its effect works on something void. -/
theorem blames_of_checkEffect {m : Method} {j : Nat} {op : Operation} {s s' : State} {expected actual : Int}
    (here : m.code[j]? = some op) (hop : Yields (lowerOperation m j op) s ⟨⟩ s')
    (h : checkEffect j op s.stack.length s'.stack.length = .error (.stackEffect i expected actual)) :
    Blames m i expected actual op := by
  cases hk : op.stackEffect with
  | none => simp [checkEffect, hk] at h
  | some k =>
    simp only [checkEffect, hk] at h
    split at h
    · cases h
    · rename_i hne
      cases h
      refine ⟨here, Bool.eq_false_iff.mpr fun free => hne ?_, hk, hne⟩
      have := deepens_lowerOperation m free hk s ⟨⟩ s' hop
      omega

end Lowering

namespace Traversal

variable {m : Method} {test : EdgeTest} {i : Nat} {expected actual : Int}

/-- Visiting a method fails for a stack effect because of an operation that works on something void. -/
theorem blames_of_complete (h : complete (S := State) test m = .error (.stackEffect i expected actual)) :
    ∃ op, Lowering.Blames m i expected actual op := by
  rcases error_of_complete h with h | ⟨n, t, task, rest, ha, next, h⟩
  · obtain ⟨l, -, hf⟩ := start_eq_error.mp h
    cases hf
  · have hx := ha.explored (Guide.free_begins m)
    simp only [follow, bind_eq_error] at h
    rcases h with h | ⟨halt, -, h⟩
    · rw [arrive_tasks] at h
      obtain ⟨hg, -⟩ := hx.begin next
      obtain ⟨j, op, s, hs, here, hf | hf | ⟨s', hop, hf⟩⟩ := Lowering.error_of_walk ha.labels h rfl hg hx.size
      · cases hf
      · exact (Lowering.failsBy_lowerOperation hs.coherent here hs.known _ hf).elim
      · exact ⟨op, Lowering.blames_of_checkEffect here hop hf⟩
    · obtain ⟨-, j, -, hf⟩ := offers_eq_error h
      cases hf

end Traversal

namespace Method

open Traversal

/-- A method is rejected for a stack effect because of an operation that works on something void. -/
theorem blames_of_lower {m : Method} {keepLines : Bool} {failure : Failure} {i : Nat} {expected actual : Int}
    (h : m.lower keepLines = .error failure) (hf : failure.fault = .stackEffect i expected actual) :
    ∃ op, Lowering.Blames m i expected actual op := by
  obtain ⟨-, h | ⟨t, ht, h⟩⟩ := lower_eq_error.mp h <;> rw [hf] at h
  · exact blames_of_complete h
  · obtain ⟨hx, -⟩ := complete_spec ht (Guide.free_begins m)
    obtain ⟨n, -, ha, -⟩ := after_of_complete ht
    obtain ⟨k, bound, hf⟩ := Layout.declareIncoming_eq_error (Layout.declareIncoming_of_body hx.coherent hx.settled hx.fit ha.labels h)
    cases hf

/-- In whatever state an operation that works on nothing void is lowered, the depth of the stack changes by its effect. So a method is
rejected for a stack effect only because of an operation that works on something void, and never if it has no such operation. -/
theorem stack_effects_agree (m : Method) :
    (∀ (s s' : State) (i : Nat) (op : Operation) (k : Int), op.isVoidFree → op.stackEffect = some k →
      (Lowering.lowerOperation m i op).run s = .ok ((), s') → (s'.stack.length : Int) = s.stack.length + k) ∧
    (∀ keepLines failure i expected actual, m.lower keepLines = .error failure → failure.fault = .stackEffect i expected actual →
      ∃ op, m.code[i]? = some op ∧ op.isVoidFree = false ∧ op.stackEffect = some expected ∧ actual ≠ expected) ∧
    ((∀ op ∈ m.code, op.isVoidFree) → ∀ keepLines failure, m.lower keepLines = .error failure →
      ∀ i expected actual, failure.fault ≠ .stackEffect i expected actual) := by
  refine ⟨fun s s' i op k free hk h => Lowering.deepens_lowerOperation m free hk s () s' h, ?_, ?_⟩
  · intro keepLines failure i expected actual h hf
    obtain ⟨op, hop⟩ := blames_of_lower h hf
    exact ⟨op, hop.here, hop.void, hop.effect, hop.differs⟩
  · intro free keepLines failure h i expected actual hf
    obtain ⟨op, hop⟩ := blames_of_lower h hf
    exact Bool.noConfusion ((free op (List.mem_of_getElem? hop.here)).symm.trans hop.void)

end Method
end ThreeAddress
