import ThreeAddress.Proofs.Lowering.Frames
import ThreeAddress.Proofs.Lowering.Visits

/-!
# Demands that are met

What an operation demands of an operand depends on what it does with it. The base of an instance field or of an array element that is
written and the receiver of a call must be registers; what is thrown or locked must be a constant or in a register of its own. On the first
visit of an operation its operands are made to meet the demands. They meet them ever after (`Meeting`), whatever registers operands get
later on and whatever operands later visits join with those of the first.
-/

namespace ThreeAddress

open State

variable {α : Type}

/-! ## What becomes of operands -/

namespace Ref

/-- The base of an instance field. -/
def fieldBases : Ref α → List α
  | .instanceField base _ => [base]
  | _ => []

/-- The base of an instance field or of an array element. -/
def bases : Ref α → List α
  | .instanceField base _ | .array base _ => [base]
  | _ => []

/-- What is referred to comes from outside: the receiver, a parameter, a caught exception. -/
def isReceived : Ref α → Bool
  | .this _ | .parameter _ _ | .caughtException => true
  | _ => false

end Ref

/-- The receiver of a call. -/
def Invoke.receivers : Invoke α → List α
  | .instance _ base _ _ => [base]
  | _ => []

namespace Rvalue

/-- The base of an instance field that is read, or the receiver of a call. -/
def bases : Rvalue α → List α
  | .ref place => place.fieldBases
  | .expr (.invoke call) => call.receivers
  | _ => []

/-- The value comes from outside. -/
def isReceived : Rvalue α → Bool
  | .ref place => place.isReceived
  | _ => false

end Rvalue

namespace Effect

/-- The operands that must be registers. -/
def bases : Effect α → List α
  | .read place => place.fieldBases
  | .write place _ => place.bases
  | .call c => c.receivers
  | _ => []

/-- What is read or written comes from outside. -/
def isReceived : Effect α → Bool
  | .read place | .write place _ => place.isReceived
  | _ => false

/-- The operands that must be constants or in registers of their own. -/
def owned : Effect α → List α
  | .throw v | .enter v | .exit v => [v]
  | _ => []

end Effect

/-- What is demanded of the operands of an operation is demanded of those of its effect. -/
theorem Operation.demands_of_effect {op : Operation} {xs : List α} {e : Effect α} {R : Demand → α → Prop} (he : op.effect xs = some e)
    (h : List.Forall₂ R op.demands xs) : (∀ o ∈ e.bases, R .register o) ∧ ∀ o ∈ e.owned, R .constant o := by
  have nothing : ∀ {o : α} {P : Prop}, o ∈ ([] : List α) → P := fun ho => by cases ho
  have first : ∀ {ds : List Demand} {ys : List α} {d : Demand} {base o : α}, List.Forall₂ R (d :: ds) (base :: ys) → o ∈ [base] → R d o :=
    fun h ho => by
      rw [List.mem_singleton.mp ho]
      exact (List.forall₂_cons.mp h).1
  revert he h
  fun_cases effect op xs <;> intro he h <;>
    first
    | (cases he <;> exact ⟨fun _ => nothing, fun _ => nothing⟩)
    | (cases he; exact ⟨fun _ => first h, fun _ => nothing⟩)
    | (cases he; exact ⟨fun _ => nothing, fun _ => first h⟩)
    | (obtain ⟨c, -, rfl⟩ := Option.map_eq_some_iff.mp he; exact ⟨fun _ => nothing, fun _ => nothing⟩)

/-- No operation reads or writes what comes from outside. -/
theorem Operation.isReceived_of_effect {op : Operation} {xs : List α} {e : Effect α} (he : op.effect xs = some e) : e.isReceived = false := by
  revert he
  fun_cases effect op xs <;> intro he <;>
    first
    | (cases he <;> rfl)
    | (obtain ⟨c, -, rfl⟩ := Option.map_eq_some_iff.mp he; rfl)

/-- An operation with an effect is plain. -/
theorem Operation.isPlain_of_effect {op : Operation} {xs : List α} {e : Effect α} (he : op.effect xs = some e) : op.isPlain := by
  cases op with
  | shuffle | line | label | unhandled => cases he
  | _ => rfl

/-! ## Operands of a first visit -/

variable {m : Method} {s s' : State} {i : Nat} {op : Operation} {o : OperandId} {u : PUnit}

/-- A plain operation of which nothing is remembered was not visited. -/
theorem State.Stage.of_rows_nil (h : s.Stage m i) (here : m.code[i]? = some op) (plain : op.isPlain) (rows : (s.frame i).rows = []) :
    (s.frame i).out = none ∧ s.unit i = [] := by
  cases h with
  | untouched out _ unit => exact ⟨out, unit⟩
  | result built | statement built =>
    have hrow := built.row
    rw [rows] at hrow
    cases hrow
  | caught here' | shared here' =>
    obtain rfl := Option.some.inj (here.symm.trans here')
    cases plain

namespace Lowering

/-- On its first visit a plain operation takes operands that meet its demands, and they do when it is lowered. -/
theorem met_of_lowerPlain (h : Yields (lowerPlain i op) s u s') (hc : s.Coherent m) (here : m.code[i]? = some op) (plain : op.isPlain)
    (hk : s.StackKnown s.stack) (rows : (s.frame i).rows = []) :
    ∀ row ∈ (s'.frame i).rows, ∃ xs, row = op.row xs ∧ List.Forall₂ (Meets · s') op.demands xs := by
  obtain ⟨hout, hunit⟩ := (hc.stage i (List.getElem?_eq_some_iff.mp here).1).of_rows_nil here plain rows
  simp only [lowerPlain, yields_bind, yields_firstVisit] at h
  obtain ⟨first, t₀, ⟨hfirst, hsame⟩, popped, t, htake, h⟩ := h
  rw [hsame, hfirst] at htake
  obtain ⟨rest, -, hs, hall⟩ := takeAll_spec true htake hc hk
  simp only [hout, hunit, Option.isNone_none, List.isEmpty_nil, Bool.and_self] at hall
  split at h
  · rename_i e heffect
    obtain ⟨-, -, -, hr⟩ := ready_of_takeAll htake hc here hk heffect fun hs : true = false => by cases hs
    have he := (lowerEffect_spec h hr).changes.extends hr.coherent
    intro row hrow
    rcases addsRows_lowerEffect (P := (· = op.row popped.reverse)) rfl t u s' h row hrow with hold | rfl
    · rw [hs.frame, rows] at hold
      cases hold
    · refine ⟨popped.reverse, rfl, ?_⟩
      -- Each operand met its demand when it was taken.
      have hmet : List.Forall₂ (fun want o => Meets want.1 t o) (op.demands.zip op.takes) popped.reverse := by
        rw [← List.forall₂_reverse_iff, List.reverse_reverse]
        exact hall
      have hdemands : (op.demands.zip op.takes).map Prod.fst = op.demands := List.map_fst_zip (Nat.le_of_eq op.length_demands)
      rw [← hdemands, List.forall₂_map_left_iff]
      exact forall₂_of_mem hmet fun want _ o ho h => h.mono he (hr.known o ho)
  · exact absurd h yields_fail

end Lowering

namespace State

/-- The operands of the first visit of every instruction meet its demands. -/
def Meeting (m : Method) (s : State) : Prop :=
  ∀ (i : Nat) (op : Operation) (row : List OperandId), m.code[i]? = some op → (s.frame i).rows.head? = some row →
    ∃ xs, row = op.row xs ∧ List.Forall₂ (Lowering.Meets · s) op.demands xs

/-- Operands that meet the demands of an instruction do so after every visit of any instruction, and those of a first visit are made to. -/
theorem Meeting.visit (h : s.Meeting m) (hc : s.Coherent m) (here : m.code[i]? = some op) (hk : s.StackKnown s.stack)
    (hop : Lowering.Yields (Lowering.lowerOperation m i op) s u s') (hch : Changes m true s s') : s'.Meeting m := by
  have he := hch.extends hc
  intro j op' row here' hrow
  cases hrows : (s.frame j).rows with
  | cons first rows =>
    have hfirst : (s.frame j).rows.head? = some first := by rw [hrows]; rfl
    obtain rfl := Option.some.inj (hrow.symm.trans (he.head_rows hfirst))
    obtain ⟨xs, rfl, hmet⟩ := h j op' _ here' hfirst
    refine ⟨xs, rfl, forall₂_of_mem hmet fun d _ o ho hmeets => hmeets.mono he ?_⟩
    exact hc.rows j _ (List.mem_of_head? hfirst) o (Operation.mem_row.mpr ho)
  | nil =>
    by_cases hji : j = i
    · subst hji
      obtain rfl := Option.some.inj (here.symm.trans here')
      have plain : op.isPlain := by
        -- Nothing else remembers operands.
        cases (hch.coherent hc).stage j (List.getElem?_eq_some_iff.mp here).1 with
        | untouched _ rows | caught _ _ _ _ rows | shared _ _ _ rows => simp [rows] at hrow
        | result built | statement built =>
          obtain rfl := Option.some.inj (here.symm.trans built.here)
          exact Operation.isPlain_of_effect built.effect
      rw [Lowering.lowerOperation_plain m j plain] at hop
      exact Lowering.met_of_lowerPlain hop hc here plain hk hrows row (List.mem_of_head? hrow)
    · rw [Lowering.local_lowerOperation m op s u s' hop j hji, hrows] at hrow
      cases hrow

/-- What an effect needs to be a register is one, and what it needs to own is a constant or in a register. -/
theorem Meeting.of_built {xs : List OperandId} {e : Effect OperandId} (h : s.Meeting m) (hb : s.Built m i op xs e) :
    (∀ o ∈ e.bases, ∃ r, s.content o = .register r) ∧
      ∀ o ∈ e.owned, (∃ c, s.content o = .immediate (.constant c)) ∨ ∃ r, (s.operand o).register = some r := by
  obtain ⟨xs', hrow, hmet⟩ := h i op _ hb.here hb.row
  obtain rfl := Operation.row_inj hrow
  obtain ⟨hbases, howned⟩ := Operation.demands_of_effect hb.effect hmet
  exact ⟨fun o ho => (hbases o ho).content_register, fun o ho => (howned o ho).constant_or_register⟩

/-- A value does not come from outside, and its bases are registers. -/
structure Computes (s : State) (v : Rvalue OperandId) : Prop where
  isReceived : v.isReceived = false
  bases : ∀ o ∈ v.bases, ∃ r, s.content o = .register r

/-- A register or a constant has no bases. -/
theorem Computes.of_isImmediate {v : Rvalue OperandId} (h : v.isImmediate) : s.Computes v := by
  cases v with
  | immediate => exact ⟨rfl, fun _ ho => by cases ho⟩
  | _ => cases h

/-- What an instruction leaves behind is computed. -/
theorem Meeting.computes {xs : List OperandId} {e : Effect OperandId} {slot : Nat → Option RegisterId} {v : Rvalue OperandId}
    (h : s.Meeting m) (hb : s.Built m i op xs e) (hv : e.rvalue? slot = some v) : s.Computes v := by
  have hreceived := Operation.isReceived_of_effect hb.effect
  have hbases := (h.of_built hb).1
  cases e with
  | load k =>
    simp only [Effect.rvalue?, Option.map_eq_some_iff] at hv
    obtain ⟨r, -, rfl⟩ := hv
    exact .of_isImmediate rfl
  | constant c =>
    cases hv
    exact .of_isImmediate rfl
  | operator w =>
    cases hv
    cases w with
    | invoke c => exact absurd rfl (Operation.operator_ne_invoke hb.effect c)
    | _ => exact ⟨rfl, fun _ ho => by cases ho⟩
  | read place =>
    cases hv
    exact ⟨hreceived, hbases⟩
  | call c =>
    cases hv
    exact ⟨rfl, hbases⟩
  | _ => cases hv

/-- What an operand stands for is computed: an exception that was caught is in a register. -/
theorem Coherent.computes_content (hc : s.Coherent m) (h : s.Meeting m) (hk : s.Known o) : s.Computes (s.content o) := by
  cases hr : (s.operand o).register with
  | some r =>
    rw [content_of_register hr]
    exact .of_isImmediate rfl
  | none =>
    rw [content_of_unbound hr]
    rcases hc.owned o hk with hout | ⟨e, he, rfl⟩
    · cases hc.stage _ (hc.owner hk) with
      | untouched out | statement _ _ out | shared _ _ out => simp [hout] at out
      | result built pushes out value =>
        obtain rfl := Option.some.inj (hout.symm.trans out)
        exact h.computes built value
      | caught _ _ _ out _ _ bound =>
        obtain rfl := Option.some.inj (hout.symm.trans out)
        simp [hr] at bound
    · obtain ⟨-, -, -, bound, -⟩ := hc.entry _ e he
      simp [hr] at bound

end State
end ThreeAddress
