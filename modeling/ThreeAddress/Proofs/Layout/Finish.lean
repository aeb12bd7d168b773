import ThreeAddress.Lowering.Layout
import ThreeAddress.Proofs.Layout.Flow
import ThreeAddress.Proofs.Lowering.Settled

/-!
# Finishing statements

Once nothing is left to visit, every statement can be finished: each operand that it demands is a register or a constant, each register
that it defines is there, and each label that it names occurs in the code. The finished statement leads where the unfinished one does.
-/

namespace ThreeAddress

variable {α β ε : Type}

/-! ## Operands that cannot be looked up -/

section
variable {f : α → Except ε β} {e : ε}

theorem Invoke.error_of_mapM {c : Invoke α} (h : c.mapM f = .error e) : ∃ o ∈ c.operands, f o = .error e := by
  cases c with
  | static method args | dynamic site args =>
    simp only [mapM, bind_eq_error, pure_ne_error, and_false, exists_false, or_false] at h
    exact ThreeAddress.error_of_mapM h
  | «instance» kind base method args =>
    simp only [mapM, bind_eq_error, pure_ne_error, and_false, exists_false, or_false] at h
    rcases h with h | ⟨_, -, h⟩
    · obtain ⟨o, ho, h⟩ := ThreeAddress.error_of_mapM h
      exact ⟨o, by simp [operands, ho], h⟩
    · exact ⟨base, by simp [operands], h⟩

theorem Expr.error_of_mapM {v : Expr α} (h : v.mapM f = .error e) : ∃ o ∈ v.operands, f o = .error e := by
  cases v with
  | binary op lhs rhs =>
    simp only [mapM, bind_eq_error, pure_ne_error, and_false, exists_false, or_false] at h
    rcases h with h | ⟨_, -, h⟩
    · exact ⟨lhs, by simp [operands], h⟩
    · exact ⟨rhs, by simp [operands], h⟩
  | negate v | length v | cast v | instanceOf v | newArray _ v =>
    simp only [mapM, bind_eq_error, pure_ne_error, and_false, exists_false, or_false] at h
    exact ⟨v, by simp [operands], h⟩
  | new => exact absurd h pure_ne_error
  | newMultiArray t sizes =>
    simp only [mapM, bind_eq_error, pure_ne_error, and_false, exists_false, or_false] at h
    exact ThreeAddress.error_of_mapM h
  | invoke call =>
    simp only [mapM, bind_eq_error, pure_ne_error, and_false, exists_false, or_false] at h
    exact Invoke.error_of_mapM h

theorem Ref.error_of_mapM {v : Ref α} (h : v.mapM f = .error e) : ∃ o ∈ v.operands, f o = .error e := by
  cases v with
  | instanceField base field =>
    simp only [mapM, bind_eq_error, pure_ne_error, and_false, exists_false, or_false] at h
    exact ⟨base, by simp [operands], h⟩
  | array base index =>
    simp only [mapM, bind_eq_error, pure_ne_error, and_false, exists_false, or_false] at h
    rcases h with h | ⟨_, -, h⟩
    · exact ⟨base, by simp [operands], h⟩
    · exact ⟨index, by simp [operands], h⟩
  | _ => exact absurd h pure_ne_error

theorem Rvalue.error_of_mapM {v : Rvalue α} (h : v.mapM f = .error e) : ∃ o ∈ v.operands, f o = .error e := by
  cases v with
  | immediate i => exact absurd h pure_ne_error
  | expr v =>
    simp only [mapM, bind_eq_error, pure_ne_error, and_false, exists_false, or_false] at h
    exact Expr.error_of_mapM h
  | ref v =>
    simp only [mapM, bind_eq_error, pure_ne_error, and_false, exists_false, or_false] at h
    exact Ref.error_of_mapM h

end

/-! ## Statements that fit a state -/

namespace State

variable {m : Method} {s : State} {i : Nat} {op : Operation} {d : Draft} {o : OperandId}

/-- What the state must know of the operands of a statement for the statement to be finished. -/
def Fits (s : State) : Draft → Prop
  | .caught o => (s.operand o).register.isSome
  | .define o => (s.operand o).register.isSome ∧ ∀ q ∈ (s.operand o).value.operands, (s.content q).isImmediate
  | .copy _ o => ∀ q ∈ (s.content o).operands, (s.content q).isImmediate
  | d => ∀ o ∈ d.demanded, (s.content o).isImmediate

/-- What an operand stands for needs only operands that need no evaluation. -/
theorem Coherent.operands_content (h : s.Coherent m) (hk : s.Known o) : ∀ q ∈ (s.content o).operands, (s.content q).isImmediate := by
  intro q hq
  cases hr : (s.operand o).register with
  | some r =>
    rw [content_of_register hr] at hq
    cases hq
  | none =>
    rw [content_of_unbound hr] at hq
    exact (h.operands o hk q hq).2

/-- Every statement of a coherent and settled state fits it. -/
theorem Coherent.fits (h : s.Coherent m) (hs : s.Settled) (hi : i < m.code.length) (hd : d ∈ s.unit i) : s.Fits d := by
  obtain ⟨k, hw⟩ := h.exists_drafted hi hd
  cases hw with
  | result built out value bound => exact ⟨bound, fun q hq => (h.operands _ (h.out i _ out).1 q hq).2⟩
  | @statement op xs e d built draft =>
    have demanded := hs i d hd
    cases e with
    | store k v =>
      simp only [Effect.draft?, Option.map_eq_some_iff] at draft
      obtain ⟨r, -, rfl⟩ := draft
      exact h.operands_content (h.known_of_built built (List.mem_singleton_self v))
    | increment k amount =>
      simp only [Effect.draft?, Option.map_eq_some_iff] at draft
      obtain ⟨r, -, rfl⟩ := draft
      exact fun o ho => (demanded o ho).2
    | constant | load | operator | read => cases draft
    | _ =>
      simp only [Effect.draft?, Option.some.injEq] at draft
      subst draft
      exact fun o ho => (demanded o ho).2
  | caught _ _ _ _ bound => exact bound
  | nop => exact fun o ho => (by cases ho)
  | copy known => exact h.operands_content known

end State

/-! ## Finished statements -/

/-- The targets of a statement, in the order in which it names them. -/
def Stmt.targets : Stmt → List Nat
  | .branch _ target | .goto target => [target]
  | .switch _ _ targets default => targets ++ [default]
  | _ => []

theorem Stmt.mem_branchTargets {stmt : Stmt} {t : Nat} : t ∈ stmt.branchTargets ↔ t ∈ stmt.targets := by
  cases stmt <;> simp [branchTargets, targets]

/-- The statements that control does not pass: it goes to their targets, or leaves the method. -/
inductive Stmt.Diverts : Stmt → Prop where
  | goto (target : Nat) : Diverts (.goto target)
  | switch (key : Immediate) (keys : SwitchKeys) (targets : List Nat) (default : Nat) : Diverts (.switch key keys targets default)
  | return (value : Immediate) : Diverts (.return value)
  | returnVoid : Diverts .returnVoid
  | throw (value : Immediate) : Diverts (.throw value)

theorem Stmt.fallsThrough_iff {stmt : Stmt} : stmt.fallsThrough ↔ ¬ stmt.Diverts := by
  cases stmt with
  | goto | «switch» | «return» | returnVoid | throw => exact iff_of_false Bool.false_ne_true fun h => h (by constructor)
  | _ => exact iff_of_true rfl fun h => by cases h

namespace Layout.Plan

open State

variable {p : Plan} {i : Nat} {d : Draft} {stmt : Stmt} {f : Fault} {o : OperandId}

/-- An operand that is finished stands for what it is finished as. -/
theorem content_of_immediate {x : Immediate} (h : p.immediate i o = .ok x) : p.state.content o = .immediate x := by
  unfold immediate at h
  split at h
  · rename_i y hy
    cases h
    exact hy
  · cases h

theorem immediate_ne_error (h : (p.state.content o).isImmediate) : p.immediate i o ≠ .error f := by
  intro he
  unfold immediate at he
  split at he
  · cases he
  · rename_i hne
    cases hv : p.state.content o with
    | immediate v => exact hne v hv
    | _ => simp [hv, Rvalue.isImmediate] at h

theorem register_ne_error (h : (p.state.operand o).register.isSome) : p.register i o ≠ .error f := by
  obtain ⟨r, hr⟩ := Option.isSome_iff_exists.mp h
  simp [register, content_of_register hr, Rvalue.asRegister?, Rvalue.register]

theorem value_ne_error {v : Rvalue OperandId} (h : ∀ q ∈ v.operands, (p.state.content q).isImmediate) : p.value i v ≠ .error f := by
  intro he
  obtain ⟨q, hq, he⟩ := Rvalue.error_of_mapM he
  exact immediate_ne_error (h q hq) he

/-- What needs no evaluation has no operands. -/
theorem value_content_ne_error (h : (p.state.content o).isImmediate) : p.value i (p.state.content o) ≠ .error f := by
  refine value_ne_error fun q hq => ?_
  cases hv : p.state.content o with
  | immediate v =>
    rw [hv] at hq
    cases hq
  | _ => simp [hv, Rvalue.isImmediate] at h

/-- A statement that fits the state and whose labels can be looked up can be finished. -/
theorem finish_ne_error (h : p.state.Fits d) (hl : ∀ l ∈ d.labels, ∃ k, p.target l = .ok k) : p.finish i d ≠ .error f := by
  have target : ∀ {l : Label}, l ∈ d.labels → p.target l ≠ .error f := by
    intro l hmem he
    obtain ⟨k, hk⟩ := hl l hmem
    rw [hk] at he
    cases he
  intro he
  cases d with
  | nop | increment | returnVoid => cases he
  | caught o =>
    simp only [finish, bind_eq_error, pure_ne_error, and_false, exists_false, or_false] at he
    exact register_ne_error h he
  | define o =>
    simp only [finish, bind_eq_error, pure_ne_error, and_false, exists_false, or_false] at he
    rcases he with he | ⟨_, -, he⟩
    · exact register_ne_error h.1 he
    · exact value_ne_error h.2 he
  | copy r o =>
    simp only [finish, bind_eq_error, pure_ne_error, and_false, exists_false, or_false] at he
    exact value_ne_error h he
  | write place o =>
    simp only [finish, bind_eq_error, pure_ne_error, and_false, exists_false, or_false] at he
    rcases he with he | ⟨_, -, he⟩
    · obtain ⟨q, hq, he⟩ := Ref.error_of_mapM he
      exact immediate_ne_error (h q (List.mem_append_left _ hq)) he
    · exact value_content_ne_error (h o (List.mem_append_right _ (by simp))) he
  | invoke call =>
    simp only [finish, bind_eq_error, pure_ne_error, and_false, exists_false, or_false] at he
    obtain ⟨q, hq, he⟩ := Invoke.error_of_mapM he
    exact immediate_ne_error (h q hq) he
  | branch way lhs rhs l =>
    simp only [finish, bind_eq_error, pure_ne_error, and_false, exists_false, or_false] at he
    rcases he with he | ⟨_, -, he | ⟨_, -, he⟩⟩
    · refine immediate_ne_error (h lhs ?_) he
      cases rhs <;> simp [Draft.demanded]
    · cases rhs with
      | operand q => exact immediate_ne_error (h q (by simp [Draft.demanded])) he
      | constant c => cases he
    · exact target (by simp [Draft.labels]) he
  | goto l =>
    simp only [finish, bind_eq_error, pure_ne_error, and_false, exists_false, or_false] at he
    exact target (by simp [Draft.labels]) he
  | «switch» key keys targets default =>
    simp only [finish, bind_eq_error, pure_ne_error, and_false, exists_false, or_false] at he
    rcases he with he | ⟨_, -, he | ⟨_, -, he⟩⟩
    · exact immediate_ne_error (h key (by simp [Draft.demanded])) he
    · obtain ⟨l, hmem, he⟩ := error_of_mapM he
      exact target (by simp [Draft.labels, hmem]) he
    · exact target (by simp [Draft.labels]) he
  | «return» o | throw o | enterMonitor o | exitMonitor o =>
    simp only [finish, bind_eq_error, pure_ne_error, and_false, exists_false, or_false] at he
    exact immediate_ne_error (h o (by simp [Draft.demanded])) he

/-- A finished statement leads where it did before, with its labels looked up in order. -/
theorem finish_flow (h : p.finish i d = .ok stmt) :
    stmt.fallsThrough = d.fallsThrough ∧ List.Forall₂ (fun l t => p.target l = .ok t) d.labels stmt.targets := by
  cases d with
  | nop | increment | returnVoid =>
    cases h
    exact ⟨rfl, .nil⟩
  | caught | copy | invoke | «return» | throw | enterMonitor | exitMonitor =>
    simp only [finish, bind_eq_ok, pure_eq_ok] at h
    obtain ⟨_, -, rfl⟩ := h
    exact ⟨rfl, .nil⟩
  | define | write =>
    simp only [finish, bind_eq_ok, pure_eq_ok] at h
    obtain ⟨_, -, _, -, rfl⟩ := h
    exact ⟨rfl, .nil⟩
  | branch way lhs rhs l =>
    simp only [finish, bind_eq_ok, pure_eq_ok] at h
    obtain ⟨_, -, _, -, t, ht, rfl⟩ := h
    exact ⟨rfl, .cons ht .nil⟩
  | goto l =>
    simp only [finish, bind_eq_ok, pure_eq_ok] at h
    obtain ⟨t, ht, rfl⟩ := h
    exact ⟨rfl, .cons ht .nil⟩
  | «switch» key keys targets default =>
    simp only [finish, bind_eq_ok, pure_eq_ok] at h
    obtain ⟨_, -, ts, hts, t, ht, rfl⟩ := h
    exact ⟨rfl, List.rel_append (mapM_eq_ok.mp hts) (.cons ht .nil)⟩

/-- Nothing but a caught exception is bound by a finished statement. -/
theorem caught_of_finish {r : RegisterId} {source : Ref Immediate} (h : p.finish i d = .ok (.identity r source)) :
    ∃ o, d = .caught o ∧ source = .caughtException := by
  cases d with
  | caught o =>
    simp only [finish, bind_eq_ok, pure_eq_ok] at h
    obtain ⟨_, -, heq⟩ := h
    cases heq
    exact ⟨o, rfl, rfl⟩
  | nop | increment | returnVoid => cases h
  | goto | copy | invoke | «return» | throw | enterMonitor | exitMonitor =>
    simp only [finish, bind_eq_ok, pure_eq_ok] at h
    obtain ⟨_, -, heq⟩ := h
    cases heq
  | define | write =>
    simp only [finish, bind_eq_ok, pure_eq_ok] at h
    obtain ⟨_, -, _, -, heq⟩ := h
    cases heq
  | branch | «switch» =>
    simp only [finish, bind_eq_ok, pure_eq_ok] at h
    obtain ⟨_, -, _, -, _, -, heq⟩ := h
    cases heq

end Layout.Plan
end ThreeAddress
