import Mathlib.Data.List.Sigma
import ThreeAddress.Proofs.Layout.ControlFlow
import ThreeAddress.Proofs.Layout.Numbering
import ThreeAddress.Proofs.Semantics.Values

/-!
# Closed bodies

A body speaks of nothing outside: the statements that it names are statements of it, the registers that it names are registers of it, each of
them listed once, and its edges are exactly the ways that its statements go. Statements are named through labels, and a label stands in front
of a statement, if only in front of the one at the end. Registers are named through operands: whatever an operand stands for was numbered
before.
-/

namespace ThreeAddress

open State

/-! ## What statements name -/

/-- The registers and constants that a value names, in order. -/
def Rvalue.immediates : Value → List Immediate
  | .immediate i => [i]
  | .expr e => e.operands
  | .ref r => r.operands

/-- The registers and constants that a statement names, in order. -/
def Stmt.immediates : Stmt → List Immediate
  | .nop | .goto _ | .returnVoid => []
  | .identity r source => .register r :: source.operands
  | .assign lhs rhs => lhs.immediates ++ rhs.immediates
  | .invoke call => call.operands
  | .branch condition _ => [condition.lhs, condition.rhs]
  | .switch key _ _ _ => [key]
  | .return v | .throw v | .enterMonitor v | .exitMonitor v => [v]

/-- A body names nothing that is not part of it, and has the edges of its statements, each once. -/
structure Body.Closed (b : Body) : Prop where
  targets : ∀ located ∈ b.stmts, ∀ t ∈ located.stmt.targets, t < b.stmts.length
  traps : ∀ trap ∈ b.traps, trap.first < b.stmts.length ∧ trap.last < b.stmts.length ∧ trap.handler < b.stmts.length
  /-- No two registers have one number. -/
  registers : (b.registers.map (·.id)).Nodup
  declared : ∀ located ∈ b.stmts, ∀ r, .register r ∈ located.stmt.immediates → ∃ x ∈ b.registers, x.id = r
  distinct : b.edges.Nodup
  edges : ∀ i j, (i, j) ∈ b.edges ↔ ∃ located, b.stmts[i]? = some located ∧
    ((j = i + 1 ∧ j < b.stmts.length ∧ ¬ located.stmt.Diverts) ∨ j ∈ located.stmt.targets)

/-! ## Edges -/

theorem mem_controlEdges {stmts : List Stmt} {i j : Nat} :
    (i, j) ∈ controlEdges stmts ↔ ∃ stmt, stmts[i]? = some stmt ∧ j ∈ stmt.followers i stmts.length := by
  rw [controlEdges_eq, List.mem_flatMap]
  constructor
  · rintro ⟨⟨stmt, i'⟩, hx, hedge⟩
    obtain ⟨j', hj, heq⟩ := List.mem_map.mp hedge
    cases heq
    exact ⟨stmt, List.mem_zipIdx_iff_getElem?.mp hx, hj⟩
  · rintro ⟨stmt, hi, hj⟩
    exact ⟨(stmt, i), List.mem_zipIdx_iff_getElem?.mpr hi, List.mem_map_of_mem hj⟩

/-- No edge is listed twice: those of one statement lead elsewhere, those of two leave from elsewhere. -/
theorem nodup_controlEdges (stmts : List Stmt) : (controlEdges stmts).Nodup := by
  rw [controlEdges_eq, List.nodup_flatMap]
  refine ⟨fun x _ => (nodup_eraseDups _).map fun j j' h => (Prod.mk.inj h).2, ?_⟩
  refine (List.pairwise_map.mp (List.nodup_zipIdx_map_snd stmts)).imp fun {x y} hne => ?_
  intro edge hx hy
  obtain ⟨j, -, rfl⟩ := List.mem_map.mp hx
  obtain ⟨j', -, heq⟩ := List.mem_map.mp hy
  exact hne (Prod.mk.inj heq).1.symm

theorem Stmt.mem_followers {stmt : Stmt} {i j n : Nat} :
    j ∈ stmt.followers i n ↔ (j = i + 1 ∧ j < n ∧ ¬ stmt.Diverts) ∨ j ∈ stmt.targets := by
  rw [followers, List.mem_eraseDups, List.mem_append, ← fallsThrough_iff]
  refine or_congr ?_ mem_branchTargets
  split
  · rename_i h
    rw [List.mem_singleton]
    refine ⟨?_, And.left⟩
    rintro rfl
    exact ⟨rfl, h.2, h.1⟩
  · rename_i h
    refine iff_of_false List.not_mem_nil ?_
    rintro ⟨rfl, hlt, hfalls⟩
    exact h ⟨hfalls, hlt⟩

/-! ## Positions -/

namespace Layout.Plan

variable {p : Plan} {b : Body} {keepLines : Bool} {l : Label} {k : Nat}

/-- A label names a statement of the body. -/
theorem Lays.target_lt (h : p.Lays keepLines b) (ht : p.target l = .ok k) : k < b.stmts.length := by
  unfold target at ht
  split at ht
  · rename_i i hi
    cases ht
    rw [position]
    split
    · rename_i htrailing
      obtain ⟨located, hend, -⟩ := h.end (needsEnd_of_isTrailing htrailing (here_of_lastLabelIndex? hi))
      exact (List.getElem?_eq_some_iff.mp hend).1
    · rename_i htrailing
      exact h.unitStart_lt htrailing
  · cases ht

/-- A statement behind the identities leads to statements of the body. -/
theorem Lays.targets_lt (h : p.Lays keepLines b) {q : Nat} {located : Located} (hq : b.stmts[q]? = some located)
    (hid : p.identities ≤ q) (ht : k ∈ located.stmt.targets) : k < b.stmts.length := by
  have finished : ∀ {i d}, p.finish i d = .ok located.stmt → k < b.stmts.length := by
    intro i d hf
    obtain ⟨l, -, hl⟩ := exists_of_forall₂ (finish_flow hf).2 ht
    exact h.target_lt hl
  cases h.origin hq with
  | identity before => omega
  | unit _ _ finish | caught _ _ finish | goes _ _ finish => exact finished finish
  | «end» _ _ nothing =>
    rw [nothing] at ht
    cases ht

/-- Exceptions go to a statement of the body. -/
theorem Lays.handlerTarget_lt (h : p.Lays keepLines b) (ht : p.handlerTarget l = .ok k) : k < b.stmts.length := by
  cases handles_of_handlerTarget ht with
  | entry here _ position =>
    obtain ⟨caught, -, hcaught, -⟩ := h.entry here
    rw [position]
    exact (List.getElem?_eq_some_iff.mp hcaught).1
  | binds _ _ unit position =>
    obtain ⟨located, hl, -⟩ := h.stmt unit
    rw [position]
    exact (List.getElem?_eq_some_iff.mp hl).1
  | label _ _ position => exact h.target_lt position

/-- A trap names statements of the body. -/
theorem Lays.trap_lt (h : p.Lays keepLines b) {e : ExceptionEntry} {trap : Trap} (ht : p.trap e = .ok trap) :
    trap.first < b.stmts.length ∧ trap.last < b.stmts.length ∧ trap.handler < b.stmts.length := by
  simp only [Plan.trap, bind_eq_ok, pure_eq_ok] at ht
  obtain ⟨handler, hhandler, first, hfirst, last, hlast, rfl⟩ := ht
  exact ⟨h.target_lt hfirst, h.target_lt hlast, h.handlerTarget_lt hhandler⟩

end Layout.Plan

/-! ## Registers -/

/-- The operands that a draft names. -/
def Draft.operands : Draft → List OperandId
  | .caught o | .define o | .copy _ o => [o]
  | d => d.demanded

/-- The registers that a draft names itself. -/
def Draft.registers : Draft → List RegisterId
  | .copy r _ | .increment r _ => [r]
  | _ => []

/-- A draft names operands of the effect that it carries out. -/
theorem Effect.operands_of_draft? {e : Effect OperandId} {slot : Nat → Option RegisterId} {d : Draft} (hd : e.draft? slot = some d) :
    (∀ o ∈ d.operands, o ∈ e.operands) ∧ ∀ r ∈ d.registers, ∃ k, slot k = some r := by
  cases e with
  | store k v =>
    simp only [draft?, Option.map_eq_some_iff] at hd
    obtain ⟨r, hr, rfl⟩ := hd
    refine ⟨fun o ho => ho, fun q hq => ?_⟩
    rw [List.mem_singleton.mp hq]
    exact ⟨k, hr⟩
  | increment k amount =>
    simp only [draft?, Option.map_eq_some_iff] at hd
    obtain ⟨r, hr, rfl⟩ := hd
    refine ⟨fun o ho => (by cases ho), fun q hq => ?_⟩
    rw [List.mem_singleton.mp hq]
    exact ⟨k, hr⟩
  | constant | load | operator | read => cases hd
  | _ =>
    have hdemanded := fun o => mem_of_mem_demanded hd (o := o)
    cases hd
    exact ⟨fun o ho => (hdemanded o ho).1, fun q hq => (by cases hq)⟩

/-- No effect is carried out by evaluating an operand into its register. -/
theorem Effect.draft?_ne_define {e : Effect OperandId} {slot : Nat → Option RegisterId} (o : OperandId) : e.draft? slot ≠ some (.define o) := by
  cases e <;> simp [draft?]

namespace State

variable {m : Method} {s : State} {o : OperandId} {r : RegisterId} {d : Draft} {i : Nat}

/-- A register that an operand stands for was numbered. -/
theorem Coherent.lt_of_content (hc : s.Coherent m) (hk : s.Known o) (h : s.content o = .register r) : r.index < s.registers.all.size := by
  cases hr : (s.operand o).register with
  | some q =>
    rw [content_of_register hr] at h
    cases h
    exact (hc.register o r hr).1
  | none =>
    rw [content_of_unbound hr] at h
    obtain ⟨k, hslot⟩ := hc.slot_of_value hk h
    exact hc.slot_lt k r hslot

/-- A register that what an operand stands for reads was numbered. -/
theorem Coherent.lt_of_reads (hc : s.Coherent m) (h : s.Reads r o) (hk : s.Known o) : r.index < s.registers.all.size := by
  induction h with
  | register content => exact hc.lt_of_content hk content
  | inside operand _ ih => exact ih (Nat.lt_trans (hc.lt_of_mem_operands hk operand) hk)

/-- A draft names operands that exist and registers that were numbered. -/
structure Names (s : State) (d : Draft) : Prop where
  known : ∀ o ∈ d.operands, s.Known o
  lt : ∀ r ∈ d.registers, r.index < s.registers.all.size

/-- Every draft of a coherent state names operands that exist and registers that were numbered. -/
theorem Coherent.names (hc : s.Coherent m) (hi : i < m.code.length) (hd : d ∈ s.unit i) : s.Names d := by
  obtain ⟨k, hw⟩ := hc.exists_drafted hi hd
  cases hw with
  | result _ out | caught _ _ _ out =>
    refine ⟨fun q hq => ?_, fun r hr => (by cases hr)⟩
    rw [List.mem_singleton.mp hq]
    exact (hc.out i _ out).1
  | statement built draft =>
    obtain ⟨hoperands, hregisters⟩ := Effect.operands_of_draft? draft
    refine ⟨fun q hq => hc.known_of_built built (hoperands q hq), fun r hr => ?_⟩
    obtain ⟨k, hslot⟩ := hregisters r hr
    exact hc.slot_lt k r hslot
  | nop => exact ⟨fun q hq => (by cases hq), fun r hr => (by cases hr)⟩
  | copy known _ synthesized =>
    refine ⟨fun q hq => ?_, fun r hr => ?_⟩
    · rw [List.mem_singleton.mp hq]
      exact known
    · rw [List.mem_singleton.mp hr]
      exact synthesized.1

end State

namespace Layout.Plan

variable {m : Method} {p : Plan} {b : Body} {keepLines : Bool} {i q : Nat} {o : OperandId} {r : RegisterId} {d : Draft} {stmt : Stmt}

theorem content_of_finished_register (h : p.register i o = .ok r) : p.state.content o = .register r := by
  unfold register at h
  split at h
  · rename_i y hy
    cases h
    exact Rvalue.asRegister?_eq_some.mp hy
  · cases h

/-- A register that a finished value names is the value itself, or an operand of the value reads it. -/
theorem exists_reads_of_value {v : Rvalue OperandId} {w : Value} (h : p.value i v = .ok w) (hr : .register r ∈ w.immediates) :
    v = .register r ∨ ∃ o ∈ v.operands, p.state.Reads r o := by
  cases v with
  | immediate x =>
    simp only [value, Rvalue.mapM, pure_eq_ok] at h
    subst h
    rw [← List.mem_singleton.mp hr]
    exact Or.inl rfl
  | expr e =>
    simp only [value, Rvalue.mapM, bind_eq_ok, pure_eq_ok] at h
    obtain ⟨e', he, rfl⟩ := h
    obtain ⟨o, ho, hx⟩ := Expr.exists_of_mapM he hr
    exact Or.inr ⟨o, ho, .register (content_of_immediate hx)⟩
  | ref place =>
    simp only [value, Rvalue.mapM, bind_eq_ok, pure_eq_ok] at h
    obtain ⟨place', hplace, rfl⟩ := h
    obtain ⟨o, ho, hx⟩ := Ref.exists_of_mapM hplace hr
    exact Or.inr ⟨o, ho, .register (content_of_immediate hx)⟩

/-- A register that the finished form of what an operand stands for names is one that the operand reads. -/
theorem reads_of_content {w : Value} (h : p.value i (p.state.content o) = .ok w) (hr : .register r ∈ w.immediates) :
    p.state.Reads r o := by
  rcases exists_reads_of_value h hr with hitself | ⟨q, hq, hreads⟩
  · exact .register hitself
  · exact .inside hq hreads

/-- A register that a finished statement names is one that the draft names, one that an operand of the draft reads, or one in the value that
the draft evaluates. -/
theorem named_of_finish (h : p.finish i d = .ok stmt) (hr : .register r ∈ stmt.immediates) :
    r ∈ d.registers ∨ (∃ o ∈ d.operands, p.state.Reads r o) ∨
      ∃ o, d = .define o ∧
        ((p.state.operand o).value = .register r ∨ ∃ q ∈ (p.state.operand o).value.operands, p.state.Reads r q) := by
  have operand : ∀ {o x}, p.immediate i o = .ok x → .register r = x → o ∈ d.operands → ∃ o ∈ d.operands, p.state.Reads r o := by
    rintro o x hx rfl ho
    exact ⟨o, ho, .register (content_of_immediate hx)⟩
  have itself : ∀ {q : RegisterId}, Immediate.register r = .register q → q ∈ d.registers → r ∈ d.registers := by
    rintro q heq hq
    cases heq
    exact hq
  cases d with
  | nop | returnVoid =>
    cases h
    cases hr
  | goto l =>
    simp only [finish, bind_eq_ok, pure_eq_ok] at h
    obtain ⟨_, -, rfl⟩ := h
    cases hr
  | caught o =>
    simp only [finish, bind_eq_ok, pure_eq_ok] at h
    obtain ⟨q, hq, rfl⟩ := h
    cases List.mem_singleton.mp hr
    exact Or.inr (Or.inl ⟨o, List.mem_singleton_self o, .register (content_of_finished_register hq)⟩)
  | define o =>
    simp only [finish, bind_eq_ok, pure_eq_ok] at h
    obtain ⟨q, hq, w, hw, rfl⟩ := h
    rcases List.mem_append.mp hr with hr | hr
    · cases List.mem_singleton.mp hr
      exact Or.inr (Or.inl ⟨o, List.mem_singleton_self o, .register (content_of_finished_register hq)⟩)
    · exact Or.inr (Or.inr ⟨o, rfl, exists_reads_of_value hw hr⟩)
  | copy q o =>
    simp only [finish, bind_eq_ok, pure_eq_ok] at h
    obtain ⟨w, hw, rfl⟩ := h
    rcases List.mem_append.mp hr with hr | hr
    · exact Or.inl (itself (List.mem_singleton.mp hr) (List.mem_singleton_self q))
    · exact Or.inr (Or.inl ⟨o, List.mem_singleton_self o, reads_of_content hw hr⟩)
  | increment q amount =>
    cases h
    have hq : Immediate.register r = .register q := by simpa [Stmt.immediates, Rvalue.immediates, Expr.operands, Rvalue.register] using hr
    exact Or.inl (itself hq (List.mem_singleton_self q))
  | write place o =>
    simp only [finish, bind_eq_ok, pure_eq_ok] at h
    obtain ⟨place', hplace, w, hw, rfl⟩ := h
    refine Or.inr (Or.inl ?_)
    rcases List.mem_append.mp hr with hr | hr
    · obtain ⟨q, hq, hx⟩ := Ref.exists_of_mapM hplace hr
      exact operand hx rfl (List.mem_append_left _ hq)
    · exact ⟨o, List.mem_append_right _ (List.mem_singleton_self o), reads_of_content hw hr⟩
  | invoke call =>
    simp only [finish, bind_eq_ok, pure_eq_ok] at h
    obtain ⟨call', hcall, rfl⟩ := h
    obtain ⟨q, hq, hx⟩ := Invoke.exists_of_mapM hcall hr
    exact Or.inr (Or.inl (operand hx rfl hq))
  | branch way lhs rhs l =>
    simp only [finish, bind_eq_ok, pure_eq_ok] at h
    obtain ⟨x, hx, y, hy, _, -, rfl⟩ := h
    refine Or.inr (Or.inl ?_)
    cases rhs with
    | operand q =>
      rcases List.mem_cons.mp hr with heq | hr
      · exact operand hx heq List.mem_cons_self
      · exact operand hy (List.mem_singleton.mp hr) (List.mem_cons_of_mem _ List.mem_cons_self)
    | constant c =>
      cases hy
      rcases List.mem_cons.mp hr with heq | hr
      · exact operand hx heq List.mem_cons_self
      · cases List.mem_singleton.mp hr
  | «switch» key keys targets default =>
    simp only [finish, bind_eq_ok, pure_eq_ok] at h
    obtain ⟨x, hx, _, -, _, -, rfl⟩ := h
    exact Or.inr (Or.inl (operand hx (List.mem_singleton.mp hr) List.mem_cons_self))
  | «return» o | throw o | enterMonitor o | exitMonitor o =>
    simp only [finish, bind_eq_ok, pure_eq_ok] at h
    obtain ⟨x, hx, rfl⟩ := h
    exact Or.inr (Or.inl (operand hx (List.mem_singleton.mp hr) List.mem_cons_self))

/-- Every register that a finished statement names was numbered. -/
theorem lt_of_finish (hc : p.state.Coherent m) (hn : p.state.Names d) (h : p.finish i d = .ok stmt) (hr : .register r ∈ stmt.immediates) :
    r.index < p.state.registers.all.size := by
  rcases named_of_finish h hr with hitself | ⟨o, ho, hreads⟩ | ⟨o, rfl, hvalue⟩
  · exact hn.lt r hitself
  · exact hc.lt_of_reads hreads (hn.known o ho)
  · have hk := hn.known o (List.mem_singleton_self o)
    rcases hvalue with hitself | ⟨q, hq, hreads⟩
    · obtain ⟨k, hslot⟩ := hc.slot_of_value hk hitself
      exact hc.slot_lt k r hslot
    · exact hc.lt_of_reads hreads (Nat.lt_trans (hc.operands o hk q hq).1 hk)

/-- Every register that a statement behind the identities names was numbered. -/
theorem Lays.lt_of_mem_immediates (h : p.Lays keepLines b) (hc : p.state.Coherent p.method) (hf : p.state.EntriesFit p.method)
    {located : Located} (hq : b.stmts[q]? = some located) (hid : p.identities ≤ q) (hr : .register r ∈ located.stmt.immediates) :
    r.index < p.state.registers.all.size := by
  cases h.origin hq with
  | identity before => omega
  | @unit j k d here position finish =>
    have hj : j < p.method.code.length := h.units ▸ lt_of_unit_ne_nil (List.ne_nil_of_mem (List.mem_of_getElem? here))
    exact lt_of_finish hc (hc.names hj (List.mem_of_getElem? here)) finish hr
  | @caught k e here position finish =>
    have hfind := (hf e (mem_sortedEntries.mp (List.mem_of_getElem? here))).1
    refine lt_of_finish hc ⟨fun o ho => ?_, fun _ hr => (by cases hr)⟩ finish hr
    rw [List.mem_singleton.mp ho]
    exact (hc.entry _ e hfind).1
  | goes here position finish =>
    exact lt_of_finish hc ⟨fun _ ho => (by cases ho), fun _ hr => (by cases hr)⟩ finish hr
  | «end» needed position nothing =>
    rw [nothing] at hr
    cases hr

end Layout.Plan

/-- What a method receives is bound to registers that are numbered. -/
theorem Layout.lt_of_declareIncoming {received : List Incoming} {rs rs' : Registers} {stmts : List Located} (hrs : rs.Apart)
    (h : declareIncoming rs received = .ok (stmts, rs')) :
    ∀ x ∈ stmts, ∀ r source, x.stmt = .identity r source → r.index < rs'.all.size := by
  induction received generalizing rs stmts with
  | nil =>
    simp only [declareIncoming, Except.ok.injEq, Prod.mk.injEq] at h
    obtain ⟨rfl, -⟩ := h
    intro x hx
    cases hx
  | cons i received ih =>
    simp only [declareIncoming, bind_eq_ok, pure_eq_ok, Prod.mk.injEq] at h
    obtain ⟨⟨r, rs₁⟩, hi, ⟨rest, rs₂⟩, hrest, rfl, rfl⟩ := h
    obtain ⟨hrs₁, -, hr⟩ := hrs.declare hi
    intro x hx q source heq
    rcases List.mem_cons.mp hx with rfl | hx
    · cases heq
      exact Nat.lt_of_lt_of_le (hrs₁.lt _ _ hr) (hrs₁.declareIncoming hrest).2.size
    · exact ih hrs₁ hrest x hx q source heq

/-- The body of every method that is lowered is closed. -/
theorem Method.closed_of_lower {m : Method} {keepLines : Bool} {b : Body} (h : m.lower keepLines = .ok b) : b.Closed := by
  obtain ⟨p, t, hp, hmethod, ht, hstate, hlays⟩ := lays_of_lower h
  obtain ⟨identities, rs, rest, hincoming, hlength, hstmts⟩ := identities_of_lower h hp
  have hregisters := registers_of_lower h hp hincoming
  obtain ⟨hx, -⟩ := Traversal.complete_spec ht (Guide.free_begins m)
  have hc : p.state.Coherent p.method := hmethod ▸ hstate ▸ hx.coherent
  have hfit : p.state.EntriesFit p.method := hmethod ▸ hstate ▸ hx.fit
  have apart : p.state.registers.Apart := ⟨hc.slot_lt, hc.slot_inj⟩
  have numbered : rs.Numbered := by
    have hvisited := Traversal.registers_of_complete Registers.numbered_kept ht (.ofMethod m)
    exact Registers.Numbered.declareIncoming (hstate ▸ hvisited) hincoming
  refine
    { targets := fun located hl t ht => ?_
      traps := fun trap htrap => ?_
      registers := hregisters ▸ numbered.nodup_ordered _
      declared := fun located hl r hr => ?_
      distinct := hlays.edges ▸ nodup_controlEdges _
      edges := fun i j => ?_ }
  · obtain ⟨q, hq⟩ := List.getElem?_of_mem hl
    by_cases hid : q < p.identities
    · obtain ⟨i, -, r, heq⟩ := identity_of_lower h hp hq hid
      rw [heq] at ht
      cases ht
    · exact hlays.targets_lt hq (Nat.le_of_not_lt hid) ht
  · obtain ⟨e, -, he⟩ := exists_of_forall₂ hlays.traps htrap
    exact hlays.trap_lt he
  · rw [hregisters, numbered.mem_ordered]
    obtain ⟨q, hq⟩ := List.getElem?_of_mem hl
    by_cases hid : q < p.identities
    · rw [hstmts, List.getElem?_append_left (hlength ▸ hid)] at hq
      have hmem := List.mem_of_getElem? hq
      obtain ⟨i, hi, q', heq⟩ := exists_of_forall₂ (Layout.identities_of_declareIncoming hincoming) hmem
      have hoperands : i.source.operands = [] := by
        rcases Layout.source_of_mem_incoming hi with ⟨t, hsource⟩ | ⟨k, t, hsource⟩ <;> rw [hsource] <;> rfl
      rw [heq, Stmt.immediates, hoperands, List.mem_singleton] at hr
      cases hr
      exact Layout.lt_of_declareIncoming apart hincoming located hmem r i.source heq
    · have hlt := hlays.lt_of_mem_immediates hc hfit hq (Nat.le_of_not_lt hid) hr
      exact Nat.lt_of_lt_of_le hlt (apart.declareIncoming hincoming).2.size
  · rw [hlays.edges, mem_controlEdges, List.length_map]
    simp only [List.getElem?_map, Option.map_eq_some_iff, Stmt.mem_followers]
    constructor
    · rintro ⟨stmt, ⟨located, hi, rfl⟩, hj⟩
      exact ⟨located, hi, hj⟩
    · rintro ⟨located, hi, hj⟩
      exact ⟨located.stmt, ⟨located, hi, rfl⟩, hj⟩

/-- Statement 7 of the body goes to statement 2, which is the edge between them; an exception in the last statement but one goes to a
statement of the body. -/
theorem Method.closed_sharing : sharing.lower false = .ok sharingBody ∧ sharingBody.Closed ∧ (7, 2) ∈ sharingBody.edges ∧
    (7, 8) ∉ sharingBody.edges ∧ 4 < sharingBody.stmts.length := by
  have closed := closed_of_lower lower_sharing
  refine ⟨lower_sharing, closed, ?_, ?_, ?_⟩
  · exact (closed.edges 7 2).mpr ⟨_, rfl, Or.inr (List.mem_singleton_self 2)⟩
  · intro hedge
    obtain ⟨located, hl, hfalls | htarget⟩ := (closed.edges 7 8).mp hedge
    · cases hl
      exact hfalls.2.2 (.goto 2)
    · cases hl
      cases List.mem_singleton.mp htarget
  · exact (closed.traps ⟨.object "java.lang.Error", 2, 8, 4⟩ (by decide)).2.2

end ThreeAddress
