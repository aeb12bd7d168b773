import ThreeAddress.Proofs.Layout.ControlFlow
import ThreeAddress.Proofs.Traversal.Handlers
import ThreeAddress.Proofs.Traversal.Order

/-!
# Where caught exceptions are bound

A statement that binds a caught exception is the first of a handler's own entry, to which no edge leads, or stands at the label of a handler
that is not jumped to. Nothing keeps control from running into such a label from the operation in front of it. It then comes to the statement
without an exception, and with an empty stack.
-/

namespace ThreeAddress

open State Layout

/-- The statement binds a caught exception. -/
def Stmt.bindsCaught : Stmt → Bool
  | .identity _ .caughtException => true
  | _ => false

/-- A body begins at a statement, or an edge leads there. -/
def Body.Entered (b : Body) (q : Nat) : Prop :=
  q = 0 ∨ ∃ q', q ∈ b.successors q'

/-- Control begins at an instruction or goes on to it from the one in front of it. -/
def Method.RunsInto (m : Method) (k : Nat) : Prop :=
  k = 0 ∨ ∃ i op, k = i + 1 ∧ m.Reachable i ∧ m.code[i]? = some op ∧ op.goesOn

variable {m : Method} {s : State} {i j k : Nat} {op : Operation} {d : Draft} {o : OperandId}

/-! ## Units that bind -/

namespace State

/-- A statement that binds an exception is the first of the label of a handler without an entry. -/
theorem Coherent.caught_of_getElem? (hc : s.Coherent m) (hi : i < m.code.length) (hd : (s.unit i)[k]? = some (.caught o)) :
    k = 0 ∧ s.handlerEntry? i = none ∧ ∃ l ∈ m.handlerLabels, m.code[i]? = some (.label l) := by
  generalize hdraft : Draft.caught o = d at hd
  cases hc.drafted hi hd with
  | caught here handler entry => exact ⟨rfl, entry, _, handler, here⟩
  | @statement op xs e d built draft =>
    subst hdraft
    cases e with
    | store | increment =>
      simp only [Effect.draft?, Option.map_eq_some_iff] at draft
      obtain ⟨r, -, heq⟩ := draft
      cases heq
    | _ => cases draft
  | result | nop | copy => cases hdraft

/-- The label of a handler that was visited and has no entry binds an exception. -/
theorem Coherent.unit_of_out {l : Label} (hc : s.Coherent m) (here : m.code[i]? = some (.label l)) (hout : (s.frame i).out = some o) :
    ∃ rest, s.unit i = .caught o :: rest := by
  cases hc.stage i (List.getElem?_eq_some_iff.mp here).1 with
  | untouched out | statement _ _ out | shared _ _ out => simp [hout] at out
  | result built pushes =>
    obtain rfl := Option.some.inj (here.symm.trans built.here)
    cases pushes
  | caught _ _ _ out _ _ _ unit =>
    obtain rfl := Option.some.inj (hout.symm.trans out)
    obtain ⟨rs, hunit, -⟩ := unit
    exact ⟨_, hunit⟩

/-- The label of a handler has an entry if it is jumped to, and otherwise binds the exception itself: control begins there, so that the label
was visited. -/
theorem Coherent.entry_or_binds {l : Label} {shares : Bool} {depths : Array (Option Nat)} {before after : Stack} (hc : s.Coherent m)
    (hs : s.Splits m) (hf : s.EntriesFit m) (hl : l ∈ m.handlerLabels) (hi : m.labelIndex? l = some i)
    (hp : Passed m shares s depths i (.label l) before after) :
    (m.isJumpTarget l ∧ ∃ e ∈ s.handlerEntries, e.label = l) ∨ (¬ m.isJumpTarget l ∧ ∃ o rest, s.unit i = .caught o :: rest) := by
  have hsplit := hs l hl i hi
  cases hp.visit with
  | plain plain => cases plain
  | label quiet same =>
    obtain ⟨e, he⟩ := Option.isSome_iff_exists.mp (quiet hl)
    obtain ⟨hmem, rfl⟩ := mem_of_find_entry he
    have hlabel := (Method.here_of_labelIndex? (hf e hmem).2.2).symm.trans (Method.here_of_labelIndex? hi)
    simp only [Option.some.injEq, Operation.label.injEq] at hlabel
    exact Or.inl ⟨hsplit.mp (quiet hl), e, hmem, hlabel⟩
  | caught handler entry out pushed =>
    refine Or.inr ⟨fun hjump => ?_, _, hc.unit_of_out hp.here out⟩
    have hsome := hsplit.mpr hjump
    simp [entry] at hsome

end State

/-- A statement that binds an exception was a draft that does so. -/
theorem Layout.Plan.exists_caught_of_finish {p : Plan} {stmt : Stmt} (h : p.finish i d = .ok stmt) (hb : stmt.bindsCaught) :
    ∃ o, d = .caught o := by
  unfold Stmt.bindsCaught at hb
  split at hb
  · obtain ⟨o, rfl, -⟩ := caught_of_finish h
    exact ⟨o, rfl⟩
  · cases hb

namespace Layout.Plan

variable {p : Plan} {b : Body} {q q' : Nat}

/-- What is known of the plan of a method whose labels are distinct and whose code control does not leave. -/
structure Tracks (p : Plan) (b : Body) : Prop where
  lays : ∃ keepLines, p.Lays keepLines b
  flow : p.KeepsFlow p.method b
  inside : p.method.StaysInside
  distinct : p.method.LabelsDistinct
  coherent : p.state.Coherent p.method
  splits : p.state.Splits p.method
  fit : p.state.EntriesFit p.method
  identity : ∀ q located, b.stmts[q]? = some located → q < p.identities → ∃ x ∈ incoming p.method, ∃ r, located.stmt = .identity r x.source
  visited : ∀ i op, p.method.Reachable i → p.method.code[i]? = some op →
    ∃ depths before after, Passed p.method true p.state depths i op before after
  reached : ∀ i, p.state.frame i ≠ default → p.method.Reachable i

namespace Tracks

/-- An operation without statements that control can reach goes straight on. -/
theorem quiet (h : p.Tracks b) (hr : p.method.Reachable i) (here : p.method.code[i]? = some op) (hu : p.state.unit i = []) :
    op.goesOn ∧ op.labels = [] := by
  obtain ⟨depths, before, after, hp⟩ := h.visited i op hr here
  exact ⟨hp.visit.goesOn hu, hp.visit.labels_eq_nil hu⟩

theorem not_isTrailing (h : p.Tracks b) (hr : p.method.Reachable i) (hi : i < p.method.code.length) : ¬ p.isTrailing i :=
  Plan.not_isTrailing h.inside (fun _ _ hr here hu => (h.quiet hr here hu).1) hr hi

/-- The first instruction stands behind the identities. -/
theorem entry_zero (h : p.Tracks b) (hne : p.method.code ≠ []) : p.entry 0 = p.identities := by
  have hr : p.method.Reachable 0 := ⟨0, Or.inl rfl, .refl⟩
  rw [entry_of_not_isTrailing (h.not_isTrailing hr (List.length_pos_iff.mpr hne))]
  rfl

/-- Control comes behind an instruction without statements to where it comes before it. -/
theorem entry_succ_of_empty (h : p.Tracks b) (hr : p.method.Reachable i) (hi : i + 1 < p.method.code.length)
    (hu : p.state.unit i = []) : p.entry (i + 1) = p.entry i := by
  have here := List.getElem?_eq_getElem (Nat.lt_of_succ_lt hi)
  have hnext : p.method.Reachable (i + 1) := hr.step here (Method.leads_iff.mpr (Or.inl ⟨(h.quiet hr here hu).1, rfl⟩))
  rw [entry_of_not_isTrailing (h.not_isTrailing hnext hi), entry_of_not_isTrailing (h.not_isTrailing hr (Nat.lt_of_succ_lt hi)),
    unitStart_succ, hu]
  rfl

/-- Only operations that control can reach have statements. -/
theorem reachable_of_unit (h : p.Tracks b) (hu : p.state.unit i ≠ []) : p.method.Reachable i := by
  have hi : i < p.method.code.length := by
    rw [← h.coherent.units_size]
    exact lt_of_unit_ne_nil hu
  by_cases hframe : p.state.frame i = default
  · cases h.coherent.stage i hi with
    | untouched _ _ unit => exact absurd unit hu
    | result _ _ out | caught _ _ _ out =>
      rw [hframe] at out
      cases out
    | statement built =>
      have hrow := built.row
      rw [hframe] at hrow
      cases hrow
    | shared here entry =>
      -- Its label is that of a handler, from which control begins.
      obtain ⟨hmem, rfl⟩ := mem_of_find_entry entry
      obtain ⟨-, hl, hlabel⟩ := h.fit _ hmem
      exact Method.reachable_of_handler hl hlabel
  · exact h.reached i hframe

/-- Control goes on through operations without statements. -/
theorem runsInto_of_empty (h : p.Tracks b) (hr : p.method.Reachable i) (hik : i ≤ k) (hk : k < p.method.code.length)
    (hempty : ∀ j, i ≤ j → j < k → p.state.unit j = []) : i = k ∨ p.method.RunsInto k := by
  obtain ⟨n, rfl⟩ := Nat.exists_eq_add_of_le hik
  have reachable : ∀ n', n' ≤ n → p.method.Reachable (i + n') := by
    intro n' hn
    induction n' with
    | zero => exact hr
    | succ n' ih =>
      have hprev := ih (Nat.le_of_succ_le hn)
      have here := List.getElem?_eq_getElem (show i + n' < p.method.code.length by omega)
      have hgo := (h.quiet hprev here (hempty (i + n') (by omega) (by omega))).1
      exact hprev.step here (Method.leads_iff.mpr (Or.inl ⟨hgo, rfl⟩))
  cases n with
  | zero => exact Or.inl rfl
  | succ n =>
    have hprev := reachable n (Nat.le_succ n)
    have here := List.getElem?_eq_getElem (show i + n < p.method.code.length by omega)
    exact Or.inr (Or.inr ⟨i + n, _, rfl, hprev, here, (h.quiet hprev here (hempty (i + n) (by omega) (by omega))).1⟩)

end Tracks

/-! ## Where edges lead -/

/-- No statement stands behind the end. -/
theorem Origin.le_endPosition {stmt : Stmt} (h : p.Origin q stmt) : q ≤ p.endPosition := by
  have hstart : p.entriesStart ≤ p.endPosition := Nat.le_add_right _ _
  have entry : ∀ {k : Nat} {e : HandlerEntry}, (sortedEntries p.state)[k]? = some e → k < p.state.handlerEntries.length := fun he => by
    rw [← length_sortedEntries]
    exact (List.getElem?_eq_some_iff.mp he).1
  cases h with
  | identity before =>
    have hfirst : p.identities ≤ p.entriesStart := Nat.le_add_right _ _
    omega
  | @unit i k d here position =>
    have hk := (List.getElem?_eq_some_iff.mp here).1
    have hnext := p.unitStart_le_endPosition (i + 1)
    rw [unitStart_succ] at hnext
    omega
  | caught here position | goes here position =>
    have hk := entry here
    unfold endPosition
    omega
  | «end» _ position => exact Nat.le_of_eq position

/-- Where a statement is that an edge leads to, or with which a body begins. -/
inductive Arrival (p : Plan) (q : Nat) : Prop where
  | identity (before : q < p.identities)
  /-- Behind the identities. -/
  | start (position : q = p.identities)
  /-- Behind the first statement of a unit. -/
  | inner {i k : Nat} {d : Draft} (here : (p.state.unit i)[k + 1]? = some d) (position : q = p.unitStart i + (k + 1))
  /-- The second statement of a handler's entry. -/
  | goes {k : Nat} {e : HandlerEntry} (here : (sortedEntries p.state)[k]? = some e) (position : q = p.entriesStart + 2 * k + 1)
  | leads {i j : Nat} {op : Operation} (reachable : p.method.Reachable i) (here : p.method.code[i]? = some op)
      (leads : p.method.Leads i op j) (position : q = p.entry j)
  /-- The label of a handler with an entry. -/
  | handler {j : Nat} {e : HandlerEntry} (mem : e ∈ p.state.handlerEntries) (label : p.method.labelIndex? e.label = some j)
      (position : q = p.entry j)

/-- Edges leave statements. -/
theorem Lays.exists_of_mem_successors {keepLines : Bool} (h : p.Lays keepLines b) (hq : q ∈ b.successors q') :
    ∃ located, b.stmts[q']? = some located := by
  simp only [Body.successors, List.mem_map, List.mem_filter, h.edges, controlEdges_eq, List.mem_flatMap] at hq
  obtain ⟨edge, ⟨⟨x, hx, hedge⟩, hfrom⟩, rfl⟩ := hq
  obtain ⟨t, -, rfl⟩ := hedge
  have hget := List.mem_zipIdx_iff_getElem?.mp hx
  rw [List.getElem?_map, Option.map_eq_some_iff] at hget
  obtain ⟨located, hlocated, -⟩ := hget
  rw [← beq_iff_eq.mp hfrom]
  exact ⟨located, hlocated⟩

namespace Tracks

/-- Where an edge leads. -/
theorem arrival (h : p.Tracks b) (hedge : q ∈ b.successors q') : p.Arrival q := by
  obtain ⟨keepLines, lays⟩ := h.lays
  obtain ⟨located, hq'⟩ := lays.exists_of_mem_successors hedge
  have hsucc := (lays.mem_successors hq').mp hedge
  -- Where a statement names no target, the edge leads to the next one.
  have next : located.stmt.targets = [] → q' + 1 < b.stmts.length ∧ q = q' + 1 := by
    intro hnone
    rcases hsucc with ⟨-, hlt, rfl⟩ | ht
    · exact ⟨hlt, rfl⟩
    · rw [hnone] at ht
      cases ht
  cases lays.origin hq' with
  | identity before =>
    obtain ⟨x, -, r, heq⟩ := h.identity q' located hq' before
    obtain ⟨-, rfl⟩ := next (by rw [heq]; rfl)
    rcases Nat.lt_or_eq_of_le (Nat.succ_le_of_lt before) with hlt | heq
    · exact .identity hlt
    · exact .start heq
  | @unit i k d here position =>
    have hk := (List.getElem?_eq_some_iff.mp here).1
    have hne : p.state.unit i ≠ [] := List.ne_nil_of_length_pos (Nat.zero_lt_of_lt hk)
    by_cases hlast : k + 1 < (p.state.unit i).length
    · have hmem : q' ∈ p.run i := mem_run.mpr ⟨by omega, by omega⟩
      have hmem' : q' + 1 ∈ p.run i := mem_run.mpr ⟨by omega, by omega⟩
      rw [(h.flow.inner i q' located hmem hmem' hq').1] at hedge
      refine .inner (List.getElem?_eq_getElem hlast) ?_
      rw [List.mem_singleton.mp hedge, position]
      omega
    · have hr := h.reachable_of_unit hne
      have hi : i < p.method.code.length := lays.units ▸ lt_of_unit_ne_nil hne
      have hget : (p.run i).getLast? = some q' := getLast?_run.mpr ⟨hne, by omega⟩
      obtain ⟨j, leads, hj⟩ := (h.flow.last i _ q' hr (List.getElem?_eq_getElem hi) hget q).mp hedge
      exact .leads hr (List.getElem?_eq_getElem hi) leads hj
  | caught here position finish =>
    simp only [Plan.finish, bind_eq_ok, pure_eq_ok] at finish
    obtain ⟨r, -, heq⟩ := finish
    obtain ⟨-, rfl⟩ := next (by rw [← heq]; rfl)
    exact .goes here (by rw [position])
  | @goes k e here position finish =>
    obtain ⟨j, line, hlabel, hgoto⟩ := h.flow.handlers k e here
    rw [← position, hq', Option.some.injEq] at hgoto
    subst hgoto
    refine .handler (mem_sortedEntries.mp (List.mem_of_getElem? here)) hlabel ?_
    rcases hsucc with ⟨hfalls, -⟩ | ht
    · cases hfalls
    · exact List.mem_singleton.mp ht
  | «end» _ position nothing =>
    obtain ⟨hlt, rfl⟩ := next (by rw [nothing]; rfl)
    have hend := (lays.origin (List.getElem?_eq_getElem hlt)).le_endPosition
    omega

/-! ## Statements that bind -/

/-- An identity of what a method receives binds no exception. -/
theorem not_bindsCaught_of_identity {x : Incoming} {stmt : Stmt} {r : RegisterId} (hx : x ∈ incoming m)
    (heq : stmt = .identity r x.source) : ¬ stmt.bindsCaught := by
  intro hb
  rw [heq] at hb
  unfold Stmt.bindsCaught at hb
  split at hb
  · rename_i hid
    exact source_ne_caughtException hx (Stmt.identity.inj hid).2
  · cases hb

/-- A body that binds a caught exception has code. -/
theorem code_ne_nil {located : Located} (h : p.Tracks b) (hq : b.stmts[q]? = some located) (hb : located.stmt.bindsCaught) :
    p.method.code ≠ [] := by
  obtain ⟨keepLines, lays⟩ := h.lays
  have entry : ∀ {k : Nat} {e : HandlerEntry}, (sortedEntries p.state)[k]? = some e → p.method.code ≠ [] := fun he => by
    obtain ⟨-, -, hlabel⟩ := h.fit _ (mem_sortedEntries.mp (List.mem_of_getElem? he))
    exact List.ne_nil_of_mem (List.mem_of_getElem? (Method.here_of_labelIndex? hlabel))
  cases lays.origin hq with
  | identity before =>
    obtain ⟨x, hx, r, heq⟩ := h.identity q located hq before
    exact absurd hb (not_bindsCaught_of_identity hx heq)
  | unit here =>
    have hlt := lt_of_unit_ne_nil (List.ne_nil_of_mem (List.mem_of_getElem? here))
    rw [lays.units] at hlt
    exact List.ne_nil_of_length_pos (Nat.zero_lt_of_lt hlt)
  | caught here | goes here => exact entry here
  | «end» _ _ nothing =>
    rw [nothing] at hb
    cases hb

/-- Where a statement binds an exception that an edge leads to, or with which the body begins, control runs into the label of a handler that
is not jumped to. -/
theorem runsInto_of_arrival {located : Located} (h : p.Tracks b) (ha : p.Arrival q) (hq : b.stmts[q]? = some located)
    (hb : located.stmt.bindsCaught) : ∃ k, p.method.PushesCaught k ∧ p.method.RunsInto k ∧ q = p.entry k := by
  obtain ⟨keepLines, lays⟩ := h.lays
  have hne := h.code_ne_nil hq hb
  -- What binds an exception in a unit is its first statement.
  have unit : ∀ {i k : Nat} {d : Draft}, (p.state.unit i)[k]? = some d → q = p.unitStart i + k →
      k = 0 ∧ p.state.handlerEntry? i = none ∧ ∃ l ∈ p.method.handlerLabels, p.method.code[i]? = some (.label l) := by
    intro i k d here position
    obtain ⟨located', hl, hfinish⟩ := lays.stmt here
    rw [← position, hq, Option.some.injEq] at hl
    subst hl
    obtain ⟨o, rfl⟩ := exists_caught_of_finish hfinish hb
    exact h.coherent.caught_of_getElem? (lays.units ▸ lt_of_unit_ne_nil (List.ne_nil_of_mem (List.mem_of_getElem? here))) here
  -- What control comes to is the first unit at or behind it that is not empty.
  have entry : ∀ j, p.method.Reachable j → j < p.method.code.length → q = p.entry j →
      (∀ l, p.method.code[j]? = some (.label l) → p.state.handlerEntry? j = none → l ∈ p.method.handlerLabels →
        p.method.isJumpTarget l ∨ p.method.RunsInto j) →
      ∃ k, p.method.PushesCaught k ∧ p.method.RunsInto k ∧ q = p.entry k := by
    intro j hr hj hposition hown
    obtain ⟨k, hjk, hempty, hhead⟩ := exists_run_of_not_isTrailing (h.not_isTrailing hr hj)
    obtain ⟨hunit, hstart⟩ := head?_run.mp hhead
    have hk : k < p.method.code.length := lays.units ▸ lt_of_unit_ne_nil hunit
    have hget := List.getElem?_eq_getElem (List.length_pos_iff.mpr hunit)
    obtain ⟨-, hnone, l, hl, here⟩ := unit hget (by rw [hposition, hstart, Nat.add_zero])
    have hjump : ¬ p.method.isJumpTarget l := fun hjump => by
      have hsome := (h.splits l hl k (h.distinct.labelIndex?.mpr here)).mpr hjump
      simp [hnone] at hsome
    refine ⟨k, ⟨l, hl, here, hjump⟩, ?_, ?_⟩
    · rcases h.runsInto_of_empty hr hjk hk (fun i hji hik => run_eq_nil.mp (hempty i hji hik)) with rfl | hruns
      · exact (hown l here hnone hl).resolve_left hjump
      · exact hruns
    · have htrailing : ¬ p.isTrailing k := fun htrailing => hunit (isTrailing_iff.mp htrailing k (Nat.le_refl k))
      rw [hposition, hstart, entry_of_not_isTrailing htrailing]
  cases ha with
  | identity before =>
    obtain ⟨x, hx, r, heq⟩ := h.identity q located hq before
    exact absurd hb (not_bindsCaught_of_identity hx heq)
  | start position =>
    refine entry 0 ⟨0, Or.inl rfl, .refl⟩ (List.length_pos_iff.mpr hne) ?_ fun _ _ _ _ => Or.inr (Or.inl rfl)
    rw [position, h.entry_zero hne]
  | inner here position => cases (unit here position).1
  | goes here position =>
    obtain ⟨-, goes, -, -, hgoes, hfinish⟩ := lays.entry here
    rw [← position, hq, Option.some.injEq] at hgoes
    subst hgoes
    obtain ⟨o, hcaught⟩ := exists_caught_of_finish hfinish hb
    cases hcaught
  | @leads i j op hr here leads position =>
    refine entry j (hr.step here leads) (h.inside i op j hr here leads) position fun l hlabel hnone hl => ?_
    rcases Method.leads_iff.mp leads with ⟨hgo, rfl⟩ | ⟨l', hl', hj⟩
    · exact Or.inr (Or.inr ⟨i, op, rfl, hr, here, hgo⟩)
    · -- The label is the one that is jumped to.
      have heq := hlabel.symm.trans (Method.here_of_labelIndex? hj)
      simp only [Option.some.injEq, Operation.label.injEq] at heq
      subst heq
      exact Or.inl (Method.isJumpTarget_iff.mpr ⟨op, List.mem_of_getElem? here, hl'⟩)
  | @handler j e mem label position =>
    obtain ⟨hentry, hl, hlabel⟩ := h.fit e mem
    obtain rfl := Option.some.inj (hlabel.symm.trans label)
    have here := Method.here_of_labelIndex? hlabel
    refine entry e.insn (Method.reachable_of_handler hl hlabel) (List.getElem?_eq_some_iff.mp here).1 position fun _ _ hnone _ => ?_
    simp [hentry] at hnone

/-! ## Statements that control comes to -/

/-- The first instruction is entered behind the identities. -/
theorem entered_zero (h : p.Tracks b) (hne : p.method.code ≠ []) : b.Entered (p.entry 0) := by
  obtain ⟨keepLines, lays⟩ := h.lays
  have hr : p.method.Reachable 0 := ⟨0, Or.inl rfl, .refl⟩
  have hlt := lays.unitStart_lt (h.not_isTrailing hr (List.length_pos_iff.mpr hne))
  rw [← entry_of_not_isTrailing (h.not_isTrailing hr (List.length_pos_iff.mpr hne)), h.entry_zero hne] at hlt
  rw [h.entry_zero hne]
  rcases Nat.eq_zero_or_pos p.identities with hzero | hpos
  · exact Or.inl hzero
  · -- The last identity goes on to it.
    have hget := List.getElem?_eq_getElem (show p.identities - 1 < b.stmts.length by omega)
    obtain ⟨x, -, r, heq⟩ := h.identity _ _ hget (by omega)
    refine Or.inr ⟨p.identities - 1, (lays.mem_successors hget).mpr (Or.inl ⟨?_, ?_, ?_⟩)⟩
    · rw [heq]
      rfl
    · omega
    · omega

/-- What an instruction with statements leads to is entered. -/
theorem entered_of_leads (h : p.Tracks b) (hr : p.method.Reachable i) (here : p.method.code[i]? = some op) (leads : p.method.Leads i op j)
    (hu : p.state.unit i ≠ []) : b.Entered (p.entry j) := by
  have hlast : (p.run i).getLast? = some (p.unitStart i + ((p.state.unit i).length - 1)) := by
    have hpos := List.length_pos_iff.mpr hu
    exact getLast?_run.mpr ⟨hu, by omega⟩
  exact Or.inr ⟨_, (h.flow.last i op _ hr here hlast _).mpr ⟨j, leads, rfl⟩⟩

/-- The label of a handler has an entry or binds the exception itself. -/
theorem entry_or_binds {l : Label} (h : p.Tracks b) (hl : l ∈ p.method.handlerLabels) (here : p.method.code[i]? = some (.label l)) :
    (p.method.isJumpTarget l ∧ ∃ e ∈ p.state.handlerEntries, e.label = l) ∨
      (¬ p.method.isJumpTarget l ∧ ∃ o rest, p.state.unit i = .caught o :: rest) := by
  have hlabel := h.distinct.labelIndex?.mpr here
  obtain ⟨depths, before, after, hp⟩ := h.visited i _ (Method.reachable_of_handler hl hlabel) here
  exact h.coherent.entry_or_binds h.splits h.fit hl hlabel hp

/-- An instruction without statements that control can reach is entered. -/
theorem entered_of_empty (h : p.Tracks b) (hr : p.method.Reachable i) (hi : i < p.method.code.length) (hu : p.state.unit i = []) :
    b.Entered (p.entry i) := by
  obtain ⟨root, hroot, hflows⟩ := hr
  induction hflows with
  | refl =>
    rcases hroot with rfl | ⟨x, hx, hlabel⟩
    · exact h.entered_zero (List.ne_nil_of_length_pos hi)
    · rcases h.entry_or_binds (Method.mem_handlerLabels.mpr ⟨x, hx, rfl⟩) (Method.here_of_labelIndex? hlabel) with ⟨-, e, hmem, heq⟩ | ⟨-, o, rest, hunit⟩
      · -- The entry of the handler goes there.
        obtain ⟨keepLines, lays⟩ := h.lays
        obtain ⟨k, hk⟩ := List.getElem?_of_mem (mem_sortedEntries.mpr hmem)
        obtain ⟨j, line, hj, hgoto⟩ := h.flow.handlers k e hk
        rw [heq] at hj
        obtain rfl := Option.some.inj (hlabel.symm.trans hj)
        exact Or.inr ⟨_, (lays.mem_successors hgoto).mpr (Or.inr (List.mem_singleton_self _))⟩
      · simp [hunit] at hu
  | @tail i j hflows hstep ih =>
    obtain ⟨op, here, leads⟩ := hstep
    have hr : p.method.Reachable i := ⟨root, hroot, hflows⟩
    by_cases hempty : p.state.unit i = []
    · obtain ⟨-, hnone⟩ := h.quiet hr here hempty
      rcases Method.leads_iff.mp leads with ⟨-, rfl⟩ | ⟨l, hl, -⟩
      · rw [h.entry_succ_of_empty hr hi hempty]
        exact ih (Nat.lt_of_succ_lt hi) hempty
      · simp [hnone] at hl
    · exact h.entered_of_leads hr here leads hempty

/-- Where control runs into an instruction, its first statement is entered. -/
theorem entered_of_runsInto (h : p.Tracks b) (hruns : p.method.RunsInto k) (hk : k < p.method.code.length) : b.Entered (p.entry k) := by
  rcases hruns with rfl | ⟨i, op, rfl, hr, here, hgo⟩
  · exact h.entered_zero (List.ne_nil_of_length_pos hk)
  · have leads : p.method.Leads i op (i + 1) := Method.leads_iff.mpr (Or.inl ⟨hgo, rfl⟩)
    by_cases hempty : p.state.unit i = []
    · rw [h.entry_succ_of_empty hr hk hempty]
      exact h.entered_of_empty hr (Nat.lt_of_succ_lt hk) hempty
    · exact h.entered_of_leads hr here leads hempty

/-- The label of a handler that is not jumped to binds the exception. -/
theorem binds_of_pushesCaught (h : p.Tracks b) (hk : p.method.PushesCaught k) :
    ∃ located, b.stmts[p.entry k]? = some located ∧ located.stmt.bindsCaught := by
  obtain ⟨keepLines, lays⟩ := h.lays
  obtain ⟨l, hl, here, hjump⟩ := hk
  rcases h.entry_or_binds hl here with ⟨hjump', -⟩ | ⟨-, o, rest, hunit⟩
  · exact absurd hjump' hjump
  · have hget : (p.state.unit k)[0]? = some (.caught o) := by rw [hunit]; rfl
    obtain ⟨located, hlocated, hfinish⟩ := lays.stmt hget
    have htrailing : ¬ p.isTrailing k := fun htrailing => by
      have hempty := isTrailing_iff.mp htrailing k (Nat.le_refl k)
      simp [hunit] at hempty
    refine ⟨located, by rw [entry_of_not_isTrailing htrailing]; exact hlocated, ?_⟩
    simp only [Plan.finish, bind_eq_ok, pure_eq_ok] at hfinish
    obtain ⟨r, -, heq⟩ := hfinish
    rw [← heq]
    rfl

/-- A statement binds an exception and is entered exactly if control runs into the label of a handler that is not jumped to. -/
theorem caught_iff (h : p.Tracks b) :
    (∃ located, b.stmts[q]? = some located ∧ located.stmt.bindsCaught) ∧ b.Entered q ↔
      ∃ k, p.method.PushesCaught k ∧ p.method.RunsInto k ∧ q = p.entry k := by
  constructor
  · rintro ⟨⟨located, hq, hb⟩, rfl | ⟨q', hedge⟩⟩
    · refine h.runsInto_of_arrival ?_ hq hb
      rcases Nat.eq_zero_or_pos p.identities with hzero | hpos
      · exact .start hzero.symm
      · exact .identity hpos
    · exact h.runsInto_of_arrival (h.arrival hedge) hq hb
  · rintro ⟨k, hpushes, hruns, rfl⟩
    have hk : k < p.method.code.length := by
      obtain ⟨l, -, here, -⟩ := hpushes
      exact (List.getElem?_eq_some_iff.mp here).1
    exact ⟨h.binds_of_pushesCaught hpushes, h.entered_of_runsInto hruns hk⟩

end Tracks
end Layout.Plan

/-- The plan of a method that is lowered tracks its body. -/
theorem Method.tracks_of_lower {keepLines : Bool} {b : Body} (h : m.lower keepLines = .ok b) (hd : m.LabelsDistinct) (hin : m.StaysInside) :
    ∃ p, m.layout = .ok p ∧ p.method = m ∧ p.Tracks b := by
  obtain ⟨p, t, hp, rfl, ht, hstate, hl⟩ := lays_of_lower h
  obtain ⟨hx, hn⟩ := Traversal.complete_spec ht (Guide.confined_begins p.method)
  have coherent : p.state.Coherent p.method := hstate ▸ hx.coherent
  have visited : ∀ i op, p.method.Reachable i → p.method.code[i]? = some op →
      ∃ depths before after, Passed p.method true p.state depths i op before after := by
    intro i op hr here
    obtain ⟨before, after, hpassed⟩ := hx.passed hn hr here
    exact ⟨t.depths, before, after, hstate ▸ hpassed⟩
  have flow : p.KeepsFlow p.method b := by
    refine hl.keepsFlow hd hin (fun i op here => ?_) (fun i op hr here hu => ?_)
    · exact (coherent.stage i (List.getElem?_eq_some_iff.mp here).1).flow here
    · obtain ⟨depths, before, after, hpassed⟩ := visited i op hr here
      exact hpassed.visit.goesOn hu
  refine ⟨p, hp, rfl, ?_⟩
  exact
    { lays := ⟨keepLines, hl⟩
      flow := flow
      inside := hin
      distinct := hd
      coherent := coherent
      splits := hstate ▸ Traversal.splits_of_complete ht
      fit := hstate ▸ hx.fit
      identity := fun q located hq hid => identity_of_lower h hp hq hid
      visited := visited
      reached := hstate ▸ hx.sound.2 }

/-- In the body of a method that is lowered, control comes to a statement that binds a caught exception exactly where it runs into the label
of a handler that is not jumped to: the labels of such handlers bind exceptions on every arrival. -/
theorem Method.caught_iff_of_lower {keepLines : Bool} {b : Body} (h : m.lower keepLines = .ok b) (hd : m.LabelsDistinct)
    (hin : m.StaysInside) : ∃ p, m.layout = .ok p ∧ p.KeepsFlow m b ∧
      ∀ q, (∃ located, b.stmts[q]? = some located ∧ located.stmt.bindsCaught) ∧ b.Entered q ↔
        ∃ k, m.PushesCaught k ∧ m.RunsInto k ∧ q = p.entry k := by
  obtain ⟨p, hp, rfl, htracks⟩ := tracks_of_lower h hd hin
  exact ⟨p, hp, htracks.flow, fun q => htracks.caught_iff⟩

/-- No edge leads to a statement that binds a caught exception, if control does not run into the labels of handlers that are not jumped to. -/
theorem Method.caught_not_entered_of_lower {keepLines : Bool} {b : Body} (h : m.lower keepLines = .ok b) (hd : m.LabelsDistinct)
    (hin : m.StaysInside) (apart : ∀ k, m.PushesCaught k → ¬ m.RunsInto k) {q : Nat} {located : Located}
    (hq : b.stmts[q]? = some located) (hb : located.stmt.bindsCaught) : ¬ b.Entered q := by
  intro hentered
  obtain ⟨p, -, rfl, htracks⟩ := tracks_of_lower h hd hin
  obtain ⟨k, hpushes, hruns, -⟩ := htracks.caught_iff.mp ⟨⟨located, hq, hb⟩, hentered⟩
  exact apart k hpushes hruns

/-- A method that runs into the label of a handler that is not jumped to. -/
def Method.runningInto : Method :=
  { className := "Sample", name := "run", signature := { params := [], ret := .void }, isStatic := true, maxLocals := 0, maxStack := 1,
    code := [.label ⟨1⟩, .nop, .label ⟨2⟩, .label ⟨3⟩, .shuffle .pop .one, .return .void]
    exceptions := [⟨⟨1⟩, ⟨2⟩, ⟨3⟩, none⟩], localNames := [] }

example : ((Method.runningInto.lower false).toOption.map fun b => (b.stmts.map (·.stmt.bindsCaught), b.edges)) =
    some ([false, true, false], [(0, 1), (1, 2)]) := by decide +kernel

end ThreeAddress
