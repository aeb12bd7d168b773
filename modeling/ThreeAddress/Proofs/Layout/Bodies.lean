import ThreeAddress.Proofs.Layout.Positions
import ThreeAddress.Proofs.Traversal.Reached

/-!
# Bodies as they are laid out

`Method.layout` is the plan by which a method is lowered. `Plan.Lays` says what a plan makes a body of, and the lemmas after it where the
statements of a unit and of an entry stand in the body. The edges of a body are those of its statements (`successors_eq`).
-/

namespace ThreeAddress

/-- The plan by which the body of a method is laid out. -/
def Method.layout (m : Method) : Except Fault Layout.Plan := do
  let t ← Traversal.complete (S := State) .pendingFirst m
  let (identities, _) ← Layout.declareIncoming t.state.registers (Layout.incoming m)
  return { method := m, state := t.state, identities := identities.length }

namespace Layout.Plan

open State

variable {p : Plan} {b : Body} {keepLines : Bool} {i k q : Nat} {d : Draft}

/-- The body is made of identities, as many as the plan says, and of what the plan places, finished; its traps are those of the exception
table, and its edges those of its statements. -/
structure Lays (p : Plan) (keepLines : Bool) (b : Body) : Prop where
  stmts : ∃ identities rest, b.stmts = identities ++ rest ∧ identities.length = p.identities ∧
    List.Forall₂ (fun placed located => p.finish placed.insn placed.draft = .ok located.stmt)
      (p.placed (sourceLines p.method keepLines)) rest
  traps : List.Forall₂ (fun e trap => p.trap e = .ok trap) p.method.exceptions b.traps
  edges : b.edges = controlEdges (b.stmts.map (·.stmt))
  /-- Every instruction has its unit. -/
  units : p.state.units.size = p.method.code.length

theorem Lays.lines (h : p.Lays keepLines b) : (sourceLines p.method keepLines).length = p.state.units.size := by
  rw [length_sourceLines, h.units]

/-- What is placed stands in the body behind the identities, finished. -/
theorem Lays.placed (h : p.Lays keepLines b) {x : Placed} (hx : (p.placed (sourceLines p.method keepLines))[k]? = some x) :
    ∃ located, b.stmts[p.identities + k]? = some located ∧ p.finish x.insn x.draft = .ok located.stmt := by
  obtain ⟨identities, rest, hstmts, hlen, hall⟩ := h.stmts
  obtain ⟨hk, rfl⟩ := List.getElem?_eq_some_iff.mp hx
  have hk' : k < rest.length := hall.length_eq ▸ hk
  refine ⟨rest[k], ?_, hall.get hk hk'⟩
  rw [hstmts, List.getElem?_append_right (by omega), hlen, Nat.add_sub_cancel_left, List.getElem?_eq_getElem hk']

/-- The statements of a unit stand in the run of its instruction. -/
theorem Lays.stmt (h : p.Lays keepLines b) (hd : (p.state.unit i)[k]? = some d) :
    ∃ located, b.stmts[p.unitStart i + k]? = some located ∧ p.finish i d = .ok located.stmt := by
  have hi : i < p.state.units.size := lt_of_unit_ne_nil (List.ne_nil_of_mem (List.mem_of_getElem? hd))
  obtain ⟨before, behind, hsplit, hstart⟩ := placedUnits_split h.lines hi
  have hx : (p.placed (sourceLines p.method keepLines))[before.length + k]? =
      some ⟨d, i, (sourceLines p.method keepLines)[i]?.join⟩ := by
    rw [placed_eq, hsplit, List.append_assoc, List.append_assoc]
    exact getElem?_middle (by rw [List.getElem?_map, hd, Option.map_some])
  rw [hstart, Nat.add_assoc]
  exact h.placed hx

/-- The statements of an entry stand behind those of all units: it binds the exception and goes to the label of its handler. -/
theorem Lays.entry (h : p.Lays keepLines b) {e : HandlerEntry} (he : (sortedEntries p.state)[k]? = some e) :
    ∃ caught goes, b.stmts[p.entriesStart + 2 * k]? = some caught ∧ p.finish e.insn (.caught e.operand) = .ok caught.stmt ∧
      b.stmts[p.entriesStart + 2 * k + 1]? = some goes ∧ p.finish e.insn (.goto e.label) = .ok goes.stmt := by
  obtain ⟨before, behind, hsplit, hlen⟩ : ∃ before behind, p.placedEntries (sourceLines p.method keepLines) =
      before ++ [⟨.caught e.operand, e.insn, (sourceLines p.method keepLines)[e.insn]?.join⟩,
        ⟨.goto e.label, e.insn, (sourceLines p.method keepLines)[e.insn]?.join⟩] ++ behind ∧ before.length = 2 * k := by
    refine ⟨_, _, flatMap_split _ he, ?_⟩
    have hk := (List.getElem?_eq_some_iff.mp he).1
    simp [List.length_flatMap, Nat.mul_comm, Nat.le_of_lt hk]
  have piece : ∀ (j : Nat) (x : Placed), [⟨.caught e.operand, e.insn, (sourceLines p.method keepLines)[e.insn]?.join⟩,
        ⟨.goto e.label, e.insn, (sourceLines p.method keepLines)[e.insn]?.join⟩][j]? = some x →
      ∃ located, b.stmts[p.entriesStart + 2 * k + j]? = some located ∧ p.finish x.insn x.draft = .ok located.stmt := by
    intro j x hj
    have hx : (p.placed (sourceLines p.method keepLines))[(p.placedUnits (sourceLines p.method keepLines)).length + (before.length + j)]? =
        some x := by
      rw [placed_eq]
      exact getElem?_middle (hsplit ▸ getElem?_middle hj)
    rw [entriesStart_eq h.lines, Nat.add_assoc, Nat.add_assoc, ← hlen]
    exact h.placed hx
  obtain ⟨caught, hcaught, hfinish⟩ := piece 0 _ rfl
  obtain ⟨goes, hgoes, hfinish'⟩ := piece 1 _ rfl
  exact ⟨caught, goes, hcaught, hfinish, hgoes, hfinish'⟩

/-- A label behind all units names a statement that does nothing. -/
theorem Lays.end (h : p.Lays keepLines b) (hend : p.needsEnd) :
    ∃ located, b.stmts[p.endPosition]? = some located ∧ located.stmt = .nop := by
  have hx : (p.placed (sourceLines p.method keepLines))[(p.placedUnits (sourceLines p.method keepLines) ++
      p.placedEntries (sourceLines p.method keepLines)).length + 0]? = some ⟨.nop, p.method.code.length, none⟩ := by
    rw [placed_eq, placedEnd, if_pos hend, ← List.append_nil [_]]
    exact List.append_assoc .. ▸ getElem?_middle rfl
  obtain ⟨located, hl, hf⟩ := h.placed hx
  refine ⟨located, ?_, (Except.ok.inj hf).symm⟩
  rw [endPosition_eq h.lines]
  exact hl

/-- Where a statement of a body comes from. -/
inductive Origin (p : Plan) (q : Nat) (stmt : Stmt) : Prop where
  | identity (before : q < p.identities)
  | unit {i k : Nat} {d : Draft} (here : (p.state.unit i)[k]? = some d) (position : q = p.unitStart i + k)
      (finish : p.finish i d = .ok stmt)
  /-- The first statement of a handler's entry. -/
  | caught {k : Nat} {e : HandlerEntry} (here : (sortedEntries p.state)[k]? = some e) (position : q = p.entriesStart + 2 * k)
      (finish : p.finish e.insn (.caught e.operand) = .ok stmt)
  /-- The second statement of a handler's entry. -/
  | goes {k : Nat} {e : HandlerEntry} (here : (sortedEntries p.state)[k]? = some e) (position : q = p.entriesStart + 2 * k + 1)
      (finish : p.finish e.insn (.goto e.label) = .ok stmt)
  | end (needed : p.needsEnd) (position : q = p.endPosition) (nothing : stmt = .nop)

/-- What stands in the body behind the identities was placed there. -/
theorem Lays.exists_placed (h : p.Lays keepLines b) {located : Located} (hq : b.stmts[q]? = some located) (hid : p.identities ≤ q) :
    ∃ (n : Nat) (x : Placed), q = p.identities + n ∧ (p.placed (sourceLines p.method keepLines))[n]? = some x ∧
      p.finish x.insn x.draft = .ok located.stmt := by
  obtain ⟨identities, rest, hstmts, hlen, hall⟩ := h.stmts
  obtain ⟨n, rfl⟩ := Nat.exists_eq_add_of_le hid
  rw [hstmts, List.getElem?_append_right (by omega), hlen, Nat.add_sub_cancel_left] at hq
  obtain ⟨hlt, rfl⟩ := List.getElem?_eq_some_iff.mp hq
  exact ⟨n, _, rfl, List.getElem?_eq_getElem (hall.length_eq ▸ hlt), hall.get (hall.length_eq ▸ hlt) hlt⟩

/-- Every statement of a body comes from somewhere. -/
theorem Lays.origin (h : p.Lays keepLines b) {located : Located} (hq : b.stmts[q]? = some located) : p.Origin q located.stmt := by
  by_cases hid : q < p.identities
  · exact .identity hid
  obtain ⟨n, x, rfl, hx, hfinish⟩ := h.exists_placed hq (Nat.le_of_not_lt hid)
  rw [placed_eq, List.getElem?_append, List.getElem?_append] at hx
  split at hx
  · split at hx
    · -- It belongs to a unit.
      obtain ⟨i, ⟨⟨unit, line⟩, j⟩, k, hpiece, hk, rfl⟩ := exists_piece hx
      rw [List.getElem?_zipIdx, Option.map_eq_some_iff] at hpiece
      obtain ⟨⟨unit', line'⟩, hzip, heq⟩ := hpiece
      cases heq
      obtain ⟨hunit, -⟩ := List.getElem?_zip_eq_some.mp hzip
      obtain ⟨d, hd, rfl⟩ : ∃ d, unit[k]? = some d ∧ (⟨d, 0 + i, line⟩ : Placed) = x := by
        simpa only [placedUnit, List.getElem?_map, Option.map_eq_some_iff] using hk
      rw [Nat.zero_add] at hfinish
      refine .unit (k := k) (d := d) ?_ ?_ hfinish
      · rw [State.unit, ← Array.getElem?_toList, hunit]
        exact hd
      · rw [unitStart_eq h.lines, Nat.add_assoc]
    · rename_i hunits
      obtain ⟨k, e, j, hk, hj, heq⟩ := exists_piece hx
      have hlt := (List.getElem?_eq_some_iff.mp hk).1
      have hposition : p.identities + n = p.entriesStart + 2 * k + j := by
        simp [List.length_flatMap, Nat.le_of_lt hlt] at heq
        rw [entriesStart_eq h.lines]
        omega
      obtain _ | _ | j := j
      · cases hj
        exact .caught hk hposition hfinish
      · cases hj
        exact .goes hk hposition hfinish
      · simp at hj
  · rename_i hentries
    unfold placedEnd at hx
    split at hx
    · rename_i hneeded
      obtain ⟨hlt, hget⟩ := List.getElem?_eq_some_iff.mp hx
      simp only [List.length_singleton, Nat.lt_one_iff] at hlt
      simp only [List.getElem_singleton] at hget
      subst hget
      refine .end hneeded ?_ (Except.ok.inj hfinish).symm
      rw [endPosition_eq h.lines]
      omega
    · simp at hx

end Layout.Plan

/-- The body of a method is what its plan makes. -/
theorem Method.lays_of_lower {m : Method} {keepLines : Bool} {b : Body} (h : m.lower keepLines = .ok b) :
    ∃ p t, m.layout = .ok p ∧ p.method = m ∧ Traversal.complete .pendingFirst m = .ok t ∧ p.state = t.state ∧ p.Lays keepLines b := by
  obtain ⟨t, ht, hbody⟩ := lower_eq_ok.mp h
  simp only [Layout.body, bind_eq_ok, pure_eq_ok] at hbody
  obtain ⟨⟨identities, registers⟩, hincoming, rest, hrest, traps, htraps, rfl⟩ := hbody
  refine ⟨⟨m, t.state, identities.length⟩, t, ?_, rfl, ht, rfl, ?_⟩
  · simp only [layout, bind_eq_ok, pure_eq_ok]
    exact ⟨t, ht, (identities, registers), hincoming, rfl⟩
  · refine ⟨⟨identities, rest, rfl, rfl, ?_⟩, mapM_eq_ok.mp htraps, rfl, ?_⟩
    · refine (mapM_eq_ok.mp hrest).imp fun x located hx => ?_
      simp only [bind_eq_ok, pure_eq_ok] at hx
      obtain ⟨stmt, hstmt, rfl⟩ := hx
      exact hstmt
    · exact (Traversal.complete_spec ht (Guide.free_begins m)).1.coherent.units_size

/-- What a method receives is bound by identities of its sources, in order. -/
theorem Layout.identities_of_declareIncoming {received : List Incoming} {rs rs' : Registers} {stmts : List Located}
    (h : declareIncoming rs received = .ok (stmts, rs')) : List.Forall₂ (fun i x => ∃ r, x.stmt = .identity r i.source) received stmts := by
  induction received generalizing rs stmts with
  | nil =>
    simp only [declareIncoming, Except.ok.injEq, Prod.mk.injEq] at h
    obtain ⟨rfl, -⟩ := h
    exact .nil
  | cons i received ih =>
    simp only [declareIncoming, bind_eq_ok, pure_eq_ok, Prod.mk.injEq] at h
    obtain ⟨⟨r, rs₁⟩, -, ⟨rest, rs₂⟩, hrest, rfl, rfl⟩ := h
    exact .cons ⟨r, rfl⟩ (ih hrest)

/-- A body begins with the identities of what the method receives. -/
theorem Method.identities_of_lower {m : Method} {keepLines : Bool} {b : Body} {p : Layout.Plan} (h : m.lower keepLines = .ok b)
    (hp : m.layout = .ok p) : ∃ identities rs rest, Layout.declareIncoming p.state.registers (Layout.incoming m) = .ok (identities, rs) ∧
      identities.length = p.identities ∧ b.stmts = identities ++ rest := by
  obtain ⟨t, ht, hbody⟩ := lower_eq_ok.mp h
  simp only [Layout.body, bind_eq_ok, pure_eq_ok] at hbody
  obtain ⟨⟨identities, rs⟩, hincoming, rest, -, -, -, rfl⟩ := hbody
  simp only [layout, bind_eq_ok, pure_eq_ok] at hp
  obtain ⟨t', ht', ⟨identities', rs'⟩, hincoming', rfl⟩ := hp
  obtain rfl := Except.ok.inj (ht.symm.trans ht')
  obtain ⟨rfl, rfl⟩ := Prod.mk.inj (Except.ok.inj (hincoming.symm.trans hincoming'))
  exact ⟨identities, rs, rest, hincoming, rfl, rfl⟩

/-- The statements in front of all units bind what the method receives. -/
theorem Method.identity_of_lower {m : Method} {keepLines : Bool} {b : Body} {p : Layout.Plan} {q : Nat} {located : Located}
    (h : m.lower keepLines = .ok b) (hp : m.layout = .ok p) (hq : b.stmts[q]? = some located) (hid : q < p.identities) :
    ∃ i ∈ Layout.incoming m, ∃ r, located.stmt = .identity r i.source := by
  obtain ⟨identities, rs, rest, hincoming, hlength, hstmts⟩ := identities_of_lower h hp
  rw [hstmts, List.getElem?_append_left (hlength ▸ hid)] at hq
  exact exists_of_forall₂ (Layout.identities_of_declareIncoming hincoming) (List.mem_of_getElem? hq)

/-- A body has the registers of its plan and of what the method receives. -/
theorem Method.registers_of_lower {m : Method} {keepLines : Bool} {b : Body} {p : Layout.Plan} {identities : List Located} {rs : Registers}
    (h : m.lower keepLines = .ok b) (hp : m.layout = .ok p)
    (hincoming : Layout.declareIncoming p.state.registers (Layout.incoming m) = .ok (identities, rs)) :
    b.registers = rs.ordered ((Layout.incoming m).map (·.slot)) := by
  obtain ⟨t, ht, hbody⟩ := lower_eq_ok.mp h
  simp only [Layout.body, bind_eq_ok, pure_eq_ok] at hbody
  obtain ⟨⟨identities₁, rs₁⟩, hincoming₁, rest, -, -, -, rfl⟩ := hbody
  simp only [layout, bind_eq_ok, pure_eq_ok] at hp
  obtain ⟨t', ht', ⟨identities₂, rs₂⟩, -, rfl⟩ := hp
  obtain rfl := Except.ok.inj (ht.symm.trans ht')
  obtain ⟨rfl, rfl⟩ := Prod.mk.inj (Except.ok.inj (hincoming.symm.trans hincoming₁))
  rfl

/-- What a method receives is its receiver or a parameter. -/
theorem Layout.source_of_mem_incoming {m : Method} {i : Incoming} (h : i ∈ incoming m) :
    (∃ t, i.source = .this t) ∨ ∃ k t, i.source = .parameter k t := by
  have params : ∀ (ts : List ValueType) (k slot : Nat), i ∈ incomingParams k slot ts → ∃ k t, i.source = .parameter k t := by
    intro ts
    induction ts with
    | nil => exact fun _ _ hi => by cases hi
    | cons t ts ih =>
      intro k slot hi
      rcases List.mem_cons.mp hi with rfl | hi
      · exact ⟨k, t, rfl⟩
      · exact ih _ _ hi
  unfold incoming at h
  split at h
  · exact Or.inr (params _ _ _ h)
  · rcases List.mem_cons.mp h with rfl | h
    · exact Or.inl ⟨_, rfl⟩
    · exact Or.inr (params _ _ _ h)

/-! ## Edges -/

theorem controlEdges_eq (stmts : List Stmt) :
    controlEdges stmts = stmts.zipIdx.flatMap fun x => (x.1.followers x.2 stmts.length).map (x.2, ·) :=
  rfl

/-- What a method receives is not a caught exception. -/
theorem Layout.source_ne_caughtException {m : Method} {x : Incoming} (h : x ∈ incoming m) : x.source ≠ .caughtException := by
  rcases source_of_mem_incoming h with ⟨t, hsource⟩ | ⟨k, t, hsource⟩ <;> rw [hsource] <;> exact nofun

/-- The edges that leave a statement lead to its followers. -/
theorem filter_controlEdges {stmts : List Stmt} {stmt : Stmt} {q : Nat} (h : stmts[q]? = some stmt) :
    (controlEdges stmts).filter (·.1 == q) = (stmt.followers q stmts.length).map (q, ·) := by
  have hq : stmts.zipIdx[q]? = some (stmt, q) := by rw [List.getElem?_zipIdx, h, Option.map_some, Nat.zero_add]
  -- The edges of any other statement leave another one.
  have others : ∀ xs : List (Stmt × Nat), (∀ x ∈ xs, x.2 ≠ q) →
      (xs.flatMap fun x => (x.1.followers x.2 stmts.length).map (x.2, ·)).filter (·.1 == q) = [] := by
    intro xs hxs
    rw [List.filter_eq_nil_iff]
    intro edge hedge
    obtain ⟨x, hx, hmem⟩ := List.mem_flatMap.mp hedge
    obtain ⟨t, -, rfl⟩ := List.mem_map.mp hmem
    simpa using hxs x hx
  rw [controlEdges_eq, flatMap_split _ hq, List.filter_append, List.filter_append, others, others, List.nil_append, List.append_nil,
    List.filter_eq_self]
  · intro edge hedge
    obtain ⟨t, -, rfl⟩ := List.mem_map.mp hedge
    exact beq_self_eq_true q
  · intro x hx
    obtain ⟨j, hj⟩ := List.getElem?_of_mem hx
    rw [List.getElem?_drop, List.getElem?_zipIdx] at hj
    obtain ⟨_, -, rfl⟩ := Option.map_eq_some_iff.mp hj
    simp
    omega
  · intro x hx
    obtain ⟨j, hj⟩ := List.getElem?_of_mem hx
    rw [List.getElem?_take, List.getElem?_zipIdx] at hj
    split at hj
    · obtain ⟨_, -, rfl⟩ := Option.map_eq_some_iff.mp hj
      simp
      omega
    · cases hj

/-- The statements to which an edge leads from a statement are its followers. -/
theorem Layout.Plan.Lays.successors_eq {p : Layout.Plan} {keepLines : Bool} {b : Body} {q : Nat} {located : Located}
    (h : p.Lays keepLines b) (hq : b.stmts[q]? = some located) : b.successors q = located.stmt.followers q b.stmts.length := by
  have hstmt : (b.stmts.map (·.stmt))[q]? = some located.stmt := by rw [List.getElem?_map, hq, Option.map_some]
  rw [Body.successors, h.edges, filter_controlEdges hstmt, List.length_map, List.map_map]
  exact List.map_id _

/-! ## A body -/

/-- The body of `sharing`. The exceptions of the handler that is jumped to are bound behind the code. -/
def Method.sharingBody : Body :=
  { signature := "<Sample: void run()>"
    registers := [⟨⟨0⟩, "$stack0", .unknown⟩, ⟨⟨1⟩, "$stack1", .unknown⟩]
    stmts := [.assign (.immediate (.register ⟨0⟩)) (.immediate (.constant .null)), .goto 2, .nop, .throw (.register ⟨0⟩),
      .identity ⟨1⟩ .caughtException, .throw (.register ⟨1⟩), .identity ⟨0⟩ .caughtException, .goto 2, .nop].map (⟨·, none⟩)
    traps := [⟨.object "java.lang.Throwable", 0, 2, 6⟩, ⟨.object "java.lang.Error", 2, 8, 4⟩, ⟨.object "java.lang.Error", 0, 4, 6⟩]
    edges := [(0, 1), (1, 2), (2, 3), (4, 5), (6, 7), (7, 2)] }

theorem Method.lower_sharing : sharing.lower false = .ok sharingBody := by
  decide +kernel

end ThreeAddress
