import ThreeAddress.Proofs.Layout.Exceptions

/-!
# Where traps enter

Every exception that is caught goes to a statement that binds it. The label of a handler that is not jumped to binds the exception itself,
which it does because control begins there, so that the label was visited. A handler that is jumped to has an entry of its own behind the
code, which binds the exception and goes on to where the jumps go.
-/

namespace ThreeAddress

open State

namespace Layout.Plan

variable {p : Plan} {b : Body} {keepLines : Bool} {i q t : Nat} {l : Label} {op : Operation} {located : Located}

/-- A trap is that of an entry of the exception table, and enters where the exception is bound. -/
structure Enters (p : Plan) (b : Body) (e : ExceptionEntry) (trap : Trap) : Prop where
  exception : trap.exception = .ofName (e.catchType.getD "java.lang.Throwable")
  first : p.target e.first = .ok trap.first
  last : p.target e.last = .ok trap.last
  binds : ∃ r line, b.stmts[trap.handler]? = some ⟨.identity r .caughtException, line⟩
  /-- If an operation goes to the label of the handler, the next statement goes where the label is, and so does every jump to that label. -/
  goes : (∃ op ∈ p.method.code, e.handler ∈ op.labels) → ∃ q line, b.stmts[trap.handler + 1]? = some ⟨.goto q, line⟩ ∧ p.target e.handler = .ok q ∧
    ∀ i op last located, p.method.code[i]? = some op → (p.run i).getLast? = some last → b.stmts[last]? = some located →
      List.Forall₂ (fun l t => l = e.handler → t = q) op.labels located.stmt.targets

/-- The traps of a body are those of the exception table. -/
structure Catches (p : Plan) (b : Body) : Prop where
  /-- There is one for each entry of the table, in order. -/
  enters : List.Forall₂ (p.Enters b) p.method.exceptions b.traps
  /-- Exceptions that one handler catches go to one statement. -/
  alike : ∀ (k k' : Nat) (e e' : ExceptionEntry) (trap trap' : Trap), p.method.exceptions[k]? = some e →
    p.method.exceptions[k']? = some e' → b.traps[k]? = some trap → b.traps[k']? = some trap' → e.handler = e'.handler →
      trap.handler = trap'.handler
  /-- An operation that names labels and that control can reach has a statement. -/
  jumps : ∀ i op, p.method.Reachable i → p.method.code[i]? = some op → op.labels ≠ [] → p.run i ≠ []

/-- A statement that binds an exception is finished as an identity. -/
theorem identity_of_finish {o : OperandId} {located : Located} (h : p.finish i (.caught o) = .ok located.stmt) :
    ∃ r line, located = ⟨.identity r .caughtException, line⟩ := by
  simp only [finish, bind_eq_ok, pure_eq_ok] at h
  obtain ⟨r, -, hstmt⟩ := h
  exact ⟨r, located.line, by rw [hstmt]⟩

/-- Where an exception goes that a handler catches it is bound. If the handler is jumped to, the statement behind goes where its label is. -/
theorem Lays.binds_of_handles (h : p.Lays keepLines b) (hi : p.method.labelIndex? l = some i)
    (caught : (p.method.isJumpTarget l ∧ ∃ e ∈ p.state.handlerEntries, e.label = l) ∨
      (¬ p.method.isJumpTarget l ∧ ∃ o rest, p.state.unit i = .caught o :: rest)) (ht : p.Handles l t) :
    (∃ r line, b.stmts[t]? = some ⟨.identity r .caughtException, line⟩) ∧
      (p.method.isJumpTarget l → ∃ q line, b.stmts[t + 1]? = some ⟨.goto q, line⟩ ∧ p.target l = .ok q) := by
  cases ht with
  | @entry k e here label position =>
    subst label position
    obtain ⟨binds, goes, hbinds, hfinish, hgoes, hfinish'⟩ := h.entry here
    obtain ⟨r, line, rfl⟩ := identity_of_finish hfinish
    refine ⟨⟨r, line, hbinds⟩, fun _ => ?_⟩
    simp only [finish, bind_eq_ok, pure_eq_ok] at hfinish'
    obtain ⟨q, hq, hstmt⟩ := hfinish'
    exact ⟨q, goes.line, by rw [hgoes, hstmt], hq⟩
  | @binds i' o none here unit position =>
    subst position
    obtain ⟨binds, hbinds, hfinish⟩ := h.stmt unit
    obtain ⟨r, line, rfl⟩ := identity_of_finish hfinish
    refine ⟨⟨r, line, hbinds⟩, fun hjump => ?_⟩
    -- A handler that is jumped to has an entry.
    rcases caught with ⟨-, e, hmem, hlabel⟩ | ⟨hnot, -⟩
    · exact absurd hlabel (none e hmem)
    · exact absurd hjump hnot
  | label none unbound position =>
    rcases caught with ⟨-, e, hmem, hlabel⟩ | ⟨-, o, rest, hunit⟩
    · exact absurd hlabel (none e hmem)
    · exact absurd (by rw [hunit]; rfl) (unbound i o (Method.here_of_labelIndex? hi))

/-- A trap enters where its exception is bound, if its handler was visited. -/
theorem Lays.enters (h : p.Lays keepLines b) {e : ExceptionEntry} {trap : Trap} (htrap : p.trap e = .ok trap)
    (flow : ∀ i op, p.method.code[i]? = some op → p.state.UnitFlow i op) (hi : p.method.labelIndex? e.handler = some i)
    (caught : (p.method.isJumpTarget e.handler ∧ ∃ entry ∈ p.state.handlerEntries, entry.label = e.handler) ∨
      (¬ p.method.isJumpTarget e.handler ∧ ∃ o rest, p.state.unit i = .caught o :: rest)) : p.Enters b e trap := by
  simp only [Plan.trap, bind_eq_ok, pure_eq_ok] at htrap
  obtain ⟨handler, hhandler, first, hfirst, last, hlast, rfl⟩ := htrap
  obtain ⟨binds, goes⟩ := h.binds_of_handles hi caught (handles_of_handlerTarget hhandler)
  refine ⟨rfl, hfirst, hlast, binds, fun hjump => ?_⟩
  obtain ⟨q, line, hgoto, hq⟩ := goes (Method.isJumpTarget_iff.mpr hjump)
  refine ⟨q, line, hgoto, hq, fun i op last located here hrun hl => ?_⟩
  refine (h.targets_last (flow i op here) hrun hl).imp ?_
  rintro _ t ht rfl
  exact Except.ok.inj (ht.symm.trans hq)

end Layout.Plan

/-- In the body of a method that is lowered, every trap enters where its exception is bound. -/
theorem Method.catches_of_lower {m : Method} {keepLines : Bool} {b : Body} (h : m.lower keepLines = .ok b) :
    ∃ p, m.layout = .ok p ∧ p.method = m ∧ p.Lays keepLines b ∧ p.Catches b := by
  obtain ⟨p, t, hp, rfl, ht, hstate, hl⟩ := lays_of_lower h
  obtain ⟨hx, hn⟩ := Traversal.complete_spec ht (Guide.free_begins p.method)
  have passed : ∀ i op, p.method.Reachable i → p.method.code[i]? = some op →
      ∃ before after, Passed p.method true p.state t.depths i op before after := fun i op hr here =>
    hstate ▸ hx.passed hn hr here
  have coherent : p.state.Coherent p.method := hstate ▸ hx.coherent
  have fit : p.state.EntriesFit p.method := hstate ▸ hx.fit
  have splits : p.state.Splits p.method := hstate ▸ Traversal.splits_of_complete ht
  have labels := Traversal.labels_of_complete ht
  refine ⟨p, hp, rfl, hl, ?_, fun k k' e e' trap trap' hk hk' ht ht' heq => ?_, fun i op hr here hne hrun => ?_⟩
  · refine forall₂_of_mem hl.traps fun e he trap _ htrap => ?_
    have handler : e.handler ∈ p.method.handlerLabels := mem_handlerLabels.mpr ⟨e, he, rfl⟩
    obtain ⟨i, hi⟩ := Option.isSome_iff_exists.mp (labels _ (mem_referredLabels_of_mem_handlerLabels handler))
    -- Control begins at the label of the handler.
    obtain ⟨before, after, hpassed⟩ := passed i _ (reachable_of_handler handler hi) (here_of_labelIndex? hi)
    have flow : ∀ i op, p.method.code[i]? = some op → p.state.UnitFlow i op := fun i op here =>
      (coherent.stage i (List.getElem?_eq_some_iff.mp here).1).flow here
    exact hl.enters htrap flow hi (coherent.entry_or_binds splits fit handler hi hpassed)
  · have target : ∀ {k : Nat} {e : ExceptionEntry} {trap : Trap}, p.method.exceptions[k]? = some e → b.traps[k]? = some trap →
        p.handlerTarget e.handler = .ok trap.handler := by
      intro k e trap hk ht
      obtain ⟨hlt, rfl⟩ := List.getElem?_eq_some_iff.mp hk
      obtain ⟨hlt', rfl⟩ := List.getElem?_eq_some_iff.mp ht
      have htrap := hl.traps.get hlt hlt'
      simp only [Layout.Plan.trap, bind_eq_ok, pure_eq_ok, List.get_eq_getElem] at htrap
      obtain ⟨handler, hhandler, _, -, _, -, heq⟩ := htrap
      rw [hhandler, ← heq]
    have hhandler := target hk ht
    rw [heq] at hhandler
    exact Except.ok.inj (hhandler.symm.trans (target hk' ht'))
  · obtain ⟨before, after, hpassed⟩ := passed i op hr here
    exact hne (hpassed.visit.labels_eq_nil (Layout.Plan.run_eq_nil.mp hrun))

/-- The handler that is jumped to has two traps, which enter behind the code; the statement there binds the exception, and the next one goes
where the jump goes. The other handler binds the exception at its label. -/
theorem Method.catches_sharing : ∃ p, sharing.layout = .ok p ∧ sharing.lower false = .ok sharingBody ∧ p.Catches sharingBody ∧
    sharingBody.traps.map (·.handler) = [6, 4, 6] ∧ sharingBody.stmts[4]? = some ⟨.identity ⟨1⟩ .caughtException, none⟩ ∧
    sharingBody.stmts[6]? = some ⟨.identity ⟨0⟩ .caughtException, none⟩ ∧ sharingBody.stmts[7]? = some ⟨.goto 2, none⟩ ∧
    sharingBody.stmts[1]? = some ⟨.goto 2, none⟩ ∧ p.target ⟨3⟩ = .ok 2 := by
  obtain ⟨p, hp, hm, -, hcatches⟩ := catches_of_lower lower_sharing
  refine ⟨p, hp, lower_sharing, hcatches, rfl, rfl, rfl, rfl, rfl, ?_⟩
  -- The first entry of the table has the handler that is jumped to.
  have enters := hcatches.enters
  rw [hm] at enters
  cases enters with
  | cons first _ =>
    obtain ⟨q, line, hgoto, htarget, -⟩ := first.goes ⟨.jump ⟨3⟩, by rw [hm]; decide, List.mem_singleton_self _⟩
    cases hgoto
    exact htarget

end ThreeAddress
