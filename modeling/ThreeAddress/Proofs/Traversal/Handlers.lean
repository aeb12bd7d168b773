import ThreeAddress.Proofs.Traversal.Depths

/-!
# Depths at handlers

A handler that is jumped to has an entry of its own, which binds the caught exception, and its label does nothing. The label of any other
handler pushes the exception on every arrival. Caught exceptions come to it with an empty stack and all arrivals come with one depth, so that
control can run into such a label only with an empty stack.
-/

namespace ThreeAddress

open State

variable {m : Method} {shares : Bool} {g : Guide m shares} {t : Traversal State} {test : EdgeTest} {keepLines : Bool} {b : Body} {i k : Nat}
  {d : Int}

/-! ## Entries -/

/-- Nothing but the entries matters. -/
theorem State.Splits.congr {s s' : State} (h : s.Splits m) (he : s'.handlerEntries = s.handlerEntries) : s'.Splits m := by
  intro l hl i hi
  rw [State.handlerEntry?, he]
  exact h l hl i hi

theorem State.Splits.extends {s s' : State} (h : s.Splits m) (he : s.Extends s') : s'.Splits m :=
  h.congr he.entries

/-- Visits make no entries. -/
def Guide.splits (m : Method) : Guide m true where
  sound s := s.Splits m
  admits _ _ _ := True
  withStack _ h := h
  mono _ _ _ _ _ := trivial
  alike _ _ _ _ h := by cases h
  visit hc _ hs _ _ _ hch _ _ := ⟨hs.extends (hch.extends hc), fun _ _ => trivial⟩

namespace Traversal

/-- A traversal keeps to a second guide that asks for nothing but its state. -/
theorem Explored.guided {g' : Guide m shares} {current : Nat → Stack → Prop} (h : t.Explored g current) (sound : g'.sound t.state)
    (admits : ∀ i stack, g'.admits t.state i stack) : t.Explored g' current :=
  { h with
    sound
    tasks := fun task ht => ⟨h.coherent, sound, (h.tasks task ht).known, admits _ _⟩
    histories := fun key e stack he hs => ⟨h.coherent, sound, (h.histories key e stack he hs).known, admits _ _⟩ }

/-- At the outset exactly the handlers that are jumped to have entries of their own. -/
theorem splits_of_start (h : start m = .ok t) : t.state.Splits m := by
  simp only [start] at h
  split at h
  · cases h
  · split at h
    · rename_i hempty
      have hnil : m.code = [] := by simpa using hempty
      intro l _ i hi
      have here := Method.here_of_labelIndex? hi
      simp [hnil] at here
    · simp only [bind_eq_ok] at h
      obtain ⟨⟨k, s⟩, hentries, handlers, -, h⟩ := h
      cases h
      exact Lowering.splits_addHandlerEntries hentries

/-- In the end exactly the handlers that are jumped to have entries of their own. -/
theorem splits_of_complete (h : complete test m = .ok t) : t.state.Splits m := by
  simp only [complete, bind_eq_ok] at h
  obtain ⟨t₀, hstart, hrun⟩ := h
  have hx := start_spec hstart (Guide.free_begins m)
  have hguided : t₀.Explored (Guide.splits m) fun _ _ => False := hx.guided (splits_of_start hstart) fun _ _ => trivial
  exact (run_spec hrun hguided).1.sound

end Traversal

/-! ## Depths -/

/-- Control can come to an operation with a depth: along some path from the first operation, or from a handler. The label of a handler that
is jumped to finds the exception on the stack. -/
inductive Method.Comes (m : Method) : Nat → Int → Prop where
  | start : m.Comes 0 0
  | handler {i : Nat} {l : Label} (handler : l ∈ m.handlerLabels) (here : m.labelIndex? l = some i) :
      m.Comes i (if m.isJumpTarget l then 1 else 0)
  | step {i j : Nat} {op : Operation} {d : Int} (comes : m.Comes i d) (here : m.code[i]? = some op) (leads : m.Leads i op j) :
      m.Comes j (d + m.growthAt op)

/-- Wherever control can come, it came with that depth. -/
theorem Method.Comes.arrived (h : m.Comes i d) (hx : t.Explored g fun _ _ => False) (hn : t.tasks = []) (hs : t.state.Splits m)
    (hd : m.LabelsDistinct) (hi : i < m.code.length) : ∃ stack, t.Arrived m shares i stack ∧ (stack.length : Int) = d := by
  induction h with
  | start => exact ⟨[], Traversal.arrived_of_awaited hx hn (Or.inl (Or.inl ⟨rfl, rfl⟩)), rfl⟩
  | @handler i l handler here =>
    refine ⟨_, Traversal.arrived_of_awaited hx hn (Or.inl (Or.inr ⟨l, handler, here, rfl⟩)), ?_⟩
    have hsplit := hs l handler i here
    cases hentry : t.state.handlerEntry? i with
    | none =>
      have hjump : ¬ m.isJumpTarget l := fun hjump => by simpa [hentry] using hsplit.mpr hjump
      simp [hjump]
    | some e =>
      have hjump : m.isJumpTarget l := hsplit.mp (by simp [hentry])
      simp [hjump]
  | @step i j op d comes here leads ih =>
    obtain ⟨stack, ha, hlen⟩ := ih (List.getElem?_eq_some_iff.mp here).1
    obtain ⟨after, hp, hnext⟩ := ha.passed hx hn here
    obtain ⟨stack', hlen', ha'⟩ := hnext _ leads hi
    have entries : ∀ l, op = .label l → l ∈ m.handlerLabels → ((t.state.handlerEntry? i).isSome ↔ m.isJumpTarget l) := by
      rintro l rfl hl
      exact hs l hl i (hd.labelIndex?.mpr here)
    refine ⟨stack', ha', ?_⟩
    rw [hlen', hp.length_after entries leads, hlen]

/-- In a method that is lowered and whose labels are distinct, control comes to an operation with one depth, whether from the first operation
or from handlers, and the operation finds the words that it pops. -/
theorem Method.handler_depths_agree_of_lower (h : m.lower keepLines = .ok b) (hd : m.LabelsDistinct) :
    ∀ i op, m.code[i]? = some op → ∀ d, m.Comes i d → (op.wordsPopped : Int) ≤ d ∧ ∀ d', m.Comes i d' → d' = d := by
  obtain ⟨t, ht, -⟩ := lower_eq_ok.mp h
  obtain ⟨hx, hn⟩ := Traversal.complete_spec ht (Guide.free_begins m)
  have hs := Traversal.splits_of_complete ht
  intro i op here d hcomes
  -- Whatever comes to the operation comes with the depth that its first visit fixed.
  have fixed : ∀ d, m.Comes i d → ∃ n : Nat, t.depths[i]?.join = some n ∧ (n : Int) = d ∧ op.wordsPopped ≤ n := by
    intro d hcomes
    obtain ⟨stack, ha, hlen⟩ := hcomes.arrived hx hn hs hd (List.getElem?_eq_some_iff.mp here).1
    obtain ⟨after, hp, -⟩ := ha.passed hx hn here
    exact ⟨stack.length, hp.depth, hlen, hp.wordsPopped_le⟩
  obtain ⟨n, hdepth, rfl, hle⟩ := fixed d hcomes
  refine ⟨Int.ofNat_le.mpr hle, fun d' hcomes' => ?_⟩
  obtain ⟨n', hdepth', rfl, -⟩ := fixed d' hcomes'
  rw [hdepth, Option.some.injEq] at hdepth'
  rw [hdepth']

/-- An instruction is the label of a handler that is not jumped to. -/
def Method.PushesCaught (m : Method) (k : Nat) : Prop :=
  ∃ l ∈ m.handlerLabels, m.code[k]? = some (.label l) ∧ ¬ m.isJumpTarget l

/-- Control comes to the label of a handler that is not jumped to with an empty stack, along whatever path. -/
theorem Method.empty_at_handler_of_lower (h : m.lower keepLines = .ok b) (hd : m.LabelsDistinct) (hk : m.PushesCaught k)
    (hcomes : m.Comes k d) : d = 0 := by
  obtain ⟨l, hl, here, hjump⟩ := hk
  have caught : m.Comes k (if m.isJumpTarget l then 1 else 0) := .handler hl (hd.labelIndex?.mpr here)
  rw [if_neg hjump] at caught
  exact (handler_depths_agree_of_lower h hd k _ here 0 caught).2 d hcomes

end ThreeAddress
