import ThreeAddress.Proofs.Lowering.Frames
import ThreeAddress.Proofs.Traversal.Sizes
import ThreeAddress.Proofs.Traversal.Termination

/-!
# Verified methods

A method is verified if following the widths of its values along all paths succeeds and finds one stack of widths at each operation, and if
it declares the slots that it uses. Control then comes to every operation with words for these widths: each operation finds what it consumes
and changes the depth as it must, and whatever arrives at a join has the shape of what came before. No walk through a verified method fails.
A table of the widths before each operation, checked in one pass over the code, shows a method verified.
-/

namespace ThreeAddress

open State

/-- What the verification of stack code ensures, for a method without handlers. -/
structure Method.Verified (m : Method) : Prop where
  handlers : m.exceptions = []
  /-- Every label that is jumped to occurs in the code. -/
  labels : ∀ (i : Nat) (op : Operation), m.code[i]? = some op → ∀ l ∈ op.labels, .label l ∈ m.code
  slots : ∀ (i : Nat) (op : Operation) (k : Nat), m.Reachable i → m.code[i]? = some op → op.slot? = some k → k < m.maxLocals
  /-- The receiver and the parameters have slots. -/
  received : (if m.isStatic then 0 else 1) + Operation.paramWords m.signature.params ≤ m.maxLocals
  params : .void ∉ m.signature.params
  voidFree : ∀ (i : Nat) (op : Operation), m.Reachable i → m.code[i]? = some op → op.isVoidFree
  /-- On no path does an operation find other widths than it asks for. -/
  shaped : ∀ (i : Nat) (op : Operation) (ws : List Bool), m.code[i]? = some op → Reaches m i ws → ∃ ws', op.reshape ws = .ok ws'
  /-- All paths to an operation come with the same widths. -/
  unique : ∀ (i : Nat) (ws ws' : List Bool), i < m.code.length → Reaches m i ws → Reaches m i ws' → ws = ws'

/-- Every depth that is fixed is that of widths with which some path comes. -/
def Method.DepthsReached (m : Method) (depths : Array (Option Nat)) : Prop :=
  ∀ i d : Nat, depths[i]?.join = some d → ∃ ws, Reaches m i ws ∧ d = (ws.map wordsOf).sum

variable {m : Method} {s : State} {depths : Array (Option Nat)} {i : Nat} {op : Operation} {f : Fault} {test : EdgeTest}

theorem Method.Verified.handlerLabels (hv : m.Verified) : m.handlerLabels = [] := by
  simp [Method.handlerLabels, hv.handlers]

/-- Every label that a verified method refers to can be looked up. -/
theorem Method.Verified.lookup (hv : m.Verified) : ∀ l ∈ m.referredLabels, (m.labelIndex? l).isSome := by
  intro l hl
  rw [referredLabels, hv.handlers, List.flatMap_nil, List.nil_append, List.mem_flatMap] at hl
  obtain ⟨op, hop, hl⟩ := hl
  obtain ⟨i, hi⟩ := List.getElem?_of_mem hop
  exact isSome_labelIndex?.mpr (hv.labels i op hi l (op.jumpTargets_eq ▸ hl))

/-- Control comes to the operations of a verified method with words for the widths of some path. -/
def Guide.verified (hv : m.Verified) : Guide m true where
  sound s := s.registers.maxLocals = m.maxLocals ∧ s.RowsFull m
  admits _ i stack := ∃ ws, Reaches m i ws ∧ Spells id (fun _ _ => True) stack ws
  withStack _ h := h
  mono h _ _ _ _ := h
  alike _ _ _ _ h := by cases h
  visit := by
    rintro s s' i op hc hk ⟨hmax, hrows⟩ ⟨ws, reached, spells⟩ here hop hch hk' hvisit
    obtain ⟨ws', shape⟩ := hv.shaped i op ws here reached
    obtain ⟨ws₂, shape₂, spells'⟩ := hvisit.reshape hv.handlerLabels spells (by rw [shape]; exact fun h => by cases h)
    refine ⟨⟨hch.maxLocals.trans hmax, hrows.visit here hop⟩, fun j leads => ⟨ws₂, ?_, spells'⟩⟩
    exact .step reached here shape₂ leads

theorem Guide.verified_begins (hv : m.Verified) : (Guide.verified hv).Begins where
  sound s hs := by
    refine ⟨hs.maxLocals, fun i op row _ hrow => ?_⟩
    rw [hs.frame] at hrow
    cases hrow
  admits s i stack _ hroot := by
    rcases hroot with ⟨rfl, rfl⟩ | ⟨l, hl, -⟩
    · exact ⟨[], .start, .nil⟩
    · rw [hv.handlerLabels] at hl
      cases hl

namespace Lowering

/-- Nothing gives a fault of a verified method a reason. -/
theorem not_warranted {hv : m.Verified} (hg : (Guide.verified hv).Holds s i s.stack) (here : m.code[i]? = some op) :
    ¬ f.Warranted i op s := by
  obtain ⟨ws, reached, spells⟩ := hg.admits
  obtain ⟨ws', shape⟩ := hv.shaped i op ws here reached
  have hfinds := spells.finds shape
  intro hw
  cases f with
  | stackUnderflow j | malformedWidePair j =>
    have hnot := hw.2
    rw [hfinds] at hnot
    cases hnot
  | inconsistentMerge j =>
    obtain ⟨-, row, hrow, hlen⟩ := hw
    exact hlen (hg.sound.2 i op row here hrow)
  | unsupported j opcode mnemonic =>
    obtain ⟨-, rfl⟩ := hw
    cases shape
  | invalidLocal k bound =>
    obtain ⟨hslot, rfl, hle⟩ := hw
    have hlt := hv.slots i op k reached.reachable here hslot
    rw [hg.sound.1] at hle
    exact absurd hlt (Nat.not_lt.mpr hle)
  | undefinedLabel | notImmediate | stackEffect | unitCollision | missingDefinition | unfinished => exact hw

/-- An effect that is as it must be passes the check. -/
theorem checkEffect_ok {before after : Nat} (h : ∀ k, op.stackEffect = some k → (after : Int) = before + k) :
    checkEffect i op before after = .ok () := by
  unfold checkEffect
  cases hk : op.stackEffect with
  | none => rfl
  | some k =>
    have := h k hk
    exact if_pos (by omega)

/-- A walk through a verified method does not fail. -/
theorem exists_walk {hv : m.Verified} {ops : List Operation} (hops : m.code.drop i = ops)
    (hg : (Guide.verified hv).Holds s i s.stack) (hsize : depths.size = m.code.length) (hd : m.DepthsReached depths) :
    ∃ halt, walk m i ops s depths = .ok halt ∧ m.DepthsReached halt.depths := by
  induction ops generalizing i s depths with
  | nil => exact ⟨_, rfl, hd⟩
  | cons op ops ih =>
    obtain ⟨here, hrest⟩ := Method.here_of_drop hops
    have hi := (List.getElem?_eq_some_iff.mp here).1
    obtain ⟨ws, reached, spells⟩ := hg.admits
    -- The depth is that of the widths with which all paths come.
    obtain ⟨mid, hcheck⟩ : ∃ mid, checkDepth depths i s.stack.length = .ok mid := by
      refine exists_checkDepth fun d hdepth => ?_
      obtain ⟨ws', reached', rfl⟩ := hd i d hdepth
      rw [hv.unique i ws' ws hi reached' reached, spells.length]
    have hd' : m.DepthsReached mid := by
      intro j d hj
      by_cases hji : j = i
      · subst hji
        rw [(checkDepth_spec hcheck (hsize ▸ hi)).2, Option.some.injEq] at hj
        exact ⟨ws, reached, by rw [← hj, spells.length]⟩
      · rw [checkDepth_of_ne hcheck hji] at hj
        exact hd j d hj
    cases hop : (lowerOperation m i op).run s with
    | error f => exact absurd (failsBy_lowerOperation hg.coherent here hg.known f hop) (not_warranted hg here)
    | ok p =>
      obtain ⟨⟨⟩, t⟩ := p
      have hvisit : Visit m true i s.stack t.stack t op :=
        (lowerOperation_spec hop hg.coherent here hg.known fun h => by cases h).2.2
      have heffect : checkEffect i op s.stack.length t.stack.length = .ok () :=
        checkEffect_ok fun k hk => hvisit.length_effect (hv.voidFree i op reached.reachable here) hk
      obtain ⟨-, hkeep, -, -, hnext⟩ := passed_of_visit hop hg here hcheck hsize heffect
      cases hexits : exits m i op with
      | error f => exact absurd hexits (exits_ne_error hv.lookup here)
      | ok e =>
        cases e with
        | some targets =>
          refine ⟨⟨t, mid, i, targets⟩, ?_, hd'⟩
          simp only [walk, bind_eq_ok]
          exact ⟨mid, hcheck, _, hop, ⟨⟩, heffect, _, hexits, rfl⟩
        | none =>
          obtain ⟨halt, hwalk, hd''⟩ := ih hrest (hnext _ ((leads_of_straight hexits).mpr rfl)) (hkeep.1.trans hsize) hd'
          refine ⟨halt, ?_, hd''⟩
          simp only [walk, bind_eq_ok]
          exact ⟨mid, hcheck, _, hop, ⟨⟩, heffect, _, hexits, hwalk⟩

end Lowering

namespace Traversal

variable {n : Nat} {t : Traversal State}

/-- After every number of tasks the depths that are fixed are those of paths. -/
theorem After.depthsReached (hv : m.Verified) (h : After test m n t) : m.DepthsReached t.depths := by
  induction h with
  | @start t started =>
    intro i d hd
    rw [(start_eq_ok started).2.1, Array.getElem?_replicate] at hd
    split at hd <;> cases hd
  | follow before next followed ih =>
    have hx := before.explored (Guide.verified_begins hv)
    obtain ⟨halt, hwalk, hoffers⟩ := follow_eq_ok.mp followed
    obtain ⟨halt', hwalk', hd⟩ := Lowering.exists_walk rfl (hx.begin next).1 hx.size ih
    obtain rfl : halt = halt' := Except.ok.inj (hwalk.symm.trans hwalk')
    exact offers_keep hoffers (I := fun u => m.DepthsReached u.depths) hd fun _ _ _ hu _ => hu

/-- A verified method is visited to its end, unless a stack is refused by an edge on which another one is on its way. -/
theorem refused_of_complete (hv : m.Verified) (h : complete (S := State) test m = .error f) :
    test = .pendingFirst ∧ ∃ j, f = .inconsistentMerge j := by
  rcases error_of_complete h with hstart | ⟨n, t, task, rest, ha, next, hf⟩
  · exact absurd hstart (start_ne_error hv.lookup)
  · have hx := ha.explored (Guide.verified_begins hv)
    obtain ⟨halt, hwalk, -⟩ := Lowering.exists_walk rfl (hx.begin next).1 hx.size (ha.depthsReached hv)
    rw [follow_eq, bind_eq_error] at hf
    rcases hf with hf | ⟨halt', -, hf⟩
    · cases hf.symm.trans hwalk
    obtain ⟨htest, j, -, hj⟩ := offers_eq_error hf
    exact ⟨htest, j, hj⟩

end Traversal
/-! ## Verification by a table -/

namespace Method

variable {table : List (List Bool)} {ws : List Bool}

/-- The widths that a table has before an operation are such that it can be applied to them, and what that leaves stands in the table
wherever control goes on. -/
def fitsTable (m : Method) (table : List (List Bool)) (i : Nat) (op : Operation) : Bool :=
  match (table[i]?).map op.reshape with
  | some (.ok ws') => (m.successors i op).all fun j => m.code.length ≤ j || table[j]? == some ws'
  | _ => false

/-- One pass over the code finds the method verified, with a table of the widths before each operation. -/
def verifies (m : Method) (table : List (List Bool)) : Bool :=
  m.exceptions.isEmpty && table.head? == some [] &&
    (m.code.zipIdx.all fun (op, i) => m.fitsTable table i op && op.isVoidFree && op.labels.all (m.code.contains <| .label ·) &&
      op.slot?.all (· < m.maxLocals)) &&
    (if m.isStatic then 0 else 1) + Operation.paramWords m.signature.params ≤ m.maxLocals && !m.signature.params.contains .void

theorem fitsTable_iff : m.fitsTable table i op ↔ ∃ ws ws', table[i]? = some ws ∧ op.reshape ws = .ok ws' ∧
    ∀ j, m.Leads i op j → j < m.code.length → table[j]? = some ws' := by
  unfold fitsTable
  cases ht : table[i]? with
  | none => simp
  | some ws =>
    cases hs : op.reshape ws with
    | error e => simp [hs]
    | ok ws' =>
      simp only [Option.map_some, hs, List.all_eq_true, mem_successors, Bool.or_eq_true, decide_eq_true_eq, beq_iff_eq]
      constructor
      · intro h
        exact ⟨ws, ws', rfl, hs, fun j leads hj => (h j leads).resolve_left (Nat.not_le.mpr hj)⟩
      · rintro ⟨ws₁, ws₂, hrow, hshape, h⟩ j leads
        obtain rfl := Option.some.inj hrow
        rw [hs, Except.ok.injEq] at hshape
        subst hshape
        exact (Nat.lt_or_ge j m.code.length).elim (fun hj => Or.inr (h j leads hj)) Or.inl

/-- Every path comes to an operation with the widths of the table. -/
theorem widths_of_reaches (first : table.head? = some []) (fits : ∀ i op, m.code[i]? = some op → m.fitsTable table i op)
    (h : Reaches m i ws) (hi : i < m.code.length) : table[i]? = some ws := by
  induction h with
  | start => rwa [← List.head?_eq_getElem?]
  | @step i j op ws ws' _ here shape leads ih =>
    obtain ⟨ws₁, ws₂, hrow, hshape, hnext⟩ := fitsTable_iff.mp (fits i op here)
    rw [ih (List.getElem?_eq_some_iff.mp here).1, Option.some.injEq] at hrow
    subst hrow
    rw [shape, Except.ok.injEq] at hshape
    subst hshape
    exact hnext j leads hi

/-- What one pass over the code finds verified is verified. -/
theorem verified_of_verifies (h : m.verifies table) : m.Verified := by
  simp only [verifies, Bool.and_eq_true, List.isEmpty_iff, beq_iff_eq, decide_eq_true_eq, Bool.not_eq_true', List.all_eq_true] at h
  obtain ⟨⟨⟨⟨hexceptions, hfirst⟩, hall⟩, hreceived⟩, hparams⟩ := h
  have hop : ∀ (i : Nat) (op : Operation), m.code[i]? = some op → m.fitsTable table i op ∧ op.isVoidFree ∧
      (∀ l ∈ op.labels, .label l ∈ m.code) ∧ ∀ k, op.slot? = some k → k < m.maxLocals := by
    intro i op here
    obtain ⟨⟨⟨hfits, hfree⟩, hlabels⟩, hslots⟩ := hall (op, i) (List.mem_zipIdx_iff_getElem?.mpr here)
    refine ⟨hfits, hfree, fun l hl => List.contains_iff_mem.mp (hlabels l hl), fun k hk => ?_⟩
    rw [hk] at hslots
    exact of_decide_eq_true hslots
  have hwidths : ∀ (i : Nat) (ws : List Bool), i < m.code.length → Reaches m i ws → table[i]? = some ws := fun i ws hi hr =>
    widths_of_reaches hfirst (fun i op here => (hop i op here).1) hr hi
  exact
    { handlers := hexceptions
      labels := fun i op here => (hop i op here).2.2.1
      slots := fun i op k _ here => (hop i op here).2.2.2 k
      received := hreceived
      params := fun hmem => by simp [hmem] at hparams
      voidFree := fun i op _ here => (hop i op here).2.1
      shaped := fun i op ws here hr => by
        obtain ⟨ws₁, ws', hrow, hshape, -⟩ := fitsTable_iff.mp (hop i op here).1
        rw [hwidths i ws (List.getElem?_eq_some_iff.mp here).1 hr, Option.some.injEq] at hrow
        exact ⟨ws', hrow ▸ hshape⟩
      unique := fun i ws ws' hi hr hr' => Option.some.inj ((hwidths i ws hi hr).symm.trans (hwidths i ws' hi hr')) }

end Method
end ThreeAddress
