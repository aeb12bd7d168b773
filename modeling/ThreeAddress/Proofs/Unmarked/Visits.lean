import ThreeAddress.Proofs.Traversal.Termination
import ThreeAddress.Proofs.Unmarked.Steps

/-!
# Visits without line numbers

Where line numbers make no way of their own, a method is visited as it is without them: from traversals that mirror each other a task leads
to such traversals again or fails in both. A line number only passes the depth on to what stands behind it, and the edges of the two methods
correspond one to one.
-/

namespace ThreeAddress

open State

/-! ## Where control divides -/

namespace Method

/-- Control divides or jumps at an instruction and goes on to another one. -/
def Divides (m : Method) (i j : Nat) : Prop :=
  ∃ op ts, m.code[i]? = some op ∧ Lowering.exits m i op = .ok (some ts) ∧ j ∈ ts

variable {m : Method} {i i' j j' : Nat} {op : Operation}

theorem isLine_of_exits {ts : List Nat} (h : Lowering.exits m i op = .ok (some ts)) : op.isLine = false := by
  cases op with
  | line => cases h
  | _ => rfl

theorem Divides.stays (h : m.Divides i j) : m.Stays i := by
  obtain ⟨op, ts, here, exits, -⟩ := h
  exact ⟨op, here, isLine_of_exits exits⟩

/-- Control goes on to a label, or from a branch to the instruction behind it. -/
theorem Divides.label_or_next (h : m.Divides i j) : m.Stays j ∨
    (j = i + 1 ∧ ∃ kind operands way l, m.code[i]? = some (.branch kind operands way l)) := by
  obtain ⟨op, ts, here, exits, hj⟩ := h
  have leads := (Lowering.leads_of_exits exits).1 j hj
  cases op with
  | «return» | throw => exact leads.elim
  | branch kind operands way l =>
    rcases leads with rfl | hl
    · exact Or.inr ⟨rfl, kind, operands, way, l, here⟩
    · exact Or.inl (stays_of_labelIndex? hl)
  | jump l => exact Or.inl (stays_of_labelIndex? leads)
  | «switch» default cases =>
    obtain ⟨l, -, hl⟩ := leads
    exact Or.inl (stays_of_labelIndex? hl)
  | _ => cases exits

/-- Two edges have one place only if they are one. -/
theorem MarkersApart.divides_inj (h : m.MarkersApart) (hij : m.Divides i j) (hij' : m.Divides i' j') (hi : m.place i = m.place i')
    (hj : m.place j = m.place j') : i = i' ∧ j = j' := by
  obtain rfl := hij.stays.place_inj hij'.stays hi
  refine ⟨rfl, ?_⟩
  -- Behind a branch, a label has the place of what stands there only if it stands there.
  have branch : ∀ {j j' : Nat}, m.Divides i j' → m.Stays j' → j = i + 1 →
      (∃ kind operands way l, m.code[i]? = some (.branch kind operands way l)) → m.place j = m.place j' → j = j' := by
    rintro j j' hdiv hstays rfl ⟨kind, operands, way, l, here⟩ hplace
    obtain ⟨op, ts, here', exits, hmem⟩ := hdiv
    obtain rfl := Option.some.inj (here.symm.trans here')
    rcases (Lowering.leads_of_exits exits).1 j' hmem with rfl | hl
    · rfl
    · exact (h.branch_inj here hl hplace).symm
  rcases hij.label_or_next with hs | ⟨hn, hb⟩
  · rcases hij'.label_or_next with hs' | ⟨hn', hb'⟩
    · exact hs.place_inj hs' hj
    · exact (branch hij hs hn' hb' hj.symm).symm
  · rcases hij'.label_or_next with hs' | ⟨hn', -⟩
    · exact branch hij' hs' hn hb hj
    · rw [hn, hn']

end Method

/-- A visit finds the same stack in states that mirror each other. -/
theorem State.Mirrors.loweringStack {m : Method} {s s' : State} (h : s.Mirrors m s') : LoweringState.stack s' = LoweringState.stack s :=
  h.stack

namespace Lowering

variable {m : Method} {s s' : State} {i d : Nat} {op : Operation} {ds ds' : Array (Option Nat)}

theorem labelIndex_unmarked (m : Method) (l : Label) :
    Together (fun j j' => j' = m.place j ∧ m.Stays j) (labelIndex m l) (labelIndex m.unmarked l) := by
  unfold labelIndex
  rw [Method.labelIndex?_unmarked]
  cases hl : m.labelIndex? l with
  | none => exact trivial
  | some j => exact ⟨rfl, Method.stays_of_labelIndex? hl⟩

/-- Control goes on at the places of where it went on. -/
theorem exits_unmarked (hm : m.MarkersApart) (here : m.code[i]? = some op) (stays : op.isLine = false) :
    Together (fun ts ts' => ts' = ts.map (List.map m.place)) (exits m i op) (exits m.unmarked (m.place i) op) := by
  have hsucc : m.place (i + 1) = m.place i + 1 := Method.Stays.place_succ ⟨op, here, stays⟩
  cases op with
  | branch kind operands way l =>
    refine (labelIndex_unmarked m l).bind fun j j' hj => ?_
    obtain ⟨rfl, -⟩ := hj
    have hlt : m.place i + 1 < m.unmarked.code.length ↔ i + 1 < m.code.length := hsucc ▸ hm.place_lt_length_iff
    by_cases hnext : i + 1 < m.code.length
    · rw [if_pos hnext, if_pos (hlt.mpr hnext), ← hsucc]
      rfl
    · rw [if_neg hnext, if_neg (mt hlt.mp hnext)]
      rfl
  | jump l =>
    refine (labelIndex_unmarked m l).bind fun j j' hj => ?_
    obtain ⟨rfl, -⟩ := hj
    rfl
  | «switch» default cases =>
    refine (labelIndex_unmarked m default).bind fun j j' hj => ?_
    obtain ⟨rfl, -⟩ := hj
    refine (Together.mapM_map fun l => (labelIndex_unmarked m l).mono fun _ _ h => h.1).bind fun js js' hjs => ?_
    rw [hjs]
    rfl
  | line => cases stays
  | _ => exact rfl

/-! ## Depths -/

/-- Depths are as they are at the places of instructions. A line number has the depth of what stands behind it, or one that is `pending`
there. -/
structure DepthsMirror (m : Method) (pending : Nat → Nat → Prop) (ds ds' : Array (Option Nat)) : Prop where
  size : ds.size = m.code.length
  size_unmarked : ds'.size = m.unmarked.code.length
  stays : ∀ k, m.Stays k → ds'[m.place k]?.join = ds[k]?.join
  known : ∀ k e : Nat, ds[k]?.join = some e → ds'[m.place k]?.join = some e ∨ pending (m.place k) e

/-- Depths that mirror each other between two walks. -/
abbrev DepthsClosed (m : Method) : Array (Option Nat) → Array (Option Nat) → Prop :=
  DepthsMirror m fun _ _ => False

/-- Depths that mirror each other while control is on its way to an instruction with a depth. -/
abbrev DepthsOpen (m : Method) (i d : Nat) : Array (Option Nat) → Array (Option Nat) → Prop :=
  DepthsMirror m fun k e => k = m.place i ∧ e = d

theorem DepthsMirror.open (h : DepthsClosed m ds ds') : DepthsOpen m i d ds ds' :=
  { h with known := fun k e hk => Or.inl ((h.known k e hk).resolve_right id) }

/-- Behind the code nothing is pending. -/
theorem DepthsMirror.closed_of_end (h : DepthsOpen m i d ds ds') (hm : m.MarkersApart) (hi : m.code.length ≤ i) : DepthsClosed m ds ds' :=
  { h with
    known := fun k e hk => by
      refine (h.known k e hk).imp_right fun ⟨hplace, _⟩ => ?_
      have hlt : k < m.code.length := by
        rw [← h.size]
        refine Nat.lt_of_not_le fun hle => ?_
        rw [Array.getElem?_eq_none hle] at hk
        cases hk
      have hlt' := hm.place_lt_length_iff.mpr hlt
      have hend := m.place_length ▸ Method.place_mono (m := m) hi
      omega }

theorem join_getElem?_modify (hi : i < ds.size) (k : Nat) :
    (ds.modify i fun _ => some d)[k]?.join = if k = i then some d else ds[k]?.join := by
  rw [Array.getElem?_modify]
  by_cases hk : k = i
  · subst hk
    simp [Array.getElem?_eq_getElem hi]
  · rw [if_neg (Ne.symm hk), if_neg hk]

/-- The check of a depth at a line number: it passes and changes nothing without line numbers, or the check behind it fails. -/
theorem checkDepth_line (h : DepthsOpen m i d ds ds') (hi : i < m.code.length) (line : ¬ m.Stays i) :
    (∃ ds₁, checkDepth ds i d = .ok ds₁ ∧ DepthsOpen m i d ds₁ ds') ∨
      ((∃ f, checkDepth ds i d = .error f) ∧ ∃ e, ds'[m.place i]?.join = some e ∧ e ≠ d) := by
  unfold checkDepth
  cases hd : ds[i]?.join with
  | none =>
    have hlt : i < ds.size := h.size ▸ hi
    refine Or.inl ⟨_, rfl, { h with size := by simp [h.size], stays := fun k hk => ?_, known := fun k e hk => ?_ }⟩
    · have hki : k ≠ i := fun heq => line (heq ▸ hk)
      rw [join_getElem?_modify hlt, if_neg hki, h.stays k hk]
    · rw [join_getElem?_modify hlt] at hk
      by_cases hki : k = i
      · rw [if_pos hki, Option.some.injEq] at hk
        exact Or.inr ⟨congrArg m.place hki, hk.symm⟩
      · rw [if_neg hki] at hk
        exact h.known k e hk
  | some e =>
    by_cases he : e = d
    · exact Or.inl ⟨ds, if_pos he, h⟩
    · exact Or.inr ⟨⟨_, if_neg he⟩, e, (h.known i e hd).resolve_right fun hp => he hp.2, he⟩

theorem checkDepth_stays (h : DepthsOpen m i d ds ds') (hi : m.Stays i) :
    Together (DepthsClosed m) (checkDepth ds i d) (checkDepth ds' (m.place i) d) := by
  have hlt : i < ds.size := h.size ▸ hi.lt
  have hlt' : m.place i < ds'.size := h.size_unmarked ▸ hi.place_lt_length
  have hd' := h.stays i hi
  unfold checkDepth
  cases hd : ds[i]?.join with
  | none =>
    rw [hd] at hd'
    rw [hd']
    refine ⟨by simp [h.size], by simp [h.size_unmarked], fun k hk => ?_, fun k e hk => ?_⟩
    · rw [join_getElem?_modify hlt, join_getElem?_modify hlt', h.stays k hk]
      by_cases hki : k = i
      · rw [if_pos hki, if_pos (congrArg m.place hki)]
      · rw [if_neg hki, if_neg fun hplace => hki (hk.place_inj hi hplace)]
    · rw [join_getElem?_modify hlt] at hk
      rw [join_getElem?_modify hlt']
      refine Or.inl ?_
      by_cases hki : k = i
      · rw [if_pos hki] at hk
        rw [if_pos (congrArg m.place hki), hk]
      · rw [if_neg hki] at hk
        by_cases hplace : m.place k = m.place i
        · rw [if_pos hplace]
          rcases h.known k e hk with hknown | ⟨-, rfl⟩
          · rw [hplace, hd'] at hknown
            cases hknown
          · rfl
        · rw [if_neg hplace]
          exact (h.known k e hk).resolve_right fun hp => hplace hp.1
  | some e =>
    rw [hd] at hd'
    rw [hd']
    by_cases he : e = d
    · dsimp only
      rw [if_pos he, if_pos he]
      refine { h with known := fun k e' hk => Or.inl ((h.known k e' hk).elim id ?_) }
      rintro ⟨hplace, rfl⟩
      rw [hplace, hd', he]
    · dsimp only
      rw [if_neg he, if_neg he]
      exact trivial

/-! ## Walks -/

/-- Walks that came to their ends at one place, in states that mirror each other. -/
structure Halt.Mirrors (m : Method) (s : State) (h h' : Halt State) : Prop where
  state : h.state.Mirrors m h'.state
  grows : s.operands.size ≤ h.state.operands.size
  depths : DepthsClosed m h.depths h'.depths
  origin : h'.origin = m.place h.origin
  targets : h'.targets = h.targets.map m.place
  divides : ∀ j ∈ h.targets, m.Divides h.origin j

/-- A walk fails where another depth is fixed. -/
theorem walk_error {ops : List Operation} {e : Nat} (hd : ds[i]?.join = some e) (he : e ≠ s.stack.length) :
    ∃ f, walk m i (op :: ops) s ds = .error f := by
  have hcheck : checkDepth ds i s.stack.length = .error (.inconsistentMerge i) := by simp [checkDepth, hd, he]
  refine ⟨.inconsistentMerge i, ?_⟩
  simp only [walk, LoweringState.stack, hcheck]
  rfl

/-- A line number does nothing but check the depth. -/
theorem walk_line {ops : List Operation} (line : op.isLine) :
    walk m i (op :: ops) s ds = checkDepth ds i s.stack.length >>= walk m (i + 1) ops s := by
  cases op with
  | line n =>
    simp only [walk, LoweringState.stack, LoweringState.lowerOperation, lowerOperation, StateT.run_pure, pure_bind, checkEffect,
      Operation.stackEffect, Int.sub_self, if_true, exits]
    rfl
  | _ => cases line

theorem checkEffect_unmarked (i j : Nat) (op : Operation) (before after : Nat) :
    Together (fun _ _ => True) (checkEffect i op before after) (checkEffect j op before after) := by
  unfold checkEffect
  split
  · exact trivial
  · dsimp only
    split <;> exact trivial

/-- Control is followed straight on as it is without line numbers. -/
theorem walk_unmarked (hm : m.MarkersApart) {ops : List Operation} (hops : m.code.drop i = ops) (hs : s.Mirrors m s')
    (hds : DepthsOpen m i s.stack.length ds ds') :
    Together (Halt.Mirrors m s) (walk m i ops s ds) (walk m.unmarked (m.place i) (ops.filter (!·.isLine)) s' ds') := by
  induction ops generalizing i s s' ds ds' with
  | nil =>
    have hend : m.code.length ≤ i := List.drop_eq_nil_iff.mp hops
    exact ⟨hs, Nat.le_refl _, hds.closed_of_end hm hend, rfl, rfl, fun j hj => (by cases hj)⟩
  | cons op ops ih =>
    obtain ⟨here, hrest⟩ := Method.here_of_drop hops
    have hlt : i < m.code.length := (List.getElem?_eq_some_iff.mp here).1
    cases hline : op.isLine with
    | true =>
      have hplace : m.place (i + 1) = m.place i := Method.place_succ_of_line here hline
      have line : ¬ m.Stays i := by
        rintro ⟨op', here', stays⟩
        obtain rfl := Option.some.inj (here.symm.trans here')
        rw [hline] at stays
        cases stays
      rw [walk_line hline, List.filter_cons_of_neg (by simp [hline])]
      rcases checkDepth_line hds hlt line with ⟨ds₁, hcheck, hopen⟩ | ⟨⟨f, hcheck⟩, e, hd, he⟩
      · rw [hcheck, ← hplace]
        refine ih hrest hs ?_
        rwa [DepthsOpen, hplace]
      · -- The same check fails at what stands behind the line number.
        have hbehind : ops.filter (!·.isLine) = m.unmarked.code.drop (m.place i) := by rw [← hplace, Method.drop_unmarked, hrest]
        rw [hbehind, List.drop_eq_getElem_cons (hm.place_lt_length_iff.mpr hlt), hcheck]
        obtain ⟨f', hfails⟩ := walk_error hd (hs.stack ▸ he)
        rw [hfails]
        exact trivial
    | false =>
      have hi : m.Stays i := ⟨op, here, hline⟩
      rw [List.filter_cons_of_pos (by simp [hline]), walk, walk, hs.loweringStack]
      refine (checkDepth_stays hds hi).bind fun ds₁ ds₁' hds₁ => ?_
      refine Together.bind (matches_lowerOperation hs hi hline) ?_
      rintro ⟨_, t⟩ ⟨_, t'⟩ ⟨-, ht, hsize, -⟩
      dsimp only at ht hsize ⊢
      rw [ht.loweringStack]
      refine (checkEffect_unmarked i (m.place i) op _ _).bind fun _ _ _ => ?_
      refine (exits_unmarked hm here hline).with_ok.bind ?_
      rintro ts _ ⟨hexits, rfl⟩
      cases ts with
      | none =>
        rw [Option.map_none, ← hi.place_succ]
        refine (ih hrest ht hds₁.open).mono fun h h' hh => ?_
        exact { hh with grows := Nat.le_trans hsize hh.grows }
      | some targets => exact ⟨ht, hsize, hds₁, rfl, rfl, fun j hj => ⟨op, targets, here, hexits, hj⟩⟩

end Lowering

/-! ## Tasks -/

/-- A task with instructions at their places. -/
def Task.unmarked (m : Method) (task : Task) : Task :=
  { target := m.place task.target, stack := task.stack, edge := task.edge.map fun key => (m.place key.1, m.place key.2) }

namespace Traversal

open Lowering

variable {m : Method} {test : EdgeTest} {t t' : Traversal State} {i j : Nat} {stack : Stack} {task : Task}

/-- A task has a stack of operands that exist, and comes along an edge at which control divides. -/
structure TaskFits (m : Method) (s : State) (task : Task) : Prop where
  known : s.StackKnown task.stack
  edge : ∀ key ∈ task.edge, m.Divides key.1 key.2

/-- A traversal of a method without line numbers is that of the method, with instructions at their places. -/
structure Mirrors (m : Method) (t t' : Traversal State) : Prop where
  state : t.state.Mirrors m t'.state
  depths : DepthsClosed m t.depths t'.depths
  edges : ∀ i j, m.Divides i j → t'.edges[(m.place i, m.place j)]? = t.edges[(i, j)]?
  tasks : t'.tasks = t.tasks.map (Task.unmarked m)
  fit : ∀ task ∈ t.tasks, TaskFits m t.state task

/-- The places of two edges are one exactly if they are. -/
theorem place_edge_iff (hm : m.MarkersApart) {i' j' : Nat} (hd : m.Divides i j) (hd' : m.Divides i' j') :
    (m.place i, m.place j) = (m.place i', m.place j') ↔ (i, j) = (i', j') := by
  simp only [Prod.mk.injEq]
  refine ⟨fun ⟨hi, hj⟩ => hm.divides_inj hd hd' hi hj, ?_⟩
  rintro ⟨rfl, rfl⟩
  exact ⟨rfl, rfl⟩

theorem Mirrors.send (h : t.Mirrors m t') (hm : m.MarkersApart) (hd : m.Divides i j) (hk : t.state.StackKnown stack) :
    (t.send (i, j) stack).Mirrors m (t'.send (m.place i, m.place j) stack) where
  state := h.state
  depths := h.depths
  edges i' j' hd' := by
    rw [edges_send, edges_send, h.edges i j hd, h.edges i' j' hd']
    simp only [place_edge_iff hm hd hd']
  tasks := congrArg (_ :: ·) h.tasks
  fit task htask := by
    rcases List.mem_cons.mp htask with rfl | htask
    · refine ⟨hk, fun key hkey => ?_⟩
      obtain rfl := Option.some.inj hkey
      exact hd
    · exact h.fit task htask

/-- A stack is offered to an edge with the same success. -/
theorem offer_unmarked (h : t.Mirrors m t') (hm : m.MarkersApart) (hd : m.Divides i j) :
    Together (Mirrors m) (t.offer test (i, j)) (t'.offer test (m.place i, m.place j)) := by
  have verdict : ∀ (e : Edge) (stack : Stack), test.verdict t'.state e stack = test.verdict t.state e stack := fun e stack => by
    unfold EdgeTest.verdict
    simp only [LoweringState.equivalentStacks, h.state.equivalentStacks]
  have hsend := h.send hm hd h.state.stack_known
  unfold offer
  simp only [h.edges i j hd, verdict, h.state.loweringStack]
  cases t.edges[(i, j)]? with
  | none => exact hsend
  | some e =>
    dsimp only
    cases test.verdict t.state e (LoweringState.stack t.state) with
    | send => exact hsend
    | skip => exact h
    | conflict => exact trivial

theorem Mirrors.arrive (h : t.Mirrors m t') (hm : m.MarkersApart) {edge : Option (Nat × Nat)} (he : ∀ key ∈ edge, m.Divides key.1 key.2) :
    (t.arrive edge).Mirrors m (t'.arrive (edge.map fun key => (m.place key.1, m.place key.2))) := by
  cases edge with
  | none => exact h
  | some key =>
    obtain ⟨i', j'⟩ := key
    have hd := he (i', j') rfl
    refine { h with edges := fun i j hd' => ?_ }
    simp only [Traversal.arrive, Option.map_some, Std.TreeMap.getElem?_modify, edgeOrder_eq, place_edge_iff hm hd hd', h.edges i j hd',
      h.edges i' j' hd]

theorem follow_unmarked (h : t.Mirrors m t') (hm : m.MarkersApart) (ht : TaskFits m t.state task) :
    Together (Mirrors m) (follow test m t task) (follow test m.unmarked t' (task.unmarked m)) := by
  have harrive := h.arrive hm ht.edge
  have hstate : (t.arrive task.edge).state = t.state := by cases task.edge <;> rfl
  have hbegin := harrive.state.withStack (hstate.symm ▸ ht.known)
  unfold follow
  rw [Task.unmarked, Method.drop_unmarked]
  refine (walk_unmarked hm rfl hbegin harrive.depths.open).bind fun halt halt' hhalt => ?_
  rw [hhalt.targets, hhalt.origin]
  have targets : List.Forall₂ (fun j j' => j' = m.place j ∧ m.Divides halt.origin j) halt.targets (halt.targets.map m.place) :=
    List.forall₂_map_right_iff.mpr (List.forall₂_same.mpr fun j hj => ⟨rfl, hhalt.divides j hj⟩)
  refine Together.foldlM targets ?_ ?_
  · rintro u u' j _ hu ⟨rfl, hd⟩
    exact offer_unmarked hu hm hd
  · refine ⟨hhalt.state, hhalt.depths, harrive.edges, harrive.tasks, fun task' htask' => ?_⟩
    have hfit := harrive.fit task' htask'
    exact ⟨fun o ho => known_of_le hhalt.grows (hfit.known o ho), hfit.edge⟩

/-- Tasks are followed alike, as many as there may be. -/
theorem run_unmarked (h : t.Mirrors m t') (hm : m.MarkersApart) (fuel : Nat) :
    Together (Mirrors m) (run test m fuel t) (run test m.unmarked fuel t') := by
  induction fuel generalizing t t' with
  | zero => exact trivial
  | succ fuel ih =>
    unfold run
    rw [h.tasks]
    cases htasks : t.tasks with
    | nil => exact h
    | cons task rest =>
      have hrest : Mirrors m { t with tasks := rest } { t' with tasks := rest.map (Task.unmarked m) } :=
        { h with
          tasks := rfl
          fit := fun task' htask' => h.fit task' (htasks ▸ List.mem_cons_of_mem task htask') }
      refine (follow_unmarked hrest hm (h.fit task (htasks ▸ List.mem_cons_self))).bind fun u u' hu => ?_
      exact ih hu

end Traversal

/-! ## The outset -/

namespace State

variable {m : Method} {s s' : State} {i : Nat}

theorem Mirrors.ofMethod (m : Method) : (State.ofMethod m).Mirrors m (State.ofMethod m.unmarked) where
  registers := ⟨rfl, rfl, rfl, rfl⟩
  size := rfl
  operand _ := rfl
  stack := rfl
  frames := ⟨by simp [State.ofMethod], by simp [State.ofMethod]⟩
  units := ⟨by simp [State.ofMethod], by simp [State.ofMethod]⟩
  frame i _ := by rw [(Blank.ofMethod m).frame, (Blank.ofMethod m.unmarked).frame]
  unit i _ := by rw [(Blank.ofMethod m).unit, (Blank.ofMethod m.unmarked).unit]
  unit_line i _ := (Blank.ofMethod m).unit i
  entries := rfl
  entry_stays _ he := by cases he
  insn_stays _ hk := by simp [Known, State.ofMethod] at hk
  stack_known _ ho := by cases ho
  rows_known i row hrow := by
    rw [(Blank.ofMethod m).frame] at hrow
    cases hrow
  out_known i o ho := by
    rw [(Blank.ofMethod m).frame] at ho
    cases ho

theorem Mirrors.withHandlerEntry (h : s.Mirrors m s') (hi : m.Stays i) (l : Label) (o : OperandId) :
    Mirrors m { s with handlerEntries := s.handlerEntries ++ [⟨i, l, o⟩] }
      { s' with handlerEntries := s'.handlerEntries ++ [⟨m.place i, l, o⟩] } :=
  { h with
    entries := by simp [h.entries]
    entry_stays := fun e he => by
      rcases List.mem_append.mp he with he | he
      · exact h.entry_stays e he
      · rw [List.mem_singleton.mp he]
        exact hi }

end State

namespace Lowering

variable {m : Method} {s s' : State}

/-- A label stands for the place of the instruction for which it stood. -/
theorem matches_labelIndex_bind {β : Type} {f f' : Nat → LowerM β} {Q : State → β → Prop} {l : Label}
    (hf : ∀ j, m.Stays j → Matches m s s' (f j) (f' (m.place j)) Q) :
    Matches m s s' (monadLift (labelIndex m l) >>= f) (monadLift (labelIndex m.unmarked l) >>= f') Q := by
  have hl := labelIndex_unmarked m l
  cases h : labelIndex m l with
  | error =>
    cases h' : labelIndex m.unmarked l with
    | error => exact trivial
    | ok =>
      rw [h, h'] at hl
      exact hl.elim
  | ok j =>
    cases h' : labelIndex m.unmarked l with
    | error =>
      rw [h, h'] at hl
      exact hl.elim
    | ok =>
      rw [h, h'] at hl
      obtain ⟨rfl, hj⟩ := hl
      exact hf j hj

theorem matches_addHandlerEntry (h : s.Mirrors m s') (l : Label) :
    Matches m s s' (addHandlerEntry m l) (addHandlerEntry m.unmarked l) Anything := by
  refine matches_labelIndex_bind fun i hi => matches_get_bind (matches_ite ?_ (fun _ => ?_) fun _ => matches_pure h trivial)
  · simp [needsEntry, h.handlerEntry? hi]
  · refine matches_bind (matches_freshRegister h) fun r t t' ht _ _ => ?_
    refine matches_bind (matches_newOperand ht hi _ _) fun o u u' hu _ _ => ?_
    exact matches_bind (matches_modify (hu.withHandlerEntry hi l o) (Nat.le_refl _)) fun _ v v' hv _ _ => matches_pure hv trivial

theorem matches_addHandlerEntries (h : s.Mirrors m s') :
    Matches m s s' (addHandlerEntries m) (addHandlerEntries m.unmarked) Anything := by
  refine matches_bind (matches_mapM (R := Anything) (fun _ _ _ _ _ => trivial) h fun l _ t t' ht _ => matches_addHandlerEntry ht l) ?_
  exact fun _ t t' ht _ _ => matches_pure ht trivial

theorem undefinedLabel?_unmarked (m : Method) : undefinedLabel? m.unmarked = undefinedLabel? m := by
  simp only [undefinedLabel?, Method.referredLabels_unmarked, Method.labelIndex?_unmarked, Option.isNone_map]

end Lowering

namespace Traversal

open Lowering

variable {m : Method} {s s' : State} {l : Label}

theorem handlerTask_unmarked (h : s.Mirrors m s') (l : Label) :
    Together (fun task task' => task' = task.unmarked m) (handlerTask m s l) (handlerTask m.unmarked s' l) := by
  refine (labelIndex_unmarked m l).bind ?_
  rintro i _ ⟨rfl, hi⟩
  simp only [LoweringState.entryStack, h.handlerEntry? hi, Option.map_map]
  rfl

/-- The tasks at the outset come along no edge. -/
theorem taskFits_of_start {t : Traversal State} (h : start m = .ok t) : ∀ task ∈ t.tasks, TaskFits m t.state task := by
  intro task htask
  refine ⟨((start_spec h (Guide.free_begins m)).tasks task htask).known, fun key hkey => ?_⟩
  obtain ⟨-, -, -, hedge⟩ := start_eq_ok h
  rw [(hedge task htask).1] at hkey
  cases hkey

/-- The visit of a method begins as it does without line numbers. -/
theorem start_unmarked (hm : m.MarkersApart) : Together (Mirrors m) (start m) (start m.unmarked) := by
  have hdepths : DepthsClosed m (Array.replicate m.code.length none) (Array.replicate m.unmarked.code.length none) := by
    refine ⟨by simp, by simp, fun k hk => by simp [hk.lt, hk.place_lt_length], fun k e hk => ?_⟩
    rw [Array.getElem?_replicate] at hk
    split at hk <;> cases hk
  have hempty : m.unmarked.code.isEmpty = m.code.isEmpty := by
    have hlt := hm.place_lt_length_iff (i := 0)
    rw [Method.place_zero, List.length_pos_iff, List.length_pos_iff] at hlt
    rw [Bool.eq_iff_iff, List.isEmpty_iff, List.isEmpty_iff]
    exact not_iff_not.mp hlt
  suffices hstart : Together (fun t t' : Traversal State => (∀ task ∈ t.tasks, TaskFits m t.state task) → Mirrors m t t') (start m)
      (start m.unmarked) from
    hstart.with_ok.mono fun t t' ⟨started, ht⟩ => ht (taskFits_of_start started)
  unfold start
  rw [undefinedLabel?_unmarked, hempty]
  cases undefinedLabel? m with
  | some l => exact trivial
  | none =>
    dsimp only
    by_cases hnil : m.code.isEmpty
    · rw [if_pos hnil, if_pos hnil]
      exact fun hfit => ⟨.ofMethod m, hdepths, fun _ _ _ => rfl, rfl, hfit⟩
    · rw [if_neg hnil, if_neg hnil]
      refine Together.bind (matches_addHandlerEntries (.ofMethod m)) ?_
      rintro ⟨_, s⟩ ⟨_, s'⟩ ⟨-, hs, -, -⟩
      refine (Together.mapM_map fun l => handlerTask_unmarked hs l).bind ?_
      rintro tasks _ rfl
      exact fun hfit => ⟨hs, hdepths, fun _ _ _ => rfl, by simp [Task.unmarked], hfit⟩

/-- A method is visited as it is without line numbers. -/
theorem complete_unmarked (test : EdgeTest) (hm : m.MarkersApart) : Together (Mirrors m) (complete test m) (complete test m.unmarked) := by
  -- Each method has a bound of its own, and a larger one makes no difference.
  have hbound : m.unmarked.taskBound + 1 + m.taskBound = m.taskBound + 1 + m.unmarked.taskBound := by omega
  rw [← complete_eq_run test m m.unmarked.taskBound, ← complete_eq_run test m.unmarked m.taskBound, hbound]
  exact (start_unmarked hm).bind fun t t' ht => run_unmarked ht hm _

end Traversal
end ThreeAddress
