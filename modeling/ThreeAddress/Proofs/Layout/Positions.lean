import ThreeAddress.Proofs.Layout.Finish
import ThreeAddress.Proofs.Lowering.Beginnings

/-!
# Positions

Where the statements of a body stand: behind the identities come the units, one after the other, then the entries of shared handlers, then
at most one statement that does nothing. The positions of the statements of one instruction are a `run`.
-/

namespace ThreeAddress

/-- A list that is made of pieces is the pieces before one of them, that piece, and the pieces behind it. -/
theorem flatMap_split {α β : Type} {as : List α} {i : Nat} {a : α} (f : α → List β) (h : as[i]? = some a) :
    as.flatMap f = (as.take i).flatMap f ++ f a ++ (as.drop (i + 1)).flatMap f := by
  obtain ⟨hlt, rfl⟩ := List.getElem?_eq_some_iff.mp h
  conv_lhs => rw [← List.take_append_drop i as, List.drop_eq_getElem_cons hlt]
  rw [List.flatMap_append, List.flatMap_cons, List.append_assoc]

/-- What stands in a list that is made of pieces stands in one of them, behind the pieces before it. -/
theorem exists_piece {α β : Type} {as : List α} {f : α → List β} {n : Nat} {b : β} (h : (as.flatMap f)[n]? = some b) :
    ∃ i a k, as[i]? = some a ∧ (f a)[k]? = some b ∧ n = ((as.take i).flatMap f).length + k := by
  induction as generalizing n with
  | nil => simp at h
  | cons a as ih =>
    rw [List.flatMap_cons] at h
    by_cases hn : n < (f a).length
    · rw [List.getElem?_append_left hn] at h
      exact ⟨0, a, n, rfl, h, by simp⟩
    · rw [List.getElem?_append_right (Nat.le_of_not_lt hn)] at h
      obtain ⟨i, a', k, ha, hb, heq⟩ := ih h
      refine ⟨i + 1, a', k, ha, hb, ?_⟩
      rw [List.take_succ_cons, List.flatMap_cons, List.length_append]
      omega

/-- What stands in the middle of a list stands there behind what is before it. -/
theorem getElem?_middle {α : Type} {before as behind : List α} {k : Nat} {a : α} (h : as[k]? = some a) :
    (before ++ as ++ behind)[before.length + k]? = some a := by
  have hk := (List.getElem?_eq_some_iff.mp h).1
  rw [List.append_assoc, List.getElem?_append_right (Nat.le_add_right _ _), Nat.add_sub_cancel_left, List.getElem?_append_left hk, h]

namespace Layout

open State

variable {m : Method} {s : State}

/-! ## The order of entries -/

theorem mem_insertEntry {e f : HandlerEntry} {fs : List HandlerEntry} : f ∈ insertEntry e fs ↔ f = e ∨ f ∈ fs := by
  induction fs with
  | nil => simp [insertEntry]
  | cons g fs ih =>
    unfold insertEntry
    split
    · exact List.mem_cons
    · rw [List.mem_cons, ih, List.mem_cons]
      tauto

/-- The entries in order are the entries. -/
theorem mem_sortedEntries {e : HandlerEntry} : e ∈ sortedEntries s ↔ e ∈ s.handlerEntries := by
  unfold sortedEntries
  induction s.handlerEntries with
  | nil => exact Iff.rfl
  | cons f fs ih => rw [List.foldr_cons, mem_insertEntry, ih, List.mem_cons]

theorem length_insertEntry (e : HandlerEntry) (fs : List HandlerEntry) : (insertEntry e fs).length = fs.length + 1 := by
  induction fs with
  | nil => rfl
  | cons g fs ih =>
    unfold insertEntry
    split
    · rfl
    · rw [List.length_cons, ih, List.length_cons]

theorem length_sortedEntries (s : State) : (sortedEntries s).length = s.handlerEntries.length := by
  unfold sortedEntries
  induction s.handlerEntries with
  | nil => rfl
  | cons f fs ih => rw [List.foldr_cons, length_insertEntry, ih, List.length_cons]

/-! ## Source lines -/

theorem length_linesFrom (line : Option Nat) (ops : List Operation) : (linesFrom line ops).length = ops.length := by
  induction ops generalizing line with
  | nil => rfl
  | cons op ops ih => exact congrArg (· + 1) (ih _)

/-- Every operation has its source line, or none. -/
theorem length_sourceLines (m : Method) (keepLines : Bool) : (sourceLines m keepLines).length = m.code.length := by
  unfold sourceLines
  split
  · exact length_linesFrom none m.code
  · exact List.length_map _

namespace Plan

variable {p : Plan} {lines : List (Option Nat)} {i j k : Nat} {l : Label} {d : Draft}

/-! ## Labels -/

/-- The last instruction that is a label can be found if there is one. -/
theorem isSome_lastLabelIndex? : (p.lastLabelIndex? l).isSome ↔ .label l ∈ p.method.code := by
  simp only [lastLabelIndex?, Option.isSome_map, List.find?_isSome, List.mem_reverse, beq_iff_eq]
  constructor
  · rintro ⟨⟨op, i⟩, hmem, rfl⟩
    exact List.fst_mem_of_mem_zipIdx hmem
  · intro h
    obtain ⟨i, hi⟩ := List.getElem?_of_mem h
    exact ⟨(_, i), List.mem_zipIdx_iff_getElem?.mpr hi, rfl⟩

theorem here_of_lastLabelIndex? (h : p.lastLabelIndex? l = some i) : p.method.code[i]? = some (.label l) := by
  simp only [lastLabelIndex?, Option.map_eq_some_iff] at h
  obtain ⟨⟨op, i⟩, hfind, rfl⟩ := h
  have hmem := List.mem_zipIdx_iff_getElem?.mp (List.mem_reverse.mp (List.mem_of_find?_eq_some hfind))
  have hop := List.find?_some hfind
  simp only [beq_iff_eq] at hop
  rw [hmem, hop]

/-- A label that occurs in the code can be looked up. -/
theorem exists_target (h : (p.method.labelIndex? l).isSome) : ∃ k, p.target l = .ok k := by
  obtain ⟨i, hi⟩ := Option.isSome_iff_exists.mp (isSome_lastLabelIndex?.mpr (Method.isSome_labelIndex?.mp h))
  exact ⟨p.position i, by simp [target, hi]⟩

/-- Where no label stands twice, a label names the first statement of its instruction. -/
theorem target_eq_ok (hd : p.method.LabelsDistinct) : p.target l = .ok k ↔ ∃ i, p.method.labelIndex? l = some i ∧ k = p.position i := by
  unfold target
  split
  · rename_i i hi
    have hl := hd.labelIndex?.mpr (here_of_lastLabelIndex? hi)
    simp [hl, eq_comm]
  · rename_i hnone
    have hl : p.method.labelIndex? l = none := by
      rw [← Option.not_isSome_iff_eq_none, Method.isSome_labelIndex?, ← isSome_lastLabelIndex?, hnone]
      simp
    simp [hl]

/-! ## Handlers -/

theorem bindsAt_iff : p.bindsAt l i ↔ p.method.code[i]? = some (.label l) ∧ ∃ o, (p.state.unit i)[0]? = some (.caught o) := by
  rw [bindsAt, Bool.and_eq_true, beq_iff_eq, List.head?_eq_getElem?]
  refine and_congr Iff.rfl ?_
  constructor
  · intro h
    split at h
    · exact ⟨_, by assumption⟩
    · cases h
  · rintro ⟨o, ho⟩
    rw [ho]

/-- Where an exception goes that is caught at a label. -/
inductive Handles (p : Plan) (l : Label) (t : Nat) : Prop where
  /-- The entry of the handler. -/
  | entry {k : Nat} {e : HandlerEntry} (here : (sortedEntries p.state)[k]? = some e) (label : e.label = l)
      (position : t = p.entriesStart + 2 * k)
  /-- The label itself, which binds the exception. -/
  | binds {i : Nat} {o : OperandId} (none : ∀ e ∈ p.state.handlerEntries, e.label ≠ l) (here : p.method.code[i]? = some (.label l))
      (unit : (p.state.unit i)[0]? = some (.caught o)) (position : t = p.unitStart i)
  /-- The label, which binds nothing. -/
  | label (none : ∀ e ∈ p.state.handlerEntries, e.label ≠ l)
      (unbound : ∀ i o, p.method.code[i]? = some (.label l) → (p.state.unit i)[0]? ≠ some (.caught o)) (position : p.target l = .ok t)

theorem handles_of_handlerTarget {t : Nat} (h : p.handlerTarget l = .ok t) : p.Handles l t := by
  unfold handlerTarget at h
  split at h
  · rename_i k hk
    cases h
    obtain ⟨hlt, hlabel, -⟩ := List.findIdx?_eq_some_iff_getElem.mp hk
    exact .entry (List.getElem?_eq_getElem hlt) (beq_iff_eq.mp hlabel) rfl
  · rename_i hnone
    have none : ∀ e ∈ p.state.handlerEntries, e.label ≠ l := by
      simpa only [List.findIdx?_eq_none_iff, mem_sortedEntries, beq_eq_false_iff_ne] using hnone
    split at h
    · rename_i i hi
      cases h
      obtain ⟨here, o, hunit⟩ := bindsAt_iff.mp (List.find?_some hi)
      exact .binds none here hunit rfl
    · rename_i hunbound
      refine .label none (fun i o here hunit => ?_) h
      have hlt := (List.getElem?_eq_some_iff.mp here).1
      refine List.find?_eq_none.mp hunbound i ?_ (bindsAt_iff.mpr ⟨here, o, hunit⟩)
      exact List.mem_reverse.mpr (List.mem_range.mpr hlt)

/-! ## What is placed -/

/-- The statements of a unit, with its source line and its instruction. -/
def placedUnit (x : (List Draft × Option Nat) × Nat) : List Placed :=
  x.1.1.map fun draft => ⟨draft, x.2, x.1.2⟩

/-- The statements of the units. -/
def placedUnits (p : Plan) (lines : List (Option Nat)) : List Placed :=
  (p.state.units.toList.zip lines).zipIdx.flatMap placedUnit

/-- The statements of the entries. -/
def placedEntries (p : Plan) (lines : List (Option Nat)) : List Placed :=
  (sortedEntries p.state).flatMap fun e =>
    [{ draft := .caught e.operand, insn := e.insn, line := lines[e.insn]?.join },
      { draft := .goto e.label, insn := e.insn, line := lines[e.insn]?.join }]

/-- The statement behind everything. -/
def placedEnd (p : Plan) : List Placed :=
  if p.needsEnd then [{ draft := .nop, insn := p.method.code.length, line := none }] else []

theorem placed_eq (p : Plan) (lines : List (Option Nat)) : p.placed lines = p.placedUnits lines ++ p.placedEntries lines ++ p.placedEnd :=
  rfl

/-- What is placed comes from the units in their order. -/
theorem units_of_zip (hlines : lines.length = p.state.units.size) :
    (p.state.units.toList.zip lines).zipIdx.map (·.1.1) = p.state.units.toList := by
  have hzipped : (p.state.units.toList.zip lines).zipIdx.map Prod.fst = p.state.units.toList.zip lines := List.zipIdx_map_fst ..
  rw [show (fun x : (List Draft × Option Nat) × Nat => x.1.1) = Prod.fst ∘ Prod.fst from rfl, ← List.map_map, hzipped,
    List.map_fst_zip (by simp [hlines])]

/-- The statements that are placed: those of the units, those of the entries, and the one behind everything. -/
theorem map_draft_placed (hlines : lines.length = p.state.units.size) : (p.placed lines).map (·.draft) =
    p.state.units.toList.flatten ++ ((sortedEntries p.state).flatMap fun e => [.caught e.operand, .goto e.label]) ++
      if p.needsEnd then [.nop] else [] := by
  have hunit : ∀ x : (List Draft × Option Nat) × Nat, (placedUnit x).map (·.draft) = x.1.1 := fun x => by
    simp [placedUnit, Function.comp_def]
  have hunits : (p.placedUnits lines).map (·.draft) = p.state.units.toList.flatten := by
    rw [placedUnits, List.map_flatMap]
    simp only [hunit]
    rw [List.flatMap_def, units_of_zip hlines]
  rw [placed_eq, List.map_append, List.map_append, hunits, placedEntries, List.map_flatMap, placedEnd]
  split <;> rfl

/-- A unit starts behind the identities and the statements of the units before it. -/
theorem unitStart_eq (hlines : lines.length = p.state.units.size) (i : Nat) :
    p.unitStart i = p.identities + (((p.state.units.toList.zip lines).zipIdx.take i).flatMap placedUnit).length := by
  have hlength : ∀ x : (List Draft × Option Nat) × Nat, (placedUnit x).length = x.1.1.length := fun x => List.length_map _
  rw [unitStart, List.length_flatten, List.length_flatMap]
  conv_lhs => rw [← units_of_zip hlines, ← List.map_take, List.map_map]
  simp only [hlength, Function.comp_def]

/-- The statements of a unit are behind those of all units before it. -/
theorem placedUnits_split (hlines : lines.length = p.state.units.size) (hi : i < p.state.units.size) :
    ∃ before behind, p.placedUnits lines = before ++ (p.state.unit i).map (fun draft => ⟨draft, i, lines[i]?.join⟩) ++ behind ∧
      p.unitStart i = p.identities + before.length := by
  have hunit : p.state.units.toList[i]? = some (p.state.unit i) := by
    simp [State.unit, hi]
  obtain ⟨line, hline⟩ : ∃ line, lines[i]? = some line := ⟨_, List.getElem?_eq_getElem (hlines ▸ hi)⟩
  have hzip : (p.state.units.toList.zip lines)[i]? = some (p.state.unit i, line) := List.getElem?_zip_eq_some.mpr ⟨hunit, hline⟩
  have hpiece : (p.state.units.toList.zip lines).zipIdx[i]? = some ((p.state.unit i, line), i) := by
    rw [List.getElem?_zipIdx, hzip, Option.map_some, Nat.zero_add]
  refine ⟨((p.state.units.toList.zip lines).zipIdx.take i).flatMap placedUnit,
    ((p.state.units.toList.zip lines).zipIdx.drop (i + 1)).flatMap placedUnit, ?_, unitStart_eq hlines i⟩
  rw [hline]
  exact flatMap_split placedUnit hpiece

/-- The entries start behind the identities and all units. -/
theorem entriesStart_eq (hlines : lines.length = p.state.units.size) : p.entriesStart = p.identities + (p.placedUnits lines).length := by
  rw [entriesStart, unitStart_eq hlines, List.take_of_length_le (by simp [hlines]), placedUnits]

/-- Every entry has two statements. -/
theorem endPosition_eq (hlines : lines.length = p.state.units.size) :
    p.endPosition = p.identities + (p.placedUnits lines ++ p.placedEntries lines).length := by
  have hentries : (p.placedEntries lines).length = 2 * p.state.handlerEntries.length := by
    rw [placedEntries, List.length_flatMap, ← length_sortedEntries]
    simp [Nat.mul_comm]
  rw [endPosition, entriesStart_eq hlines, List.length_append, hentries, Nat.add_assoc]

/-- What is placed comes from a unit or from an entry, or does nothing. -/
theorem mem_placed {q : Placed} (h : q ∈ p.placed lines) :
    (q.insn < p.state.units.size ∧ q.draft ∈ p.state.unit q.insn) ∨
      (∃ e ∈ p.state.handlerEntries, q.draft = .caught e.operand ∨ q.draft = .goto e.label) ∨ q.draft = .nop := by
  rw [placed_eq, List.mem_append, List.mem_append] at h
  rcases h with (h | h) | h
  · left
    obtain ⟨⟨⟨unit, line⟩, insn⟩, hx, hq⟩ := List.mem_flatMap.mp h
    obtain ⟨d, hd, rfl⟩ := List.mem_map.mp hq
    have hget := List.mem_zipIdx_iff_getElem?.mp hx
    obtain ⟨hunit, -⟩ := List.getElem?_zip_eq_some.mp hget
    rw [Array.getElem?_toList] at hunit
    obtain ⟨hlt, -⟩ := Array.getElem?_eq_some_iff.mp hunit
    refine ⟨hlt, ?_⟩
    show d ∈ (p.state.units[insn]?).getD []
    rw [hunit]
    exact hd
  · obtain ⟨e, he, hq⟩ := List.mem_flatMap.mp h
    refine Or.inr (Or.inl ⟨e, mem_sortedEntries.mp he, ?_⟩)
    rcases List.mem_cons.mp hq with rfl | hq
    · exact Or.inl rfl
    · rw [List.mem_singleton.mp hq]
      exact Or.inr rfl
  · unfold placedEnd at h
    split at h
    · rw [List.mem_singleton.mp h]
      exact Or.inr (Or.inr rfl)
    · cases h

/-! ## Runs -/

/-- The positions of the statements of an instruction. -/
def run (p : Plan) (insn : Nat) : List Nat :=
  List.range' (p.unitStart insn) (p.state.unit insn).length

theorem mem_run {q : Nat} : q ∈ p.run i ↔ p.unitStart i ≤ q ∧ q < p.unitStart i + (p.state.unit i).length := by
  simp [run, List.mem_range'_1]

theorem run_eq_nil : p.run i = [] ↔ p.state.unit i = [] := by
  simp [run]

/-- Units follow each other without gaps. -/
theorem unitStart_succ (p : Plan) (i : Nat) : p.unitStart (i + 1) = p.unitStart i + (p.state.unit i).length := by
  unfold unitStart State.unit
  rw [List.take_add_one, List.flatten_append, List.length_append, Array.getElem?_toList, Nat.add_assoc]
  cases p.state.units[i]? <;> simp

theorem unitStart_mono (p : Plan) (h : i ≤ j) : p.unitStart i ≤ p.unitStart j := by
  induction h with
  | refl => exact Nat.le_refl _
  | step _ ih => exact Nat.le_trans ih (by rw [unitStart_succ]; omega)

/-- No unit begins behind the entries. -/
theorem unitStart_le_endPosition (p : Plan) (i : Nat) : p.unitStart i ≤ p.endPosition := by
  have hle : p.unitStart i ≤ p.entriesStart := by
    rcases Nat.le_total i p.state.units.size with hi | hi
    · exact p.unitStart_mono hi
    · simp [entriesStart, unitStart, List.take_of_length_le, hi]
  exact Nat.le_trans hle (Nat.le_add_right _ _)

theorem isTrailing_iff : p.isTrailing i ↔ ∀ j, i ≤ j → p.state.unit j = [] := by
  simp only [isTrailing, List.all_eq_true, List.isEmpty_iff]
  constructor
  · intro h j hij
    by_cases hj : j < p.state.units.size
    · refine h _ (List.mem_iff_getElem?.mpr ⟨j - i, ?_⟩)
      rw [List.getElem?_drop, Nat.add_sub_cancel' hij]
      simp [State.unit, hj]
    · simp [State.unit, Array.getElem?_eq_none (Nat.le_of_not_lt hj)]
  · intro h unit hmem
    obtain ⟨k, hk⟩ := List.mem_iff_getElem?.mp hmem
    rw [List.getElem?_drop] at hk
    have := h (i + k) (Nat.le_add_right i k)
    rw [State.unit, ← Array.getElem?_toList, hk] at this
    exact this

/-- Behind the last statement of an instruction begin the entries. -/
theorem isTrailing_iff_unitStart : p.isTrailing i ↔ p.unitStart i = p.entriesStart := by
  have hsplit : (p.state.units.toList.take i).flatten.length + (p.state.units.toList.drop i).flatten.length =
      p.state.units.toList.flatten.length := by
    rw [← List.length_append, ← List.flatten_append, List.take_append_drop]
  have hnil : p.isTrailing i ↔ (p.state.units.toList.drop i).flatten.length = 0 := by
    rw [List.length_eq_zero_iff, List.flatten_eq_nil_iff, isTrailing, List.all_eq_true]
    simp only [List.isEmpty_iff]
  rw [hnil, entriesStart, unitStart, unitStart, List.take_of_length_le (Nat.le_of_eq (Array.length_toList))]
  omega

/-- The first statement of an instruction at or behind one; behind all of them, the end of the body. -/
def entry (p : Plan) (insn : Nat) : Nat :=
  (((List.range' insn (p.state.units.size - insn)).flatMap p.run).head?).getD p.endPosition

/-- A label at an instruction names the first statement at or behind it. -/
theorem position_eq_entry (p : Plan) (i : Nat) : p.position i = p.entry i := by
  by_cases hi : p.state.units.size ≤ i
  · have htrailing : p.isTrailing i := isTrailing_iff.mpr fun j hij => by
      simp [State.unit, Array.getElem?_eq_none (Nat.le_trans hi hij)]
    simp [position, htrailing, entry, Nat.sub_eq_zero_of_le hi]
  · have hsize : p.state.units.size - i = (p.state.units.size - (i + 1)) + 1 := by omega
    have ih := position_eq_entry p (i + 1)
    unfold entry at ih ⊢
    rw [hsize, List.range'_succ, List.flatMap_cons]
    by_cases hu : p.state.unit i = []
    · -- An instruction without statements leaves the position to the next one.
      rw [run_eq_nil.mpr hu, List.nil_append, ← ih]
      have htrailing : p.isTrailing i ↔ p.isTrailing (i + 1) := by
        rw [isTrailing_iff, isTrailing_iff]
        refine ⟨fun h j hij => h j (by omega), fun h j hij => ?_⟩
        rcases Nat.eq_or_lt_of_le hij with rfl | hlt
        · exact hu
        · exact h j hlt
      simp only [position, htrailing, unitStart_succ, hu, List.length_nil, Nat.add_zero]
    · have htrailing : ¬ p.isTrailing i := fun h => hu (isTrailing_iff.mp h i (Nat.le_refl i))
      obtain ⟨d, ds, hds⟩ := List.exists_cons_of_ne_nil hu
      simp [position, htrailing, run, hds, List.range'_succ]
termination_by p.state.units.size - i

/-- A label stands before exactly those statements that belong to instructions at or behind its own. -/
theorem position_le_iff {q : Nat} (h : q ∈ p.run j) : p.position i ≤ q ↔ i ≤ j := by
  obtain ⟨hle, hlt⟩ := mem_run.mp h
  constructor
  · intro hpos
    by_contra hji
    have hstart := p.unitStart_mono (show j + 1 ≤ i by omega)
    rw [unitStart_succ] at hstart
    unfold position at hpos
    split at hpos
    · have hend := p.unitStart_le_endPosition i
      omega
    · omega
  · intro hij
    have hne : ¬ p.isTrailing i := fun htr => by
      rw [isTrailing_iff.mp htr j hij] at hlt
      simp at hlt
      omega
    rw [position, if_neg hne]
    exact Nat.le_trans (p.unitStart_mono hij) hle

end Plan
end Layout
end ThreeAddress
