import ThreeAddress.Proofs.Labels

/-!
# Code without line numbers

`Method.unmarked` is a method without its line numbers and without the names of its local slots. What stays of the code is renumbered: `place`
is the new index of an instruction, and of a line number the new index of what stands behind it. Labels name the same instructions as before.
-/

namespace ThreeAddress

/-- The operation is a line number. -/
def Operation.isLine : Operation → Bool
  | .line _ => true
  | _ => false

namespace Method

/-- The method without line numbers and names of local slots. -/
def unmarked (m : Method) : Method :=
  { m with code := m.code.filter (!·.isLine), localNames := [] }

/-- The index of an instruction in the code without line numbers. -/
def place (m : Method) (i : Nat) : Nat :=
  ((m.code.take i).filter (!·.isLine)).length

/-- An instruction stays when line numbers are left out. -/
def Stays (m : Method) (i : Nat) : Prop :=
  ∃ op, m.code[i]? = some op ∧ op.isLine = false

variable {m : Method} {i j : Nat} {op : Operation} {l : Label}

/-! ## Places -/

@[simp] theorem place_zero : m.place 0 = 0 := rfl

theorem place_succ (here : m.code[i]? = some op) : m.place (i + 1) = m.place i + if op.isLine then 0 else 1 := by
  rw [place, place, List.take_add_one, here, Option.toList_some, List.filter_append, List.length_append]
  cases hline : op.isLine <;> simp [hline]

theorem place_succ_of_line (here : m.code[i]? = some op) (line : op.isLine) : m.place (i + 1) = m.place i := by
  rw [place_succ here, if_pos line, Nat.add_zero]

theorem place_succ_of_not_stays (h : ¬ m.Stays i) : m.place (i + 1) = m.place i := by
  cases here : m.code[i]? with
  | none => rw [place, place, List.take_add_one, here, Option.toList_none, List.append_nil]
  | some op =>
    cases hline : op.isLine with
    | false => exact absurd ⟨op, here, hline⟩ h
    | true => exact place_succ_of_line here hline

theorem Stays.place_succ (h : m.Stays i) : m.place (i + 1) = m.place i + 1 := by
  obtain ⟨op, here, stays⟩ := h
  rw [Method.place_succ here, if_neg (by simp [stays])]

theorem place_mono (h : i ≤ j) : m.place i ≤ m.place j := by
  have htake : m.code.take i <+: m.code.take j := List.take_prefix_take_left h
  exact (htake.filter _).length_le

theorem Stays.place_lt (h : m.Stays i) (hij : i < j) : m.place i < m.place j := by
  have hle := place_mono (m := m) (Nat.succ_le_of_lt hij)
  rw [h.place_succ] at hle
  exact hle

/-- No two instructions that stay have one place. -/
theorem Stays.place_inj (hi : m.Stays i) (hj : m.Stays j) (h : m.place i = m.place j) : i = j := by
  rcases Nat.lt_trichotomy i j with hlt | heq | hlt
  · exact absurd h (Nat.ne_of_lt (hi.place_lt hlt))
  · exact heq
  · exact absurd h.symm (Nat.ne_of_lt (hj.place_lt hlt))

theorem Stays.place_le_iff (hj : m.Stays j) : m.place i ≤ m.place j ↔ i ≤ j := by
  refine ⟨fun h => Nat.le_of_not_lt fun hlt => ?_, place_mono⟩
  exact absurd h (Nat.not_le.mpr (hj.place_lt hlt))

/-- The code behind an instruction without line numbers. -/
theorem drop_unmarked (m : Method) (i : Nat) : m.unmarked.code.drop (m.place i) = (m.code.drop i).filter (!·.isLine) := by
  have hsplit : m.unmarked.code = (m.code.take i).filter (!·.isLine) ++ (m.code.drop i).filter (!·.isLine) := by
    rw [← List.filter_append, List.take_append_drop]
    rfl
  rw [hsplit]
  exact List.drop_left' rfl

theorem getElem?_unmarked (here : m.code[i]? = some op) (stays : op.isLine = false) : m.unmarked.code[m.place i]? = some op := by
  have hdrop : m.code.drop i = op :: m.code.drop (i + 1) := by
    obtain ⟨hlt, rfl⟩ := List.getElem?_eq_some_iff.mp here
    exact List.drop_eq_getElem_cons hlt
  have hunmarked := drop_unmarked m i
  rw [hdrop, List.filter_cons_of_pos (by simp [stays])] at hunmarked
  rw [← Nat.add_zero (m.place i), ← List.getElem?_drop, hunmarked]
  rfl

theorem Stays.lt (h : m.Stays i) : i < m.code.length := by
  obtain ⟨op, here, -⟩ := h
  exact (List.getElem?_eq_some_iff.mp here).1

theorem Stays.place_lt_length (h : m.Stays i) : m.place i < m.unmarked.code.length := by
  obtain ⟨op, here, stays⟩ := h
  exact (List.getElem?_eq_some_iff.mp (getElem?_unmarked here stays)).1

@[simp] theorem place_length : m.place m.code.length = m.unmarked.code.length := by
  rw [place, List.take_length]
  rfl

/-- Labels are no line numbers. -/
theorem stays_of_label (here : m.code[i]? = some (.label l)) : m.Stays i :=
  ⟨_, here, rfl⟩

theorem stays_of_labelIndex? (h : m.labelIndex? l = some i) : m.Stays i :=
  stays_of_label (here_of_labelIndex? h)

/-! ## Instructions with their indices -/

/-- The instructions that stay, with their places. -/
theorem zipIdx_unmarked (m : Method) :
    m.unmarked.code.zipIdx = (m.code.zipIdx.filter (!·.1.isLine)).map fun x => (x.1, m.place x.2) := by
  have all : ∀ (ops : List Operation) (i : Nat), m.code.drop i = ops →
      (ops.filter (!·.isLine)).zipIdx (m.place i) = ((ops.zipIdx i).filter (!·.1.isLine)).map fun x => (x.1, m.place x.2) := by
    intro ops
    induction ops with
    | nil =>
      intro i _
      rfl
    | cons op ops ih =>
      intro i hops
      obtain ⟨here, hrest⟩ := here_of_drop hops
      have hnext := ih (i + 1) hrest
      cases hline : op.isLine with
      | true =>
        rw [place_succ_of_line here hline] at hnext
        simpa [hline] using hnext
      | false =>
        rw [Stays.place_succ ⟨op, here, hline⟩] at hnext
        simpa [hline] using hnext
  exact all m.code 0 rfl

/-- Where no line number is looked for, it makes no difference to a search that they are left out. -/
theorem find?_unmarked {q q' : Operation × Nat → Bool} {xs : List (Operation × Nat)} (line : ∀ x ∈ xs, q x → x.1.isLine = false)
    (same : ∀ x ∈ xs, x.1.isLine = false → q' (x.1, m.place x.2) = q x) :
    ((xs.filter (!·.1.isLine)).map fun x => (x.1, m.place x.2)).find? q' = (xs.find? q).map fun x => (x.1, m.place x.2) := by
  induction xs with
  | nil => rfl
  | cons x xs ih =>
    have hrest := ih (fun y hy => line y (List.mem_cons_of_mem x hy)) fun y hy => same y (List.mem_cons_of_mem x hy)
    cases hline : x.1.isLine with
    | true =>
      have hq : ¬ q x := fun hq => by simp [line x List.mem_cons_self hq] at hline
      rw [List.filter_cons_of_neg (by simp [hline]), hrest, List.find?_cons_of_neg hq]
    | false =>
      rw [List.filter_cons_of_pos (by simp [hline]), List.map_cons, List.find?_cons, List.find?_cons, same x List.mem_cons_self hline]
      cases q x with
      | true => rfl
      | false => exact hrest

/-! ## Labels -/

theorem isLine_of_label (h : op == .label l) : op.isLine = false := by
  rw [beq_iff_eq.mp h]
  rfl

theorem labelIndex?_unmarked : m.unmarked.labelIndex? l = (m.labelIndex? l).map m.place := by
  rw [labelIndex?, labelIndex?, List.findIdx?_eq_fst_find?_zipIdx, List.findIdx?_eq_fst_find?_zipIdx, zipIdx_unmarked,
    find?_unmarked (fun _ _ h => isLine_of_label h) fun _ _ _ => rfl, Option.map_map, Option.map_map]
  rfl

theorem jumpTargets_of_isLine (h : op.isLine) : op.jumpTargets = [] := by
  cases op with
  | line => rfl
  | _ => cases h

@[simp] theorem isJumpTarget_unmarked : m.unmarked.isJumpTarget l = m.isJumpTarget l := by
  rw [Bool.eq_iff_iff]
  simp only [isJumpTarget, unmarked, List.any_eq_true, List.mem_filter, Bool.not_eq_true']
  constructor
  · rintro ⟨op, ⟨hmem, -⟩, hl⟩
    exact ⟨op, hmem, hl⟩
  · rintro ⟨op, hmem, hl⟩
    refine ⟨op, ⟨hmem, ?_⟩, hl⟩
    cases hline : op.isLine with
    | false => rfl
    | true => simp [jumpTargets_of_isLine hline] at hl

@[simp] theorem referredLabels_unmarked : m.unmarked.referredLabels = m.referredLabels := by
  have all : ∀ ops : List Operation, (ops.filter (!·.isLine)).flatMap (·.jumpTargets) = ops.flatMap (·.jumpTargets) := by
    intro ops
    induction ops with
    | nil => rfl
    | cons op ops ih =>
      cases hline : op.isLine with
      | true => simp [hline, ih, jumpTargets_of_isLine hline]
      | false => simp [hline, ih]
  rw [referredLabels, referredLabels, unmarked, all]

/-! ## Where line numbers stand -/

/-- No line number makes a way of its own: the code does not end with one, and where line numbers stand between a branch and its label, some
other instruction does so too. -/
structure MarkersApart (m : Method) : Prop where
  last : ∀ op, m.code.getLast? = some op → op.isLine = false
  branch : ∀ (i j : Nat) (kind : Kind) (operands : Count) (way : Comparison) (l : Label),
    m.code[i]? = some (.branch kind operands way l) → m.labelIndex? l = some j → i + 1 < j → ∃ k, i < k ∧ k < j ∧ m.Stays k

namespace MarkersApart

theorem stays_last (h : m.MarkersApart) (hi : i + 1 = m.code.length) : m.Stays i := by
  have here : m.code.getLast? = m.code[i]? := by rw [List.getLast?_eq_getElem?, ← hi, Nat.add_sub_cancel]
  obtain ⟨op, hop⟩ : ∃ op, m.code[i]? = some op := ⟨_, List.getElem?_eq_getElem (hi ▸ Nat.lt_succ_self i)⟩
  exact ⟨op, hop, h.last op (here.trans hop)⟩

/-- Something stays at or behind every instruction. -/
theorem place_lt_length_iff (h : m.MarkersApart) : m.place i < m.unmarked.code.length ↔ i < m.code.length := by
  constructor
  · intro hlt
    refine Nat.lt_of_not_le fun hle => ?_
    have hmono := place_mono (m := m) hle
    rw [place_length] at hmono
    omega
  · intro hlt
    obtain ⟨k, hk⟩ := Nat.exists_eq_add_one_of_ne_zero (Nat.ne_of_gt (Nat.zero_lt_of_lt hlt))
    have hstays := h.stays_last hk.symm
    exact Nat.lt_of_le_of_lt (place_mono (by omega)) hstays.place_lt_length

/-- The instruction behind a branch and its label have one place only if they are one. -/
theorem branch_inj (h : m.MarkersApart) {kind : Kind} {operands : Count} {way : Comparison}
    (here : m.code[i]? = some (.branch kind operands way l)) (hj : m.labelIndex? l = some j) (hplace : m.place (i + 1) = m.place j) :
    j = i + 1 := by
  have hstays := stays_of_labelIndex? hj
  rcases Nat.lt_trichotomy j (i + 1) with hlt | heq | hlt
  · exact absurd hplace.symm (Nat.ne_of_lt (hstays.place_lt hlt))
  · exact heq
  · obtain ⟨k, hik, hkj, hk⟩ := h.branch i j kind operands way l here hj hlt
    have hle := place_mono (m := m) (Nat.succ_le_of_lt hik)
    exact absurd hplace (Nat.ne_of_lt (Nat.lt_of_le_of_lt hle (hk.place_lt hkj)))

end MarkersApart

/-- The code between two instructions has one that stays. -/
theorem any_between (m : Method) (i j : Nat) :
    ((m.code.take j).drop (i + 1)).any (!·.isLine) ↔ ∃ k, i < k ∧ k < j ∧ m.Stays k := by
  simp only [List.any_eq_true, List.mem_iff_getElem?, List.getElem?_drop, List.getElem?_take, Bool.not_eq_true']
  constructor
  · rintro ⟨op, ⟨k, hk⟩, stays⟩
    split at hk
    · exact ⟨i + 1 + k, by omega, by assumption, op, hk, stays⟩
    · cases hk
  · rintro ⟨k, hik, hkj, op, here, stays⟩
    refine ⟨op, ⟨k - (i + 1), ?_⟩, stays⟩
    rw [Nat.add_sub_cancel' hik, if_pos hkj, here]

/-- Whether a line number makes a way of its own, as a test of the last operation and of every branch. -/
def markersApart (m : Method) : Bool :=
  m.code.getLast?.all (!·.isLine) && m.code.zipIdx.all fun (op, i) =>
    match op with
    | .branch _ _ _ l => (m.labelIndex? l).all fun j => decide (j ≤ i + 1) || ((m.code.take j).drop (i + 1)).any (!·.isLine)
    | _ => true

theorem markersApart_iff : m.markersApart ↔ m.MarkersApart := by
  simp only [markersApart, Bool.and_eq_true, List.all_eq_true, Option.all_eq_true]
  constructor
  · rintro ⟨last, branches⟩
    refine ⟨fun op hop => by simpa using last op hop, fun i j kind operands way l here hj hlt => ?_⟩
    have hbranch := branches (.branch kind operands way l, i) (List.mem_zipIdx_iff_getElem?.mpr here)
    simp only [Option.all_eq_true, Bool.or_eq_true, decide_eq_true_eq] at hbranch
    exact (any_between m i j).mp ((hbranch j hj).resolve_left (Nat.not_le.mpr hlt))
  · rintro ⟨last, branch⟩
    refine ⟨fun op hop => by simp [last op hop], ?_⟩
    rintro ⟨op, i⟩ hmem
    have here := List.mem_zipIdx_iff_getElem?.mp hmem
    cases op with
    | branch kind operands way l =>
      simp only [Option.all_eq_true, Bool.or_eq_true, decide_eq_true_eq]
      intro j hj
      by_cases hle : j ≤ i + 1
      · exact Or.inl hle
      · exact Or.inr ((any_between m i j).mpr (branch i j kind operands way l here hj (Nat.lt_of_not_le hle)))
    | _ => rfl

instance : Decidable m.MarkersApart :=
  decidable_of_iff _ markersApart_iff

end Method
end ThreeAddress
