import ThreeAddress.Proofs.ClassFile.Decoding
import ThreeAddress.Proofs.ClassFile.Resolved
import ThreeAddress.Proofs.Layout.Failures
import ThreeAddress.Proofs.Layout.Numbering

/-!
# Where the labels of a class file stand

The code of a class file names places by offsets, a method by labels. Each offset that a branch or the exception table names gets a label; the
label of an offset stands before the instruction at this address, or at the end of the code, and the instructions stand in their order. This
is `LabelsPlaced`. Only a label of an offset that is neither can be missing. The instructions are those up to the first bytes that do not begin
one, and a method has nothing of the rest of its code.
-/

namespace ThreeAddress

namespace ClassFile

variable {a b : Nat} {k l : Label} {offsets : List Nat}

/-! ## Tables of labels -/

theorem eraseDups_sublist {α : Type} [BEq α] [LawfulBEq α] (as : List α) : as.eraseDups.Sublist as := by
  match as with
  | [] => exact .slnil
  | a :: as =>
    rw [List.eraseDups_cons]
    exact ((eraseDups_sublist _).trans List.filter_sublist).cons_cons a
termination_by as.length
decreasing_by exact Nat.lt_succ_of_le (List.length_filter_le _ _)

namespace LabelTable

variable {t : LabelTable}

theorem mem_ofOffsets : a ∈ ofOffsets offsets ↔ a ∈ offsets := by
  rw [ofOffsets, List.mem_eraseDups, List.mem_mergeSort]

/-- The offsets in a table ascend. -/
theorem pairwise_ofOffsets (offsets : List Nat) : (ofOffsets offsets).Pairwise (· < ·) := by
  have hsorted : offsets.mergeSort.Pairwise (· ≤ ·) := by
    have h : offsets.mergeSort.Pairwise fun a b => decide (a ≤ b) = true :=
      List.pairwise_mergeSort (fun a b c => by simpa using Nat.le_trans) (fun a b => by simpa using Nat.le_total a b) offsets
    exact h.imp of_decide_eq_true
  refine ((hsorted.sublist (eraseDups_sublist _)).and (nodup_eraseDups _)).imp ?_
  rintro a b ⟨hle, hne⟩
  exact Nat.lt_of_le_of_ne hle hne

theorem isSome_label? : (t.label? a).isSome ↔ a ∈ t := by
  simp [label?]

/-- The number of a label is the position of its offset. -/
theorem getElem?_of_label? (h : t.label? a = some l) : t[l.number]? = some a := by
  obtain ⟨i, hi, rfl⟩ := Option.map_eq_some_iff.mp h
  obtain ⟨hlt, heq, -⟩ := List.findIdx?_eq_some_iff_getElem.mp hi
  rw [List.getElem?_eq_getElem hlt, beq_iff_eq.mp heq]

/-- In a table that ascends labels are numbered in the order of their offsets. -/
theorem number_lt (ht : t.Pairwise (· < ·)) (ha : t.label? a = some k) (hb : t.label? b = some l) (h : a < b) : k.number < l.number := by
  obtain ⟨hk, rfl⟩ := List.getElem?_eq_some_iff.mp (getElem?_of_label? ha)
  obtain ⟨hl, rfl⟩ := List.getElem?_eq_some_iff.mp (getElem?_of_label? hb)
  by_contra hle
  rcases Nat.lt_or_eq_of_le (Nat.le_of_not_lt hle) with hlt | heq
  · exact Nat.lt_asymm h (List.pairwise_iff_getElem.mp ht _ _ hl hk hlt)
  · simp only [heq, Nat.lt_irrefl] at h

theorem label_eq_ok : t.label a = .ok l ↔ t.label? a = some l := by
  unfold label
  cases t.label? a <;> simp

end LabelTable

/-- Branches or the exception table name an offset. -/
def Names (instructions : List (Nat × Instruction)) (handlers : List HandlerInfo) (a : Nat) : Prop :=
  (∃ address i targets, (address, i) ∈ instructions ∧ i.branchOffsets address = .ok targets ∧ a ∈ targets) ∨
    ∃ h ∈ handlers, a = h.first ∨ a = h.last ∨ a = h.handler

variable {instructions : List (Nat × Instruction)} {handlers : List HandlerInfo}

theorem mem_namedOffsets (h : namedOffsets instructions handlers = .ok offsets) : a ∈ offsets ↔ Names instructions handlers a := by
  simp only [namedOffsets, bind_eq_ok, pure_eq_ok] at h
  obtain ⟨branches, hbranches, rfl⟩ := h
  rw [mapM_eq_ok] at hbranches
  rw [List.mem_append, List.mem_flatten, List.mem_flatMap, Names]
  refine or_congr ⟨?_, ?_⟩ (by simp)
  · rintro ⟨targets, htargets, ha⟩
    obtain ⟨⟨address, i⟩, hi, hoffsets⟩ := exists_of_forall₂ hbranches htargets
    exact ⟨address, i, targets, hi, hoffsets, ha⟩
  · rintro ⟨address, i, targets, hi, hoffsets, ha⟩
    obtain ⟨targets', htargets, hoffsets'⟩ := exists_of_forall₂ hbranches.flip hi
    obtain rfl : targets' = targets := Except.ok.inj (hoffsets'.symm.trans hoffsets)
    exact ⟨targets', htargets, ha⟩

/-! ## The code of a method -/

/-- The marks at an address: the label there, and the line that begins there. -/
def marks (labels : LabelTable) (d : DebugInfo) (address : Nat) : List Operation :=
  ((labels.label? address).map .label).toList ++ ((d.line? address).map .line).toList

/-- Operations, each behind the marks at the address of its instruction. -/
def laid (labels : LabelTable) (d : DebugInfo) (instructions : List (Nat × Instruction)) (ops : List Operation) : List Operation :=
  (List.zipWith (fun x op => marks labels d x.1 ++ [op]) instructions ops).flatten

section

variable {p : Pool} {labels : LabelTable} {d : DebugInfo} {ops : List Operation} {code : CodeInfo} {m : Method} {i : Instruction} {n : Nat}

/-- What instructions are resolved to, one by one. -/
abbrev Resolved (p : Pool) (label? : Nat → Option Label) (instructions : List (Nat × Instruction)) (ops : List Operation) : Prop :=
  List.Forall₂ (fun x op => x.2.toOperation p.resolver label? x.1 = .ok op) instructions ops

theorem marks_filter : (marks labels d a).filter Operation.isInstruction = [] := by
  rw [marks, List.filter_append, List.append_eq_nil_iff]
  constructor
  · cases labels.label? a <;> rfl
  · cases d.line? a <;> rfl

theorem marks_filterMap : (marks labels d a).filterMap Operation.label? = (labels.label? a).toList := by
  rw [marks, List.filterMap_append]
  cases labels.label? a <;> cases d.line? a <;> rfl

theorem Resolved.filter_laid (h : Resolved p labels.label? instructions ops) :
    (laid labels d instructions ops).filter Operation.isInstruction = ops := by
  induction h with
  | nil => rfl
  | cons hop _ ih =>
    have hop := (Instruction.resolves_of_toOperation hop).1
    rw [laid] at ih ⊢
    rw [List.zipWith_cons_cons, List.flatten_cons, List.filter_append, List.filter_append, marks_filter, ih, List.nil_append,
      List.filter_cons_of_pos hop]
    rfl

theorem Resolved.filterMap_laid (h : Resolved p labels.label? instructions ops) :
    (laid labels d instructions ops).filterMap Operation.label? = (instructions.map (·.1)).filterMap labels.label? := by
  induction h with
  | nil => rfl
  | @cons x op _ _ hop _ ih =>
    have hop := Operation.label?_of_isInstruction (Instruction.resolves_of_toOperation hop).1
    rw [laid] at ih ⊢
    rw [List.zipWith_cons_cons, List.flatten_cons, List.filterMap_append, List.filterMap_append, marks_filterMap, ih,
      List.filterMap_cons_none hop, List.filterMap_nil, List.append_nil, List.map_cons, List.filterMap_cons]
    cases labels.label? x.1 <;> rfl

theorem operationsAt_eq_ok : operationsAt p labels d a i = .ok ops ↔
    ∃ op, i.toOperation p.resolver labels.label? a = .ok op ∧ marks labels d a ++ [op] = ops := by
  simp only [operationsAt, bind_eq_ok, pure_eq_ok, marks]

/-- The operations of instructions are laid one behind the other. -/
theorem exists_resolved {operations : List (List Operation)}
    (h : instructions.mapM (fun (address, i) => operationsAt p labels d address i) = .ok operations) :
    ∃ ops, Resolved p labels.label? instructions ops ∧ operations.flatten = laid labels d instructions ops := by
  rw [mapM_eq_ok] at h
  induction h with
  | nil => exact ⟨[], .nil, rfl⟩
  | cons hx _ ih =>
    obtain ⟨op, hop, rfl⟩ := operationsAt_eq_ok.mp hx
    obtain ⟨ops, hops, hlaid⟩ := ih
    exact ⟨op :: ops, .cons hop hops, by rw [List.flatten_cons, hlaid]; rfl⟩

theorem exceptionEntry_eq_ok {h : HandlerInfo} {e : ExceptionEntry} (he : exceptionEntry p labels h = .ok e) :
    labels.label? h.first = some e.first ∧ labels.label? h.last = some e.last ∧ labels.label? h.handler = some e.handler := by
  simp only [exceptionEntry, bind_eq_ok, LabelTable.label_eq_ok] at he
  obtain ⟨first, hfirst, last, hlast, handler, hhandler, he⟩ := he
  split at he
  all_goals
    obtain ⟨_, -, he⟩ := bind_eq_ok.mp he
    cases he
    exact ⟨hfirst, hlast, hhandler⟩

/-- How a method is put together from instructions: its code are the operations that these are resolved to, each behind the marks at its
address, and then the label at the end. -/
structure Assembled (p : Pool) (code : CodeInfo) (instructions : List (Nat × Instruction)) (labels : LabelTable) (d : DebugInfo)
    (ops : List Operation) (m : Method) : Prop where
  table : ∃ offsets, namedOffsets instructions code.handlers = .ok offsets ∧ labels = .ofOffsets offsets
  resolved : Resolved p labels.label? instructions ops
  operations : m.code = laid labels d instructions ops ++ ((labels.label? code.code.length).map Operation.label).toList
  exceptions : List.Forall₂ (fun h e => exceptionEntry p labels h = .ok e) code.handlers m.exceptions

theorem exists_assembled {decoder : Decoder} {className name : String} {signature : Signature} {info : MemberInfo}
    (h : methodWithCode decoder p className name signature info code = .ok m) :
    ∃ labels d ops, Assembled p code (decoder code.code) labels d ops m := by
  simp only [methodWithCode, bind_eq_ok, pure_eq_ok] at h
  obtain ⟨offsets, hoffsets, d, -, operations, hoperations, exceptions, hexceptions, rfl⟩ := h
  obtain ⟨ops, hops, hlaid⟩ := exists_resolved hoperations
  exact ⟨.ofOffsets offsets, d, ops, ⟨offsets, hoffsets, rfl⟩, hops, by rw [hlaid], mapM_eq_ok.mp hexceptions⟩

/-- A method that has code is put together from what its code attribute holds. -/
theorem exists_methodWithCode {reader : CodeReader} {decoder : Decoder} {className : String} {info : MemberInfo}
    (h : p.toMethodBy? reader decoder className info = .ok (some m)) :
    ∃ content code name signature, p.attribute? "Code" info.attributes = .ok (some content) ∧
      reader content.bytes = .ok code ∧ methodWithCode decoder p className name signature info code = .ok m := by
  simp only [Pool.toMethodBy?, bind_eq_ok] at h
  obtain ⟨name, -, _, -, signature, -, h⟩ := h
  split at h
  · cases h
  · simp only [bind_eq_ok] at h
    obtain ⟨found, hfound, h⟩ := h
    cases found with
    | none => cases h
    | some content =>
      simp only [bind_eq_ok, map_eq_ok, Option.some.injEq] at h
      obtain ⟨code, hcode, _, hm, rfl⟩ := h
      exact ⟨content, code, name, signature, hfound, hcode, hm⟩

namespace Assembled

variable {labels : LabelTable}

/-- Without marks the code is what the instructions are resolved to. -/
theorem filter_code (h : Assembled p code instructions labels d ops m) : m.code.filter Operation.isInstruction = ops := by
  rw [h.operations, List.filter_append, h.resolved.filter_laid]
  cases labels.label? code.code.length <;> exact List.append_nil _

/-- The labels in the code are those of the addresses of instructions, and then the one at the end. -/
theorem filterMap_code (h : Assembled p code instructions labels d ops m) :
    m.code.filterMap Operation.label? = (instructions.map (·.1) ++ [code.code.length]).filterMap labels.label? := by
  rw [h.operations, List.filterMap_append, List.filterMap_append, h.resolved.filterMap_laid, List.filterMap_cons]
  cases labels.label? code.code.length <;> rfl

theorem label_mem_code (h : Assembled p code instructions labels d ops m) :
    .label l ∈ m.code ↔ ∃ a, labels.label? a = some l ∧ (a = code.code.length ∨ ∃ i, (a, i) ∈ instructions) := by
  have hmem : .label l ∈ m.code ↔ l ∈ m.code.filterMap Operation.label? := by
    simp [List.mem_filterMap, Operation.label?_eq_some]
  rw [hmem, h.filterMap_code]
  simp only [List.mem_filterMap, List.mem_append, List.mem_map, List.mem_singleton, Prod.exists, exists_and_right, exists_eq_right]
  exact exists_congr fun a => ⟨fun ⟨ha, hl⟩ => ⟨hl, ha.symm⟩, fun ⟨hl, ha⟩ => ⟨ha.symm, hl⟩⟩

theorem isSome_label? (h : Assembled p code instructions labels d ops m) :
    (labels.label? a).isSome ↔ Names instructions code.handlers a := by
  obtain ⟨offsets, hoffsets, rfl⟩ := h.table
  rw [LabelTable.isSome_label?, LabelTable.mem_ofOffsets, mem_namedOffsets hoffsets]

theorem pairwise_labels (h : Assembled p code instructions labels d ops m) : labels.Pairwise (· < ·) := by
  obtain ⟨offsets, -, rfl⟩ := h.table
  exact LabelTable.pairwise_ofOffsets offsets

/-- Each operation is what its instruction is resolved to, and branches to the labels of the addresses that this one names. -/
theorem forall₂_resolves (h : Assembled p code instructions labels d ops m) :
    List.Forall₂ (fun x op => x.2.toOperation p.resolver labels.label? x.1 = .ok op ∧
      ∃ targets, x.2.branchOffsets x.1 = .ok targets ∧ op.labels.map some = (targets.map labels.label?).rotate 1)
      instructions ops :=
  h.resolved.imp fun _ _ hop => ⟨hop, (Instruction.resolves_of_toOperation hop).2⟩

/-- A label that the method refers to is that of an offset which is named. -/
theorem exists_offset (h : Assembled p code instructions labels d ops m) (hl : l ∈ m.referredLabels) :
    ∃ a, labels.label? a = some l ∧ Names instructions code.handlers a := by
  have named : ∀ a, labels.label? a = some l → ∃ a, labels.label? a = some l ∧ Names instructions code.handlers a :=
    fun a ha => ⟨a, ha, h.isSome_label?.mp (Option.isSome_of_eq_some ha)⟩
  rcases List.mem_append.mp hl with hl | hl
  · obtain ⟨e, he, hl⟩ := List.mem_flatMap.mp hl
    obtain ⟨x, -, hx⟩ := exists_of_forall₂ h.exceptions he
    obtain ⟨hfirst, hlast, hhandler⟩ := exceptionEntry_eq_ok hx
    simp only [List.mem_cons, List.not_mem_nil, or_false] at hl
    rcases hl with rfl | rfl | rfl
    · exact named _ hfirst
    · exact named _ hlast
    · exact named _ hhandler
  · obtain ⟨op, hop, hl⟩ := List.mem_flatMap.mp hl
    have hinstruction : op.isInstruction := by
      cases op <;> first | rfl | cases hl
    have hmem : op ∈ ops := h.filter_code ▸ List.mem_filter.mpr ⟨hop, hinstruction⟩
    obtain ⟨x, -, -, targets, -, hjumps⟩ := exists_of_forall₂ h.forall₂_resolves hmem
    have hl : some l ∈ (targets.map labels.label?).rotate 1 := hjumps ▸ List.mem_map_of_mem (op.jumpTargets_eq ▸ hl)
    obtain ⟨a, -, ha⟩ := List.mem_map.mp (List.mem_rotate.mp hl)
    exact named a ha

end Assembled
end

/-! ## Labels in their places -/

namespace Assembled

variable {p : Pool} {labels : LabelTable} {d : DebugInfo} {ops : List Operation} {code : CodeInfo} {m : Method}

/-- The labels in the code ascend with the addresses of the instructions. -/
theorem ascending (h : Assembled p code instructions labels d ops m) (hascend : (instructions.map (·.1)).Pairwise (· < ·))
    (hinside : ∀ a ∈ instructions.map (·.1), a < code.code.length) :
    (m.code.filterMap Operation.label?).Pairwise (·.number < ·.number) := by
  have hall : (instructions.map (·.1) ++ [code.code.length]).Pairwise (· < ·) := by
    rw [List.pairwise_append]
    exact ⟨hascend, List.pairwise_singleton _ _, fun a ha b hb => List.mem_singleton.mp hb ▸ hinside a ha⟩
  rw [h.filterMap_code, List.pairwise_filterMap]
  exact hall.imp fun hab k hk l hl => LabelTable.number_lt h.pairwise_labels hk hl hab

/-- If every offset that is named is the address of an instruction or the end of the code, every label that the method refers to occurs. -/
theorem isSome_labelIndex? (h : Assembled p code instructions labels d ops m)
    (hplaces : ∀ a, Names instructions code.handlers a → a = code.code.length ∨ ∃ i, (a, i) ∈ instructions) :
    ∀ l ∈ m.referredLabels, (m.labelIndex? l).isSome := by
  intro l hl
  obtain ⟨a, ha, hnamed⟩ := h.exists_offset hl
  exact Method.isSome_labelIndex?.mpr (h.label_mem_code.mpr ⟨a, ha, hplaces a hnamed⟩)

end Assembled

/-- The instructions of a method are those that stand in its code one behind the other from its beginning, up to the first bytes that do not
begin an instruction. Of the bytes that are left over the method has nothing. -/
theorem covers_of_toMethod? {p : Pool} {className : String} {info : MemberInfo} {m : Method}
    (h : p.toMethod? className info = .ok (some m)) :
    ∃ content code instructions left label?, p.attribute? "Code" info.attributes = .ok (some content) ∧
      CodeInfo.ofBytes content.bytes = .ok code ∧ Covers 0 code.code instructions left ∧ ¬ Begins (code.code.length - left.length) left ∧
      Resolved p label? instructions (m.code.filter Operation.isInstruction) := by
  obtain ⟨content, code, name, signature, hcontent, hcode, hm⟩ := exists_methodWithCode h
  obtain ⟨labels, d, ops, hassembled⟩ := exists_assembled hm
  obtain ⟨left, hcovers, hnot⟩ := decode_iff.mp (rfl : decode code.code = _)
  exact ⟨content, code, decode code.code, left, labels.label?, hcontent, hcode, hcovers, hnot, hassembled.filter_code.symm ▸ hassembled.resolved⟩

end ClassFile
end ThreeAddress
