import ThreeAddress.Proofs.ClassFile.Branches

/-!
# What instructions are resolved to

An instruction that is resolved becomes one operation that is no mark, neither a label nor a line number, and that branches to the labels of
the addresses to which the instruction may branch.
-/

namespace ThreeAddress

namespace Operation

/-- The label that an operation is. -/
def label? : Operation → Option Label
  | .label l => some l
  | _ => none

/-- The operation is an instruction, not a mark between instructions. -/
def isInstruction : Operation → Bool
  | .label _ | .line _ => false
  | _ => true

theorem label?_eq_some {op : Operation} {l : Label} : op.label? = some l ↔ op = .label l := by
  cases op <;> simp [label?]

theorem label?_of_isInstruction {op : Operation} (h : op.isInstruction) : op.label? = none := by
  cases op <;> first | rfl | cases h

end Operation

namespace ClassFile

namespace Instruction

variable {r : Resolver} {labels : Nat → Option Label} {address : Nat} {offset : Int} {i : Instruction} {op : Operation} {l : Label}

theorem labelAt_eq_ok : labelAt labels address offset = .ok l ↔ ∃ t, addressAt address offset = .ok t ∧ labels t = some l := by
  rw [labelAt, bind_eq_ok]
  refine exists_congr fun t => and_congr_right fun _ => ?_
  cases labels t <;> simp

/-- The labels at offsets are those of the addresses at them. -/
theorem addresses_of_labelsAt {os : List Int32} {ls : List Label} (h : os.mapM (labelAt labels address ·.toInt) = .ok ls) :
    ∃ targets, os.mapM (addressAt address ·.toInt) = .ok targets ∧ targets.map labels = ls.map some := by
  rw [mapM_eq_ok] at h
  induction h with
  | nil => exact ⟨[], rfl, rfl⟩
  | cons hl _ ih =>
    obtain ⟨t, ht, hlabel⟩ := labelAt_eq_ok.mp hl
    obtain ⟨targets, htargets, hmap⟩ := ih
    rw [mapM_eq_ok] at htargets
    exact ⟨t :: targets, mapM_eq_ok.mpr (.cons ht htargets), by rw [List.map_cons, List.map_cons, hlabel, hmap]⟩

/-- An operation is an instruction, and it branches to the labels of addresses that were found: the same ones in the same order, but for the
default of a switch, which comes last. -/
def Resolves (labels : Nat → Option Label) (found : Except ClassError (List Nat)) (op : Operation) : Prop :=
  op.isInstruction ∧ ∃ targets, found = .ok targets ∧ op.labels.map some = (targets.map labels).rotate 1

theorem Resolves.of_plain (hop : op.isInstruction) (h : op.labels = []) : Resolves labels (.ok []) op :=
  ⟨hop, [], rfl, by rw [h]; rfl⟩

theorem Resolves.of_label (hop : op.isInstruction) (h : op.labels = [l]) (hl : labelAt labels address offset = .ok l) :
    Resolves labels (do return [← addressAt address offset]) op := by
  obtain ⟨t, ht, hlabel⟩ := labelAt_eq_ok.mp hl
  refine ⟨hop, [t], by rw [ht]; rfl, ?_⟩
  rw [h, List.map_singleton, List.map_singleton, hlabel, List.rotate_singleton]

theorem Resolves.of_switch {default : Int32} {os : List Int32} {d : Label} {ls : List Label} (hop : op.isInstruction)
    (h : op.labels = ls ++ [d]) (hd : labelAt labels address default.toInt = .ok d)
    (hls : os.mapM (labelAt labels address ·.toInt) = .ok ls) :
    Resolves labels ((default :: os).mapM (addressAt address ·.toInt)) op := by
  have hall : (default :: os).mapM (labelAt labels address ·.toInt) = .ok (d :: ls) := mapM_eq_ok.mpr (.cons hd (mapM_eq_ok.mp hls))
  obtain ⟨targets, htargets, hmap⟩ := addresses_of_labelsAt hall
  refine ⟨hop, targets, htargets, ?_⟩
  rw [h, hmap, List.map_cons, List.rotate_cons_succ, List.rotate_zero, List.map_append, List.map_singleton]

/-- What an instruction is resolved to. -/
theorem resolves_of_toOperation (h : i.toOperation r labels address = .ok op) : Resolves labels (i.branchOffsets address) op := by
  cases i with
  | bare b =>
    have hplain : op.isInstruction ∧ op.labels = [] := by
      cases b <;> cases h <;> exact ⟨rfl, rfl⟩
    exact .of_plain hplain.1 hplain.2
  | access how index | accessWide how index =>
    simp only [toOperation, bind_eq_ok, pure_eq_ok] at h
    obtain ⟨kind, -, rfl⟩ := h
    cases how <;> exact .of_plain rfl rfl
  | branch test offset =>
    simp only [toOperation, bind_eq_ok, pure_eq_ok] at h
    obtain ⟨l, hl, kind, -, rfl⟩ := h
    exact .of_label rfl rfl hl
  | goto offset | gotoW offset =>
    simp only [toOperation, map_eq_ok] at h
    obtain ⟨l, hl, rfl⟩ := h
    exact .of_label rfl rfl hl
  | tableswitch default low high offsets =>
    simp only [toOperation, bind_eq_ok, pure_eq_ok] at h
    obtain ⟨d, hd, ls, hls, rfl⟩ := h
    exact .of_switch rfl rfl hd hls
  | lookupswitch default pairs =>
    simp only [toOperation, pairsAt_eq, bind_eq_ok, pure_eq_ok, map_eq_ok] at h
    obtain ⟨d, hd, _, ⟨ls, hls, rfl⟩, rfl⟩ := h
    have hlength := (mapM_eq_ok.mp hls).length_eq
    refine .of_switch rfl ?_ hd hls
    rw [Operation.labels, List.map_snd_zip (by rw [← hlength, List.length_map, List.length_map])]
  | newarray code =>
    rw [toOperation] at h
    split at h
    · cases h
      exact .of_plain rfl rfl
    · cases h
  | bipush _ | sipush _ | iinc _ _ | iincWide _ _ | jsr _ | jsrW _ | ret _ | retWide _ =>
    cases h
    exact .of_plain rfl rfl
  | multianewarray index dims =>
    simp only [toOperation, bind_eq_ok, pure_eq_ok] at h
    obtain ⟨t, -, rfl⟩ := h
    exact .of_plain rfl rfl
  | _ =>
    simp only [toOperation, map_eq_ok] at h
    obtain ⟨_, -, rfl⟩ := h
    exact .of_plain rfl rfl

end Instruction
end ClassFile
end ThreeAddress
