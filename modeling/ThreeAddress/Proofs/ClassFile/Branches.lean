import Mathlib.Data.List.Rotate
import ThreeAddress.ClassFile.Resolution
import ThreeAddress.Proofs.Labels
import ThreeAddress.Proofs.Results

/-!
# Where instructions branch

`branchOffsets` and `toOperation` go through the instructions on their own: the first decides which addresses get labels, the second looks
the labels up. They agree: where all addresses of the first have labels, the second fails only over an operand that the constant pool or the
code of an array type does not give, and what it makes branches to those labels, a switch to its default last.
-/

namespace ThreeAddress.ClassFile

/-- The constant pool does not give what an instruction asks of an index. -/
inductive Resolver.Fails (r : Resolver) (index : Nat) (e : ClassError) : Prop
  | field (h : r.field index = .error e)
  | method (h : r.method index = .error e)
  | classType (h : r.classType index = .error e)
  | loadable (h : r.loadable index = .error e)
  | callSite (h : r.callSite index = .error e)

namespace Instruction

/-- The index into the constant pool. -/
def poolIndex? : Instruction → Option Nat
  | .ldc index => some index.toNat
  | .ldcW index | .ldc2W index | .getstatic index | .putstatic index | .getfield index | .putfield index | .invokevirtual index
  | .invokespecial index | .invokestatic index | .invokeinterface index _ | .invokedynamic index | .new index | .anewarray index
  | .multianewarray index _ | .checkcast index | .instanceof index => some index.toNat
  | _ => none

/-- An error is due to an operand of the instruction: the constant pool does not give it, or it is the code of no array type. -/
def Refuses (r : Resolver) (i : Instruction) (e : ClassError) : Prop :=
  (∃ index, i.poolIndex? = some index ∧ r.Fails index e) ∨ ∃ code, i = .newarray code ∧ e = .badArrayType code.toNat

/-! ## Labels at offsets -/

section Labels

variable {labels : Nat → Option Label} {address : Nat} {offset : Int} {offsets : List Int32} {t : Nat} {targets : List Nat} {e : ClassError}

theorem labelAt_of_address (h : addressAt address offset = .ok t) (hl : (labels t).isSome) :
    ∃ l, labelAt labels address offset = .ok l ∧ labels t = some l := by
  obtain ⟨l, hl⟩ := Option.isSome_iff_exists.mp hl
  exact ⟨l, by simp only [labelAt, h, bind, Except.bind, hl], hl⟩

theorem labelAt_eq_error (h : addressAt address offset = .error e) : labelAt labels address offset = .error e := by
  rw [labelAt, h]
  rfl

/-- Where all addresses at offsets have labels, these are found. -/
theorem labelsAt_of_addresses (h : offsets.mapM (addressAt address ·.toInt) = .ok targets) (hl : ∀ t ∈ targets, (labels t).isSome) :
    ∃ ls, offsets.mapM (labelAt labels address ·.toInt) = .ok ls ∧ ls.map some = targets.map labels := by
  rw [mapM_eq_ok] at h
  induction h with
  | nil => exact ⟨[], rfl, rfl⟩
  | cons ha _ ih =>
    obtain ⟨l, hla, hlt⟩ := labelAt_of_address ha (hl _ List.mem_cons_self)
    obtain ⟨ls, hls, hmap⟩ := ih fun t ht => hl t (List.mem_cons_of_mem _ ht)
    rw [mapM_eq_ok] at hls
    exact ⟨l :: ls, mapM_eq_ok.mpr (.cons hla hls), by rw [List.map_cons, List.map_cons, hlt, hmap]⟩

/-- Where an offset leaves the method, not all labels are found. -/
theorem exists_labelsAt_error (h : offsets.mapM (addressAt address ·.toInt) = .error e) :
    ∃ e', offsets.mapM (labelAt labels address ·.toInt) = .error e' := by
  obtain ⟨o, ho, hleaves⟩ := error_of_mapM h
  cases hm : offsets.mapM (labelAt labels address ·.toInt) with
  | error e' => exact ⟨e', rfl⟩
  | ok ls =>
    obtain ⟨l, -, hl⟩ := exists_of_forall₂ (mapM_eq_ok.mp hm).flip ho
    exact absurd ((labelAt_eq_error hleaves).symm.trans hl) nofun

/-- The offsets of pairs get the labels that they get without their keys. -/
theorem pairsAt_eq (pairs : List (Int32 × Int32)) :
    (pairs.mapM fun (key, o) => (key, ·) <$> labelAt labels address o.toInt) =
      ((pairs.map (·.1)).zip ·) <$> (pairs.map (·.2)).mapM (labelAt labels address ·.toInt) := by
  induction pairs with
  | nil => rfl
  | cons p pairs ih =>
    obtain ⟨key, o⟩ := p
    simp only [List.mapM_cons, List.map_cons, ih]
    cases labelAt labels address o.toInt with
    | error e => rfl
    | ok l => cases (pairs.map (·.2)).mapM (labelAt labels address ·.toInt) <;> rfl

end Labels
end Instruction

/-! ## Kinds of operands -/

theorem Access.exists_operandKind (how : Access) : ∃ k, how.operandKind? = some k := by
  cases how <;> exact ⟨_, rfl⟩

theorem Test.exists_operandKind (test : Test) : ∃ k, test.operandKind? = some k := by
  cases test <;> exact ⟨_, rfl⟩

/-- Every instruction without operands is an operation, and none of them branches. -/
theorem Bare.exists_operation (b : Bare) : ∃ op, b.toOperation = .ok op ∧ op.labels = [] := by
  cases b <;> exact ⟨_, rfl, rfl⟩

namespace Instruction

/-! ## One instruction -/

/-- What an instruction at an address is resolved to fits what `branchOffsets` found. -/
def Follows (labels : Nat → Option Label) (refuses : ClassError → Prop) (found : Except ClassError (List Nat))
    (resolved : Except ClassError Operation) : Prop :=
  (∀ targets, found = .ok targets → (∀ t ∈ targets, (labels t).isSome) →
    (∀ e, resolved = .error e → refuses e) ∧
    ∀ op, resolved = .ok op → op.labels.map some = (targets.map labels).rotate 1) ∧
  ∀ e, found = .error e → ∃ e', resolved = .error e'

namespace Follows

variable {labels : Nat → Option Label} {refuses : ClassError → Prop} {address : Nat} {offset : Int}

/-- An instruction that branches nowhere and is an operation without labels. -/
theorem of_operation {op : Operation} (h : op.labels = []) : Follows labels refuses (.ok []) (.ok op) := by
  refine ⟨fun targets ht _ => ⟨fun e he => (by cases he), fun op' hop => ?_⟩, fun e he => by cases he⟩
  cases ht
  cases hop
  rw [h]
  rfl

/-- An instruction that branches nowhere and has an operand that is refused. -/
theorem of_error {e : ClassError} (h : refuses e) : Follows labels refuses (.ok []) (.error e) := by
  refine ⟨fun _ _ _ => ⟨fun e' he => ?_, fun op hop => by cases hop⟩, fun e he => by cases he⟩
  cases he
  exact h

/-- An instruction that branches nowhere and is an operation with what the constant pool gives. -/
theorem of_pool {α : Type} {given : Except ClassError α} {make : α → Operation} (hgiven : ∀ e, given = .error e → refuses e)
    (h : ∀ a, (make a).labels = []) : Follows labels refuses (.ok []) (make <$> given) := by
  cases given with
  | error e => exact of_error (hgiven e rfl)
  | ok a => exact of_operation (h a)

/-- An instruction that branches to one label. -/
theorem of_label {make : Label → Operation} (h : ∀ l, (make l).labels = [l]) :
    Follows labels refuses (do return [← addressAt address offset]) (make <$> labelAt labels address offset) := by
  cases ha : addressAt address offset with
  | error e =>
    rw [labelAt_eq_error ha]
    exact ⟨fun targets ht => (by cases ht), fun _ _ => ⟨e, rfl⟩⟩
  | ok t =>
    refine ⟨fun targets ht hlabels => ?_, fun e he => by cases he⟩
    cases ht
    obtain ⟨l, hl, hlt⟩ := labelAt_of_address ha (hlabels t List.mem_cons_self)
    rw [hl]
    refine ⟨fun e he => (by cases he), fun op hop => ?_⟩
    cases hop
    rw [h, List.map_singleton, List.map_singleton, hlt, List.rotate_singleton]

/-- A switch, whose default is found first and stands last. -/
theorem of_switch {default : Int32} {offsets : List Int32} {f : Label → List Label → Operation}
    (h : ∀ d ls, ls.length = offsets.length → (f d ls).labels = ls ++ [d]) :
    Follows labels refuses ((default :: offsets).mapM (addressAt address ·.toInt)) (do
      let d ← labelAt labels address default.toInt
      return f d (← offsets.mapM (labelAt labels address ·.toInt))) := by
  refine ⟨fun targets ht hlabels => ?_, fun e he => ?_⟩
  · obtain ⟨ls, hls, hmap⟩ := labelsAt_of_addresses ht hlabels
    obtain ⟨d, rest, hd, hrest, rfl⟩ := List.forall₂_cons_left_iff.mp (mapM_eq_ok.mp hls)
    rw [hd, mapM_eq_ok.mpr hrest]
    refine ⟨fun e he => (by cases he), fun op hop => ?_⟩
    cases hop
    rw [h d rest hrest.length_eq.symm, ← hmap, List.map_cons, List.rotate_cons_succ, List.rotate_zero, List.map_append,
      List.map_singleton]
  · obtain ⟨e', he'⟩ : ∃ e', (default :: offsets).mapM (labelAt labels address ·.toInt) = .error e' := exists_labelsAt_error he
    rw [List.mapM_cons] at he'
    cases hd : labelAt labels address default.toInt with
    | error e => exact ⟨e, rfl⟩
    | ok d =>
      cases hrest : offsets.mapM (labelAt labels address ·.toInt) with
      | error e => exact ⟨e, rfl⟩
      | ok rest =>
        rw [hd, hrest] at he'
        cases he'

end Follows

variable (r : Resolver) (labels : Nat → Option Label) (address : Nat)

/-- Where every address to which an instruction may branch has a label, the instruction is an operation unless an operand is refused, and
the operation branches to just those labels: in the same order, but for the default of a switch, which comes last. Where an offset leaves
the method, the instruction is no operation. -/
theorem toOperation_follows (i : Instruction) :
    (∀ targets, i.branchOffsets address = .ok targets → (∀ t ∈ targets, (labels t).isSome) →
      (∀ e, i.toOperation r labels address = .error e → i.Refuses r e) ∧
      ∀ op, i.toOperation r labels address = .ok op → op.labels.map some = (targets.map labels).rotate 1) ∧
    ∀ e, i.branchOffsets address = .error e → ∃ e', i.toOperation r labels address = .error e' := by
  change Follows labels (i.Refuses r) _ _
  cases i with
  | bare b =>
    obtain ⟨op, hop, hnone⟩ := b.exists_operation
    rw [toOperation, hop]
    exact .of_operation hnone
  | access how index =>
    obtain ⟨k, hk⟩ := how.exists_operandKind
    rw [toOperation, operandKind, operandKind?, hk]
    exact .of_operation (by cases how <;> rfl)
  | accessWide how index =>
    obtain ⟨k, hk⟩ := how.exists_operandKind
    rw [toOperation, operandKind, operandKind?, hk]
    exact .of_operation (by cases how <;> rfl)
  | branch test offset =>
    obtain ⟨k, hk⟩ := test.exists_operandKind
    rw [toOperation, operandKind, operandKind?, hk]
    exact .of_label fun l => rfl
  | goto offset => exact .of_label fun l => rfl
  | gotoW offset => exact .of_label fun l => rfl
  | tableswitch default low high offsets => exact .of_switch (f := fun d ls => .switch d (.table low high ls)) fun d ls _ => rfl
  | lookupswitch default pairs =>
    simp only [toOperation, pairsAt_eq, bind_map_left]
    refine .of_switch (f := fun d ls => .switch d (.lookup ((pairs.map (·.1)).zip ls))) fun d ls hlength => ?_
    have hkeys : ls.length ≤ (pairs.map (·.1)).length := by
      rw [hlength, List.length_map, List.length_map]
    rw [Operation.labels, List.map_snd_zip hkeys]
  | newarray code =>
    rw [toOperation]
    cases primitiveOfCode? code.toNat with
    | none => exact .of_error (.inr ⟨code, rfl, rfl⟩)
    | some t => exact .of_operation rfl
  | bipush _ | sipush _ | iinc _ _ | iincWide _ _ | jsr _ | jsrW _ | ret _ | retWide _ => exact .of_operation rfl
  | ldc _ | ldcW _ | ldc2W _ => exact .of_pool (fun e he => .inl ⟨_, rfl, .loadable he⟩) fun a => rfl
  | getstatic _ | putstatic _ | getfield _ | putfield _ => exact .of_pool (fun e he => .inl ⟨_, rfl, .field he⟩) fun a => rfl
  | invokevirtual _ | invokespecial _ | invokestatic _ | invokeinterface _ _ =>
    exact .of_pool (fun e he => .inl ⟨_, rfl, .method he⟩) fun a => rfl
  | invokedynamic _ => exact .of_pool (fun e he => .inl ⟨_, rfl, .callSite he⟩) fun a => rfl
  | new _ | anewarray _ | multianewarray _ _ | checkcast _ | instanceof _ =>
    exact .of_pool (fun e he => .inl ⟨_, rfl, .classType he⟩) fun a => rfl

/-- A switch branches to its cases and then to its default; a jump to before the method is no operation. -/
theorem switch_follows :
    (lookupswitch 30 [(1, 10), (5, 20)]).toOperation (Pool.resolver default) (some ⟨·⟩) 0 =
      .ok (.switch ⟨30⟩ (.lookup [(1, ⟨10⟩), (5, ⟨20⟩)])) ∧
    (Operation.switch ⟨30⟩ (.lookup [(1, ⟨10⟩), (5, ⟨20⟩)])).labels.map some = ([30, 10, 20].map (some ⟨·⟩)).rotate 1 ∧
    ∃ e, (goto (-2)).toOperation (Pool.resolver default) (some ⟨·⟩) 1 = .error e := by
  refine ⟨rfl, ?_, ?_⟩
  · exact ((toOperation_follows (Pool.resolver default) (some ⟨·⟩) 0 (lookupswitch 30 [(1, 10), (5, 20)])).1 [30, 10, 20] rfl
      fun _ _ => rfl).2 _ rfl
  · exact (toOperation_follows (Pool.resolver default) (some ⟨·⟩) 1 (goto (-2))).2 _ rfl

end Instruction
end ThreeAddress.ClassFile
