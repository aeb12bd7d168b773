import ThreeAddress.ClassFile.Methods
import ThreeAddress.Proofs.Results

/-!
# What decoding takes from code

A reader takes what it reads from the front of bytes and leaves the others as they are. So the instructions that are decoded stand one
behind the other from the beginning of the code, up to the first bytes that do not begin an instruction, and there are no others that do
(`decode_iff`). What is left over is not an error: a method is made of the instructions in front of it.
-/

namespace ThreeAddress.ClassFile

/-! ## Readers -/

namespace Reader

/-- What a reader leaves of bytes are the last of them. -/
def TakesFront {α : Type} (r : Reader α) : Prop :=
  ∀ (bs : List UInt8) (a : α) (after : List UInt8), r.run bs = some (a, after) → after <:+ bs

section

variable {α β : Type} {r : Reader α} {f : α → Reader β}

@[simp]
theorem takesFront_pure {a : α} : (pure a : Reader α).TakesFront := by
  intro bs a' after h
  cases h
  exact List.suffix_refl bs

@[simp]
theorem takesFront_failure : (failure : Reader α).TakesFront := by
  intro bs a after h
  cases h

@[simp]
theorem takesFront_bind (hr : r.TakesFront) (hf : ∀ a, (f a).TakesFront) : (r >>= f).TakesFront := by
  intro bs b after h
  simp only [StateT.run_bind, Option.bind_eq_bind, Option.bind_eq_some_iff] at h
  obtain ⟨⟨a, between⟩, hread, hrest⟩ := h
  exact (hf a _ _ _ hrest).trans (hr _ _ _ hread)

@[simp]
theorem takesFront_map {g : α → β} (hr : r.TakesFront) : (g <$> r).TakesFront := by
  rw [map_eq_pure_bind]
  exact takesFront_bind hr fun _ => takesFront_pure

@[simp]
theorem takesFront_u1 : u1.TakesFront := by
  intro bs b after h
  cases bs with
  | nil => cases h
  | cons c rest =>
    cases h
    exact List.suffix_cons _ _

@[simp]
theorem takesFront_unsigned (n : Nat) : (unsigned n).TakesFront := by
  induction n with
  | zero => exact takesFront_pure
  | succ n ih => exact takesFront_bind takesFront_u1 fun _ => takesFront_bind ih fun _ => takesFront_pure

@[simp]
theorem takesFront_bytes (n : Nat) : (bytes n).TakesFront := by
  intro bs front after h
  simp only [bytes, StateT.run] at h
  split at h
  · cases h
  · cases h
    exact List.drop_suffix n bs

@[simp]
theorem takesFront_many (hr : r.TakesFront) (n : Nat) : (many r n).TakesFront := by
  induction n with
  | zero => exact takesFront_pure
  | succ n ih => exact takesFront_bind hr fun _ => takesFront_bind ih fun _ => takesFront_pure

@[simp]
theorem takesFront_ensure (p : Bool) : (ensure p).TakesFront := by
  cases p
  · exact takesFront_failure
  · exact takesFront_pure

@[simp]
theorem takesFront_u2 : u2.TakesFront :=
  takesFront_unsigned 2

@[simp]
theorem takesFront_u4 : u4.TakesFront :=
  takesFront_unsigned 4

@[simp]
theorem takesFront_s1 : s1.TakesFront :=
  takesFront_bind (takesFront_unsigned 1) fun _ => takesFront_pure

@[simp]
theorem takesFront_s2 : s2.TakesFront :=
  takesFront_bind takesFront_u2 fun _ => takesFront_pure

@[simp]
theorem takesFront_s4 : s4.TakesFront :=
  takesFront_bind takesFront_u4 fun _ => takesFront_pure

end
end Reader

open Reader

namespace Instruction

@[simp]
theorem takesFront_readIndex : readIndex.TakesFront :=
  takesFront_bind takesFront_u2 fun _ => takesFront_pure

@[simp]
theorem takesFront_readWide : readWide.TakesFront := by
  refine takesFront_bind takesFront_u1 fun opcode => takesFront_bind takesFront_readIndex fun index => ?_
  split
  · exact takesFront_pure
  · exact takesFront_bind takesFront_s2 fun _ => takesFront_pure
  · exact takesFront_pure
  · exact takesFront_failure

theorem takesFront_skipFiller (address : Nat) : (skipFiller address).TakesFront :=
  takesFront_bind (takesFront_bytes _) fun _ => takesFront_pure

@[simp]
theorem takesFront_readTableSwitch (address : Nat) : (readTableSwitch address).TakesFront := by
  refine takesFront_bind (takesFront_skipFiller address) fun _ => ?_
  refine takesFront_bind takesFront_s4 fun default => takesFront_bind takesFront_s4 fun low => takesFront_bind takesFront_s4 fun high => ?_
  exact takesFront_bind (takesFront_ensure _) fun _ => takesFront_bind (takesFront_many takesFront_s4 _) fun _ => takesFront_pure

@[simp]
theorem takesFront_readLookupSwitch (address : Nat) : (readLookupSwitch address).TakesFront := by
  refine takesFront_bind (takesFront_skipFiller address) fun _ => ?_
  refine takesFront_bind takesFront_s4 fun default => takesFront_bind takesFront_u4 fun count => ?_
  have pair : Reader.TakesFront (do return (← s4, ← s4)) :=
    takesFront_bind takesFront_s4 fun _ => takesFront_bind takesFront_s4 fun _ => takesFront_pure
  exact takesFront_bind (takesFront_many pair count) fun _ => takesFront_pure

theorem takesFront_readFurther (address opcode : Nat) : (readFurther address opcode).TakesFront := by
  unfold readFurther
  split <;> try simp
  -- The calls that end in a check of their last bytes are too deep for the simplifier.
  · refine takesFront_bind takesFront_readIndex fun _ => takesFront_bind takesFront_u1 fun _ => takesFront_bind takesFront_u1 fun _ => ?_
    exact takesFront_map (takesFront_ensure _)
  · refine takesFront_bind takesFront_readIndex fun _ => takesFront_bind takesFront_u2 fun _ => ?_
    exact takesFront_map (takesFront_ensure _)

theorem takesFront_readOperands (address opcode : Nat) : (readOperands address opcode).TakesFront := by
  unfold readOperands
  split
  · exact takesFront_pure
  · exact takesFront_bind takesFront_u1 fun _ => takesFront_pure
  · exact takesFront_bind takesFront_s2 fun _ => takesFront_pure
  · exact takesFront_readFurther address opcode

end Instruction

/-! ## Code -/

open Instruction

/-- Bytes at an address begin an instruction. -/
def Begins (address : Nat) (bs : List UInt8) : Prop :=
  ∃ opcode rest i after, bs = opcode :: rest ∧ (readOperands address opcode.toNat).run rest = some (i, after)

/-- Instructions stand in bytes from an address on, each where the one before it ends, and leave the last bytes over. -/
inductive Covers : Nat → List UInt8 → List (Nat × Instruction) → List UInt8 → Prop
  | stop (address : Nat) (bs : List UInt8) : Covers address bs [] bs
  | next {address : Nat} {opcode : UInt8} {used after left : List UInt8} {i : Instruction} {is : List (Nat × Instruction)}
      (read : (readOperands address opcode.toNat).run (used ++ after) = some (i, after))
      (rest : Covers (address + 1 + used.length) after is left) : Covers address (opcode :: (used ++ after)) ((address, i) :: is) left

variable {address : Nat} {opcode : UInt8} {bs used after left : List UInt8} {i : Instruction} {is : List (Nat × Instruction)}

theorem decodeFrom_of_not_begins (h : ¬ Begins address bs) : decodeFrom address bs = [] := by
  cases bs with
  | nil => rw [decodeFrom]
  | cons opcode rest =>
    rw [decodeFrom]
    cases hread : (readOperands address opcode.toNat).run rest with
    | none => rfl
    | some p => exact absurd ⟨opcode, rest, p.1, p.2, rfl, hread⟩ h

theorem decodeFrom_of_read (h : (readOperands address opcode.toNat).run (used ++ after) = some (i, after)) :
    decodeFrom address (opcode :: (used ++ after)) = (address, i) :: decodeFrom (address + 1 + used.length) after := by
  have hle : after.length ≤ (used ++ after).length := by simp
  rw [decodeFrom, h]
  simp only [if_pos hle]
  rw [List.length_append, Nat.add_sub_cancel]

/-- The bytes that are left over are the last ones. -/
theorem Covers.suffix (h : Covers address bs is left) : left <:+ bs := by
  induction h with
  | stop => exact List.suffix_refl _
  | next _ _ ih => exact (ih.trans (List.suffix_append _ _)).trans (List.suffix_cons _ _)

/-- What follows instructions is decoded behind them. -/
theorem Covers.decodeFrom (h : Covers address bs is left) :
    decodeFrom address bs = is ++ decodeFrom (address + (bs.length - left.length)) left := by
  induction h with
  | stop address bs => simp
  | @next address opcode used after left i is read rest ih =>
    have hlen := rest.suffix.length_le
    rw [decodeFrom_of_read read, ih, List.cons_append]
    congr 3
    simp only [List.length_cons, List.length_append]
    omega

/-- What is decoded are the instructions up to the first bytes that do not begin one. -/
theorem covers_decodeFrom (address : Nat) (bs : List UInt8) :
    ∃ left, Covers address bs (decodeFrom address bs) left ∧ ¬ Begins (address + (bs.length - left.length)) left := by
  by_cases hbegins : Begins address bs
  · obtain ⟨opcode, rest, i, after, rfl, hread⟩ := hbegins
    obtain ⟨used, rfl⟩ := takesFront_readOperands _ _ _ _ _ hread
    obtain ⟨left, hcovers, hnot⟩ := covers_decodeFrom (address + 1 + used.length) after
    have hlen := hcovers.suffix.length_le
    refine ⟨left, decodeFrom_of_read hread ▸ .next hread hcovers, ?_⟩
    rwa [List.length_cons, List.length_append,
      show address + (used.length + after.length + 1 - left.length) = address + 1 + used.length + (after.length - left.length) by omega]
  · rw [decodeFrom_of_not_begins hbegins]
    exact ⟨bs, .stop address bs, by simpa using hbegins⟩
termination_by bs.length
decreasing_by subst_vars; simp only [List.length_cons, List.length_append]; omega

/-- Code is decoded to just the instructions that stand in it one behind the other from its beginning, up to the first bytes that do not begin
an instruction. -/
theorem decode_iff {code : List UInt8} :
    decode code = is ↔ ∃ left, Covers 0 code is left ∧ ¬ Begins (code.length - left.length) left := by
  constructor
  · rintro rfl
    simpa only [decode, Nat.zero_add] using covers_decodeFrom 0 code
  · rintro ⟨left, hcovers, hnot⟩
    rw [decode, hcovers.decodeFrom, Nat.zero_add, decodeFrom_of_not_begins hnot, List.append_nil]

-- Bytes that begin no instruction end the code, without an error.
example : decode [0x03, 0xca, 0xac] = [(0, .bare .iconst0)] := by cbv

/-! ## Addresses -/

end ThreeAddress.ClassFile
