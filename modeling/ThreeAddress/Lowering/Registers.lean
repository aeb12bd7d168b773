import ThreeAddress.IR.Body
import ThreeAddress.Lowering.Fault

/-!
# Registers

The registers of one method: one for each local slot in use, created when the slot is first used, and one for each stack value that
needs one. Numbers are given in the order of creation. `ordered` is the order of a finished body: the receiver and the parameters, the
other slots by index, the remaining registers by number.
-/

namespace ThreeAddress

structure Registers where
  /-- The number of local slots that the method declares. -/
  maxLocals : Nat
  localNames : List LocalName
  /-- All registers; the number of each is its position. -/
  all : Array Register
  /-- The register of each slot in use. -/
  slots : List (Nat × RegisterId)
  /-- The number of registers that belong to no slot. -/
  synthesized : Nat
  deriving DecidableEq, Inhabited

namespace Registers

/-- No slot of the method is in use. -/
def ofMethod (m : Method) : Registers :=
  { maxLocals := m.maxLocals, localNames := m.localNames, all := #[], slots := [], synthesized := 0 }

/-- The register of a slot in use. -/
def slot? (rs : Registers) (index : Nat) : Option RegisterId :=
  (rs.slots.find? (·.1 == index)).map (·.2)

/-- The name of the register of a slot: its first declared name, or `l` and the index. -/
def slotName (rs : Registers) (index : Nat) : String :=
  ((rs.localNames.find? (·.index == index)).map (·.name)).getD ("l" ++ toString index)

/-- A new register with a name. -/
def create (rs : Registers) (name : String) : RegisterId × Registers :=
  let id : RegisterId := ⟨rs.all.size⟩
  (id, { rs with all := rs.all.push { id, name, type := .unknown } })

/-- The register of a slot, a new one if the slot was not in use. -/
def slot (rs : Registers) (index : Nat) : Except Fault (RegisterId × Registers) :=
  if rs.maxLocals ≤ index then .error (.invalidLocal index rs.maxLocals)
  else
    match rs.slot? index with
    | some id => .ok (id, rs)
    | none =>
      let (id, rs) := rs.create (rs.slotName index)
      .ok (id, { rs with slots := rs.slots ++ [(index, id)] })

/-- A new register that belongs to no slot. Their names count on from the number of slots. -/
def fresh (rs : Registers) : RegisterId × Registers :=
  let (id, rs) := rs.create ("$stack" ++ toString (rs.maxLocals + rs.synthesized))
  (id, { rs with synthesized := rs.synthesized + 1 })

/-- Gives the register of a slot its declared type. -/
def declare (rs : Registers) (index : Nat) (type : ValueType) : Except Fault (RegisterId × Registers) := do
  let (id, rs) ← rs.slot index
  return (id, { rs with all := rs.all.modify id.index fun r => { r with type } })

/-- All registers: those of the `leading` slots in that order, those of the other slots by index, the remaining ones by number. -/
def ordered (rs : Registers) (leading : List Nat) : List Register :=
  let slotted := rs.slots.mergeSort fun a b => a.1 ≤ b.1
  let others := (slotted.filter fun p => !leading.contains p.1).map (·.2)
  let ids := slotted.map (·.2)
  let rest := (rs.all.toList.map (·.id)).filter fun id => !ids.contains id
  (leading.filterMap rs.slot? ++ others ++ rest).eraseDups.filterMap fun id => rs.all[id.index]?

end Registers
end ThreeAddress
