import ThreeAddress.ClassFile.Opcode
import ThreeAddress.ClassFile.Resolution
import ThreeAddress.Lowering

/-!
# Methods of a class file

The methods of a class file in the form that lowering takes. Every offset that a branch or the exception table names gets a label; the
labels are numbered in the order of the offsets. A label stands before the instruction at its offset, or at the end of the code.
-/

namespace ThreeAddress.ClassFile

/-- The offsets that have labels, in ascending order; the number of a label is the position of its offset. -/
abbrev LabelTable := List Nat

namespace LabelTable

/-- The labels of offsets. -/
def ofOffsets (offsets : List Nat) : LabelTable :=
  offsets.mergeSort.eraseDups

/-- The label at an offset. -/
def label? (t : LabelTable) (offset : Nat) : Option Label :=
  (t.findIdx? (· == offset)).map (⟨·⟩)

/-- The label at an offset that the exception table names. -/
def label (t : LabelTable) (offset : Nat) : Except ClassError Label :=
  match t.label? offset with
  | some l => .ok l
  | none => .error (.noLabel offset)

end LabelTable

/-- The offsets that branches and then the exception table name. -/
def namedOffsets (instructions : List (Nat × Instruction)) (handlers : List HandlerInfo) : Except ClassError (List Nat) := do
  let branches ← instructions.mapM fun (address, i) => i.branchOffsets address
  return branches.flatten ++ handlers.flatMap fun h => [h.first, h.last, h.handler]

/-- What the attributes of code say about the source: its lines, and the names of its variables. -/
structure DebugInfo where
  lines : List LineEntry
  localNames : List LocalName
  deriving DecidableEq, Inhabited

namespace DebugInfo

/-- The line that begins at an offset; the last entry counts. -/
def line? (d : DebugInfo) (offset : Nat) : Option Nat :=
  (d.lines.reverse.find? (·.offset == offset)).map (·.line)

/-- The name of a variable for its slot. -/
def localName (p : Pool) (v : VariableEntry) : Except ClassError LocalName := do
  return { index := v.slot, name := ← p.utf8 v.name }

/-- Adds what one attribute says. -/
def add (p : Pool) (d : DebugInfo) (a : Attribute) : Except ClassError DebugInfo := do
  match ← p.utf8 a.name with
  | "LineNumberTable" => return { d with lines := d.lines ++ (← LineEntry.readTable a.bytes) }
  | "LocalVariableTable" =>
    return { d with localNames := d.localNames ++ (← (← VariableEntry.readTable a.bytes).mapM (localName p)) }
  | _ => return d

/-- What attributes say, in order. -/
def ofAttributes (p : Pool) (as : List Attribute) : Except ClassError DebugInfo :=
  as.foldlM (add p) { lines := [], localNames := [] }

end DebugInfo

/-- The operations of one instruction: the label at its address, the line that begins there, and what it does. -/
def operationsAt (p : Pool) (labels : LabelTable) (d : DebugInfo) (address : Nat) (i : Instruction) :
    Except ClassError (List Operation) := do
  let op ← i.toOperation p.resolver labels.label? address
  return ((labels.label? address).map .label).toList ++ ((d.line? address).map .line).toList ++ [op]

/-- An entry of the exception table with labels for its offsets. -/
def exceptionEntry (p : Pool) (labels : LabelTable) (h : HandlerInfo) : Except ClassError ExceptionEntry := do
  let first ← labels.label h.first
  let last ← labels.label h.last
  let handler ← labels.label h.handler
  let catchType ← if h.catchType = 0 then pure none else some <$> p.className h.catchType
  return ⟨first, last, handler, catchType⟩

/-- What reads the content of a Code attribute. -/
abbrev CodeReader := List UInt8 → Except ClassError CodeInfo

/-- What decodes code: its instructions with their addresses. -/
abbrev Decoder := List UInt8 → List (Nat × Instruction)

/-- The form of a method with code, whose instructions a decoder gives. -/
def methodWithCode (decoder : Decoder) (p : Pool) (className name : String) (signature : Signature) (m : MemberInfo) (code : CodeInfo) :
    Except ClassError Method := do
  let instructions := decoder code.code
  let labels := LabelTable.ofOffsets (← namedOffsets instructions code.handlers)
  let debug ← DebugInfo.ofAttributes p code.attributes
  let operations ← instructions.mapM fun (address, i) => operationsAt p labels debug address i
  let atEnd := ((labels.label? code.code.length).map Operation.label).toList
  let exceptions ← code.handlers.mapM (exceptionEntry p labels)
  return {
    className := ValueType.binaryName className
    name
    signature
    isStatic := m.isStatic
    maxLocals := code.maxLocals
    maxStack := code.maxStack
    code := operations.flatten ++ atEnd
    exceptions
    localNames := debug.localNames }

/-- The form of a method of a class that lowering takes, by a reader of its Code attribute and a decoder of its code; none if the method has
no code. -/
def Pool.toMethodBy? (reader : CodeReader) (decoder : Decoder) (p : Pool) (className : String) (m : MemberInfo) :
    Except ClassError (Option Method) := do
  let name ← p.utf8 m.name
  let signature ← ofDescriptorResult (Signature.ofDescriptor (← p.utf8 m.descriptor))
  if m.hasNoCode then return none
  else
    match ← p.attribute? "Code" m.attributes with
    | none => return none
    | some a => some <$> methodWithCode decoder p className name signature m (← reader a.bytes)

/-- The form of a method of a class that lowering takes; none if the method has no code. -/
def Pool.toMethod? (p : Pool) (className : String) (m : MemberInfo) : Except ClassError (Option Method) :=
  p.toMethodBy? CodeInfo.ofBytes decode className m

namespace ClassInfo

/-- One method of the class; none if it has no code. -/
def method? (c : ClassInfo) (m : MemberInfo) : Except ClassError (Option Method) := do
  let p ← Pool.ofClass c
  p.toMethod? (← p.className c.thisClass) m

/-- All methods of the class that have code. -/
def toMethods (c : ClassInfo) : Except ClassError (List Method) := do
  let p ← Pool.ofClass c
  let name ← p.className c.thisClass
  return (← c.methods.mapM (p.toMethod? name)).filterMap id

/-- Lowers all methods of the class that have code; each succeeds or fails on its own. -/
def lowerAll (c : ClassInfo) (keepLines : Bool) : Except ClassError (List (Except Failure Body)) := do
  return (← c.toMethods).map (·.lower keepLines)

end ClassInfo
end ThreeAddress.ClassFile
