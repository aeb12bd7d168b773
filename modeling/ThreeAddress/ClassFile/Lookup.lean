import ThreeAddress.ClassFile.Structure

/-!
# Looking up constants

A constant pool with the bootstrap methods of its class answers what the indices in instructions mean. Indices count from 1.
-/

namespace ThreeAddress.ClassFile

structure Pool where
  entries : Array PoolEntry
  bootstrap : List BootstrapEntry
  deriving DecidableEq, Inhabited

/-- What the indices in instructions mean. -/
structure Resolver where
  field : Nat → Except ClassError FieldRef
  method : Nat → Except ClassError MethodRef
  classType : Nat → Except ClassError ValueType
  loadable : Nat → Except ClassError Constant
  callSite : Nat → Except ClassError CallSite

/-- The class, the name and the descriptor of a member, as they stand. -/
structure MemberName where
  owner : String
  name : String
  descriptor : String
  deriving DecidableEq, Inhabited

namespace Pool

/-- The entry at an index. -/
def entry (p : Pool) (index : Nat) : Except ClassError PoolEntry :=
  match index with
  | 0 => .error (.outOfRange 0)
  | i + 1 =>
    match p.entries[i]? with
    | some e => .ok e
    | none => .error (.outOfRange index)

/-- The text at an index. -/
def utf8 (p : Pool) (index : Nat) : Except ClassError String := do
  match ← p.entry index with
  | .utf8 bytes => .ok (Text.ofBytes bytes)
  | e => .error (.unexpected .string index e)

/-- The internal name of the class at an index. -/
def className (p : Pool) (index : Nat) : Except ClassError String := do
  match ← p.entry index with
  | .classInfo name => p.utf8 name
  | e => .error (.unexpected .classInfo index e)

/-- The name and the descriptor at an index. -/
def nameAndType (p : Pool) (index : Nat) : Except ClassError (String × String) := do
  match ← p.entry index with
  | .nameAndType name descriptor => return (← p.utf8 name, ← p.utf8 descriptor)
  | e => .error (.unexpected .nameAndType index e)

/-- The field or method at an index. -/
def member (p : Pool) (index : Nat) : Except ClassError MemberName := do
  match ← p.entry index with
  | .fieldRef owner nt | .methodRef owner nt | .interfaceMethodRef owner nt =>
    let (name, descriptor) ← p.nameAndType nt
    return { owner := ← p.className owner, name, descriptor }
  | e => .error (.unexpected .member index e)

/-- The method handle at an index. -/
def methodHandle (p : Pool) (index : Nat) : Except ClassError MethodHandle := do
  match ← p.entry index with
  | .methodHandle kind reference =>
    let m ← p.member reference
    return { kind, className := ValueType.binaryName m.owner, name := m.name, descriptor := m.descriptor }
  | e => .error (.unexpected .methodHandle index e)

/-- The field at an index. -/
def field (p : Pool) (index : Nat) : Except ClassError FieldRef := do
  let m ← p.member index
  return { className := ValueType.binaryName m.owner, name := m.name,
           type := ← ofDescriptorResult (ValueType.ofDescriptor m.descriptor) }

/-- The method at an index. -/
def method (p : Pool) (index : Nat) : Except ClassError MethodRef := do
  match ← p.entry index with
  | .methodRef _ _ | .interfaceMethodRef _ _ =>
    let m ← p.member index
    ofDescriptorResult (MethodRef.ofDescriptor m.owner m.name m.descriptor)
  | e => .error (.unexpected .method index e)

/-- The type that the class at an index stands for. -/
def classType (p : Pool) (index : Nat) : Except ClassError ValueType := do
  ofDescriptorResult (ValueType.ofClassName (← p.className index))

/-- The constant at an index, if it is one that code can load. -/
def loadable (p : Pool) (index : Nat) : Except ClassError Constant := do
  match ← p.entry index with
  | .integer v => .ok (.int v)
  | .float bits => .ok (.float bits)
  | .long v => .ok (.long v)
  | .double bits => .ok (.double bits)
  | .string text => .string <$> p.utf8 text
  | .classInfo name => do return .classType (← ofDescriptorResult (ValueType.ofClassName (← p.utf8 name)))
  | .methodType descriptor => do return .methodType (← ofDescriptorResult (Signature.ofDescriptor (← p.utf8 descriptor)))
  | .methodHandle _ _ => .methodHandle <$> p.methodHandle index
  | e => .error (.notLoadable index e)

/-- The call site at an index. Without a bootstrap method it stands alone. -/
def callSite (p : Pool) (index : Nat) : Except ClassError CallSite := do
  match ← p.entry index with
  | .invokeDynamic bootstrap nt =>
    let (name, descriptor) ← p.nameAndType nt
    let signature ← ofDescriptorResult (Signature.ofDescriptor descriptor)
    match p.bootstrap[bootstrap]? with
    | some b =>
      let handle ← p.methodHandle b.handle
      return { name, signature, bootstrap := some handle, bootstrapArgs := ← b.args.mapM p.loadable }
    | none => return { name, signature, bootstrap := none, bootstrapArgs := [] }
  | e => .error (.unexpected .callSite index e)

/-- What the indices in instructions mean by this pool. -/
def resolver (p : Pool) : Resolver :=
  { field := p.field, method := p.method, classType := p.classType, loadable := p.loadable, callSite := p.callSite }

/-- The first attribute of a name. -/
def attribute? (p : Pool) (name : String) : List Attribute → Except ClassError (Option Attribute)
  | [] => .ok none
  | a :: rest => do if (← p.utf8 a.name) = name then return some a else p.attribute? name rest

/-- The constant pool of a class with its bootstrap methods. -/
def ofClass (c : ClassInfo) : Except ClassError Pool := do
  let p : Pool := { entries := c.pool, bootstrap := [] }
  match ← p.attribute? "BootstrapMethods" c.attributes with
  | some a => return { p with bootstrap := ← BootstrapEntry.readAll a.bytes }
  | none => return p

end Pool
end ThreeAddress.ClassFile
