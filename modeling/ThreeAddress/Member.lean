import ThreeAddress.Descriptor

/-!
# Members of classes

What an instruction names in another class: a field, a method, a method handle. Class names are binary names, with dots.
-/

namespace ThreeAddress

/-- A field of a class. -/
structure FieldRef where
  className : String
  name : String
  type : ValueType
  deriving DecidableEq, Inhabited

/-- A method of a class. -/
structure MethodRef where
  className : String
  name : String
  signature : Signature
  deriving DecidableEq, Inhabited

/-- A method handle, its descriptor kept as it stands. -/
structure MethodHandle where
  kind : Nat
  className : String
  name : String
  descriptor : String
  deriving DecidableEq, Inhabited

/-- A field in angle brackets: class, type and name. -/
def FieldRef.text (f : FieldRef) : String :=
  "<" ++ f.className ++ ": " ++ f.type.text ++ " " ++ f.name ++ ">"

namespace MethodRef

/-- The method of a class, internal or binary name, with a method descriptor. -/
def ofDescriptor (className name descriptor : String) : Except DescriptorError MethodRef :=
  (Signature.ofDescriptor descriptor).map fun signature => { className := ValueType.binaryName className, name, signature }

/-- A method in angle brackets: class, result, name and parameters. -/
def text (m : MethodRef) : String :=
  "<" ++ m.className ++ ": " ++ m.signature.ret.text ++ " " ++ m.name ++ "(" ++ ValueType.listText m.signature.params ++ ")>"

end MethodRef

/-- A method handle after the word that announces it. -/
def MethodHandle.text (h : MethodHandle) : String :=
  "handle: <" ++ h.className ++ ": " ++ h.name ++ h.descriptor ++ ">"

end ThreeAddress
