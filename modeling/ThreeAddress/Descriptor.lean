import ThreeAddress.ValueType

/-!
# Descriptors

A field descriptor writes a type in a few characters: one letter for a primitive type or `void`, `L`, the internal name and a semicolon
for a class, one opening bracket for each dimension of an array before its element. A method descriptor writes the parameters one after
another in parentheses and then the result. `encode` writes a descriptor, `ValueType.ofDescriptor` and `Signature.ofDescriptor` read
one, and a class entry of a constant pool is read by `ValueType.ofClassName`, which takes an internal name or an array descriptor.
-/

namespace ThreeAddress

/-- Why a text is not a descriptor or a class name. -/
inductive DescriptorError where
  /-- The text ends inside a type. -/
  | endsEarly
  /-- No type starts with the character. -/
  | unexpected (c : Char)
  /-- Characters follow the type. -/
  | trailing (descriptor : String)
  | tooManyDimensions
  | missingOpening (descriptor : String)
  | missingClosing
  | emptyClassName
  deriving DecidableEq, Inhabited

namespace DescriptorError

/-- The text of an error. -/
def message : DescriptorError → String
  | .endsEarly => "string ended too soon"
  | .unexpected c => "unexpected character " ++ c.toString
  | .trailing d => "trailing characters in field descriptor `" ++ d ++ "`"
  | .tooManyDimensions => "array type has more than 255 dimensions"
  | .missingOpening d => "descriptor `" ++ d ++ "` missing opening parenthesis"
  | .missingClosing => "descriptor missing closing parenthesis"
  | .emptyClassName => "empty class name"

end DescriptorError

/-- The parameters and the result of a method. -/
structure Signature where
  params : List ValueType
  ret : ValueType
  deriving DecidableEq, Inhabited

namespace ValueType

/-- The array of `dims` more dimensions, or the error that it has too many. -/
def arrayOf (dims : Nat) (t : ValueType) : Except DescriptorError ValueType :=
  match t.arrayOf? dims with
  | some a => .ok a
  | none => .error .tooManyDimensions

/-- The type that a single letter stands for. -/
def ofLetter? : Char → Option ValueType
  | 'Z' => some .boolean
  | 'B' => some .byte
  | 'C' => some .char
  | 'S' => some .short
  | 'I' => some .int
  | 'J' => some .long
  | 'F' => some .float
  | 'D' => some .double
  | 'V' => some .void
  | _ => none

/-- Reads one type and returns it with the characters after it. The name of a class ends at the first semicolon. -/
def readOne : List Char → Except DescriptorError (ValueType × List Char)
  | [] => .error .endsEarly
  | '[' :: cs => do
    let (element, rest) ← readOne cs
    return (← element.arrayOf 1, rest)
  | 'L' :: cs =>
    match cs.dropWhile (· != ';') with
    | _ :: rest => .ok (ofName (String.ofList (cs.takeWhile (· != ';'))), rest)
    | [] => .error .endsEarly
  | c :: cs =>
    match ofLetter? c with
    | some t => .ok (t, cs)
    | none => .error (.unexpected c)

/-- A type takes at least one character. -/
theorem readOne_shorter {cs rest : List Char} {t : ValueType} (h : readOne cs = .ok (t, rest)) : rest.length < cs.length := by
  fun_induction readOne cs generalizing t rest with
  | case1 => simp at h
  | case2 cs ih =>
    simp only [bind, Except.bind] at h
    split at h
    · simp at h
    · next p hp =>
      obtain ⟨e, r⟩ := p
      have := ih hp
      simp only [pure, Except.pure] at h
      split at h
      · simp at h
      · simp only [Except.ok.injEq, Prod.mk.injEq] at h
        obtain ⟨-, rfl⟩ := h
        simp only [List.length_cons]
        omega
  | case3 cs c r hd =>
    simp only [Except.ok.injEq, Prod.mk.injEq] at h
    obtain ⟨-, rfl⟩ := h
    have : (cs.dropWhile (· != ';')).length ≤ cs.length := (List.dropWhile_sublist _).length_le
    rw [hd] at this
    simp only [List.length_cons] at this ⊢
    omega
  | case4 => simp at h
  | case5 => simp_all
  | case6 => simp at h

/-- Reads a text that is exactly one field descriptor. -/
def ofDescriptor (s : String) : Except DescriptorError ValueType := do
  let (t, rest) ← readOne s.toList
  if rest.isEmpty then .ok t else .error (.trailing s)

/-- The type a class entry names: an array descriptor if it starts with a bracket, an internal name otherwise. -/
def ofClassName (name : String) : Except DescriptorError ValueType :=
  if name.startsWith "[" then ofDescriptor name
  else if name.isEmpty then .error .emptyClassName
  else .ok (ofName name)

/-- Reads types one after another up to the end of the text. -/
def readAll (cs : List Char) : Except DescriptorError (List ValueType) :=
  if cs.isEmpty then .ok []
  else
    match h : readOne cs with
    | .error e => .error e
    | .ok (t, rest) =>
      have := readOne_shorter h
      (readAll rest).map (t :: ·)
termination_by cs.length

/-- The letter of a primitive type or `void`. -/
def letter? : ValueType → Option Char
  | .boolean => some 'Z'
  | .byte => some 'B'
  | .char => some 'C'
  | .short => some 'S'
  | .int => some 'I'
  | .long => some 'J'
  | .float => some 'F'
  | .double => some 'D'
  | .void => some 'V'
  | _ => none

/-- The internal name of a class: its binary name with a slash for every dot. -/
def internalName (name : String) : String :=
  name.map fun c => if c = '.' then '/' else c

/-- The characters of the field descriptor of a type; `unknown` has none. -/
def encode : ValueType → List Char
  | .boolean => ['Z']
  | .byte => ['B']
  | .char => ['C']
  | .short => ['S']
  | .int => ['I']
  | .long => ['J']
  | .float => ['F']
  | .double => ['D']
  | .void => ['V']
  | .object name => 'L' :: (internalName name).toList ++ [';']
  | .array element dims => List.replicate dims '[' ++ element.encode
  | .unknown => []

/-- The field descriptor of a type. -/
def descriptor (t : ValueType) : String :=
  String.ofList t.encode

end ValueType

namespace Signature

/-- The characters before the last closing parenthesis and those after it, if there is one. -/
def splitAtLastParen (cs : List Char) : Option (List Char × List Char) :=
  match cs.reverse.dropWhile (· != ')') with
  | [] => none
  | _ :: before => some (before.reverse, (cs.reverse.takeWhile (· != ')')).reverse)

/-- Reads a method descriptor. The parameters end at the last closing parenthesis. -/
def ofDescriptor (s : String) : Except DescriptorError Signature :=
  match s.toList with
  | '(' :: cs =>
    match splitAtLastParen cs with
    | none => .error .missingClosing
    | some (params, ret) => do
      let params ← ValueType.readAll params
      return { params, ret := ← ValueType.ofDescriptor (String.ofList ret) }
  | _ => .error (.missingOpening s)

/-- The method descriptor of a signature. -/
def descriptor (sig : Signature) : String :=
  String.ofList ('(' :: sig.params.flatMap ValueType.encode ++ ')' :: sig.ret.encode)

end Signature
end ThreeAddress
