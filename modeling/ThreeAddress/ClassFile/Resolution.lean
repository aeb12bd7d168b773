import ThreeAddress.ClassFile.Lookup

/-!
# Resolving instructions

`branchOffsets` says where an instruction may send control, `toOperation` resolves its indices and replaces its offsets by labels. Both
go through the instructions on their own.
-/

namespace ThreeAddress.ClassFile

/-- The address at an offset from another. -/
def addressAt (address : Nat) (offset : Int) : Except ClassError Nat :=
  match (address : Int) + offset with
  | .ofNat n => .ok n
  | .negSucc _ => .error (.leavesMethod address)

/-- The type for which a code stands in an instruction that makes an array of a primitive type. -/
def primitiveOfCode? : Nat → Option ValueType
  | 4 => some .boolean
  | 5 => some .char
  | 6 => some .float
  | 7 => some .double
  | 8 => some .byte
  | 9 => some .short
  | 10 => some .int
  | 11 => some .long
  | _ => none

namespace Instruction

/-- The addresses to which an instruction may branch; a switch has its default first. -/
def branchOffsets (address : Nat) : Instruction → Except ClassError (List Nat)
  | .branch _ offset | .goto offset => do return [← addressAt address offset.toInt]
  | .gotoW offset => do return [← addressAt address offset.toInt]
  | .tableswitch default _ _ offsets => (default :: offsets).mapM (addressAt address ·.toInt)
  | .lookupswitch default pairs => (default :: pairs.map (·.2)).mapM (addressAt address ·.toInt)
  | _ => .ok []

/-- The kind of value on which an instruction works; an error if it says none. -/
def operandKind (i : Instruction) : Except ClassError Kind :=
  match i.operandKind? with
  | some kind => .ok kind
  | none => .error (.noOperandKind i)

/-- The label at an offset from an address. -/
def labelAt (labels : Nat → Option Label) (address : Nat) (offset : Int) : Except ClassError Label := do
  let target ← addressAt address offset
  match labels target with
  | some l => .ok l
  | none => .error (.noLabel target)

end Instruction

/-- The operation that an instruction without operands is. -/
def Bare.toOperation (b : Bare) : Except ClassError Operation :=
  let kind := (Instruction.bare b).operandKind
  match b with
  | .nop => .ok .nop
  | .aconstNull => .ok (.const .null)
  | .iconstM1 => .ok (.const (.int (-1)))
  | .iconst0 => .ok (.const (.int 0))
  | .iconst1 => .ok (.const (.int 1))
  | .iconst2 => .ok (.const (.int 2))
  | .iconst3 => .ok (.const (.int 3))
  | .iconst4 => .ok (.const (.int 4))
  | .iconst5 => .ok (.const (.int 5))
  | .lconst0 => .ok (.const (.long 0))
  | .lconst1 => .ok (.const (.long 1))
  | .fconst0 => .ok (.const (.float 0))
  | .fconst1 => .ok (.const (.float 0x3f800000))
  | .fconst2 => .ok (.const (.float 0x40000000))
  | .dconst0 => .ok (.const (.double 0))
  | .dconst1 => .ok (.const (.double 0x3ff0000000000000))
  | .iload0 | .lload0 | .fload0 | .dload0 | .aload0 => (.load · 0) <$> kind
  | .iload1 | .lload1 | .fload1 | .dload1 | .aload1 => (.load · 1) <$> kind
  | .iload2 | .lload2 | .fload2 | .dload2 | .aload2 => (.load · 2) <$> kind
  | .iload3 | .lload3 | .fload3 | .dload3 | .aload3 => (.load · 3) <$> kind
  | .iaload => .ok (.arrayLoad .int)
  | .laload => .ok (.arrayLoad .long)
  | .faload => .ok (.arrayLoad .float)
  | .daload => .ok (.arrayLoad .double)
  | .aaload => .ok (.arrayLoad .object)
  | .baload => .ok (.arrayLoad .byte)
  | .caload => .ok (.arrayLoad .char)
  | .saload => .ok (.arrayLoad .short)
  | .istore0 | .lstore0 | .fstore0 | .dstore0 | .astore0 => (.store · 0) <$> kind
  | .istore1 | .lstore1 | .fstore1 | .dstore1 | .astore1 => (.store · 1) <$> kind
  | .istore2 | .lstore2 | .fstore2 | .dstore2 | .astore2 => (.store · 2) <$> kind
  | .istore3 | .lstore3 | .fstore3 | .dstore3 | .astore3 => (.store · 3) <$> kind
  | .iastore => .ok (.arrayStore .int)
  | .lastore => .ok (.arrayStore .long)
  | .fastore => .ok (.arrayStore .float)
  | .dastore => .ok (.arrayStore .double)
  | .aastore => .ok (.arrayStore .object)
  | .bastore => .ok (.arrayStore .byte)
  | .castore => .ok (.arrayStore .char)
  | .sastore => .ok (.arrayStore .short)
  | .pop => .ok (.shuffle .pop .one)
  | .pop2 => .ok (.shuffle .pop .two)
  | .dup => .ok (.shuffle .dup .one)
  | .dupX1 => .ok (.shuffle .dupX1 .one)
  | .dupX2 => .ok (.shuffle .dupX2 .one)
  | .dup2 => .ok (.shuffle .dup .two)
  | .dup2X1 => .ok (.shuffle .dupX1 .two)
  | .dup2X2 => .ok (.shuffle .dupX2 .two)
  | .swap => .ok (.shuffle .swap .two)
  | .iadd | .ladd | .fadd | .dadd => (.arithmetic · .add) <$> kind
  | .isub | .lsub | .fsub | .dsub => (.arithmetic · .sub) <$> kind
  | .imul | .lmul | .fmul | .dmul => (.arithmetic · .mul) <$> kind
  | .idiv | .ldiv | .fdiv | .ddiv => (.arithmetic · .div) <$> kind
  | .irem | .lrem | .frem | .drem => (.arithmetic · .rem) <$> kind
  | .ineg | .lneg | .fneg | .dneg => (.arithmetic · .neg) <$> kind
  | .ishl | .lshl => (.arithmetic · .shl) <$> kind
  | .ishr | .lshr => (.arithmetic · .shr) <$> kind
  | .iushr | .lushr => (.arithmetic · .ushr) <$> kind
  | .iand | .land => (.arithmetic · .and) <$> kind
  | .ior | .lor => (.arithmetic · .or) <$> kind
  | .ixor | .lxor => (.arithmetic · .xor) <$> kind
  | .i2b => (.convert · .byte) <$> kind
  | .i2c => (.convert · .char) <$> kind
  | .i2s => (.convert · .short) <$> kind
  | .l2i | .f2i | .d2i => (.convert · .int) <$> kind
  | .i2l | .f2l | .d2l => (.convert · .long) <$> kind
  | .i2f | .l2f | .d2f => (.convert · .float) <$> kind
  | .i2d | .l2d | .f2d => (.convert · .double) <$> kind
  | .lcmp => .ok (.compare .long none)
  | .fcmpl => .ok (.compare .float (some .less))
  | .fcmpg => .ok (.compare .float (some .greater))
  | .dcmpl => .ok (.compare .double (some .less))
  | .dcmpg => .ok (.compare .double (some .greater))
  | .ireturn | .lreturn | .freturn | .dreturn | .areturn | .return => .return <$> kind
  | .arraylength => .ok .arrayLength
  | .athrow => .ok .throw
  | .monitorenter => .ok .monitorEnter
  | .monitorexit => .ok .monitorExit

/-- The operation that an access to a local slot is, by the kind of the value and the index of the slot. -/
def Access.toOperation : Access → Kind → Nat → Operation
  | .iload | .lload | .fload | .dload | .aload => .load
  | .istore | .lstore | .fstore | .dstore | .astore => .store

namespace Test

/-- The comparison that a branch makes. -/
def way : Test → Comparison
  | .ifeq | .ifIcmpeq | .ifAcmpeq | .ifnull => .eq
  | .ifne | .ifIcmpne | .ifAcmpne | .ifnonnull => .ne
  | .iflt | .ifIcmplt => .lt
  | .ifge | .ifIcmpge => .ge
  | .ifgt | .ifIcmpgt => .gt
  | .ifle | .ifIcmple => .le

/-- The number of values that a branch compares; one is compared with zero or null. -/
def operands : Test → Count
  | .ifeq | .ifne | .iflt | .ifge | .ifgt | .ifle | .ifnull | .ifnonnull => .one
  | .ifIcmpeq | .ifIcmpne | .ifIcmplt | .ifIcmpge | .ifIcmpgt | .ifIcmple | .ifAcmpeq | .ifAcmpne => .two

end Test

namespace Instruction

/-- The operation that an instruction at an address is. -/
def toOperation (r : Resolver) (labels : Nat → Option Label) (address : Nat) (i : Instruction) : Except ClassError Operation :=
  let label (offset : Int) := labelAt labels address offset
  match i with
  | .bare b => b.toOperation
  | .bipush value => .ok (.const (.int value.toInt32))
  | .sipush value => .ok (.const (.int value.toInt32))
  | .ldc index => .const <$> r.loadable index.toNat
  | .ldcW index | .ldc2W index => .const <$> r.loadable index.toNat
  | .access how index => do return how.toOperation (← i.operandKind) index.toNat
  | .accessWide how index => do return how.toOperation (← i.operandKind) index.toNat
  | .iinc index value => .ok (.increment index.toNat value.toInt16)
  | .iincWide index value => .ok (.increment index.toNat value)
  | .branch test offset => do
    let target ← label offset.toInt
    return .branch (← i.operandKind) test.operands test.way target
  | .goto offset => .jump <$> label offset.toInt
  | .gotoW offset => .jump <$> label offset.toInt
  | .jsr _ => .ok (.unhandled 0xa8 "jsr")
  | .jsrW _ => .ok (.unhandled 0xc9 "jsr_w")
  | .ret _ | .retWide _ => .ok (.unhandled 0xa9 "ret")
  | .tableswitch default low high offsets => do
    let d ← label default.toInt
    return .switch d (.table low high (← offsets.mapM (label ·.toInt)))
  | .lookupswitch default pairs => do
    let d ← label default.toInt
    let pairs ← pairs.mapM fun (key, offset) => (key, ·) <$> label offset.toInt
    return .switch d (.lookup pairs)
  | .getstatic index => .getStatic <$> r.field index.toNat
  | .putstatic index => .putStatic <$> r.field index.toNat
  | .getfield index => .getField <$> r.field index.toNat
  | .putfield index => .putField <$> r.field index.toNat
  | .invokevirtual index => .invoke .virtual <$> r.method index.toNat
  | .invokespecial index => .invoke .special <$> r.method index.toNat
  | .invokestatic index => .invoke .static <$> r.method index.toNat
  | .invokeinterface index _ => .invoke .interface <$> r.method index.toNat
  | .invokedynamic index => .invokeDynamic <$> r.callSite index.toNat
  | .new index => .new <$> r.classType index.toNat
  | .newarray code =>
    match primitiveOfCode? code.toNat with
    | some t => .ok (.newArray t)
    | none => .error (.badArrayType code.toNat)
  | .anewarray index => .newArray <$> r.classType index.toNat
  | .multianewarray index dims => do return .newMultiArray (← r.classType index.toNat) dims.toNat
  | .checkcast index => .cast <$> r.classType index.toNat
  | .instanceof index => .instanceOf <$> r.classType index.toNat

end Instruction
end ThreeAddress.ClassFile
