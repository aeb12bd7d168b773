import ThreeAddress.Operation

/-!
# Instructions

The instructions of byte code as they are decoded, with indices into the constant pool and offsets relative to their own address. The
instructions that an opcode alone makes up, those that reach a local slot by its index, and the conditional branches are types of their
own.
-/

namespace ThreeAddress.ClassFile

/-- The instructions whose opcode is all there is of them, in the order of the opcodes. -/
inductive Bare where
  | nop | aconstNull | iconstM1 | iconst0 | iconst1 | iconst2 | iconst3 | iconst4 | iconst5 | lconst0 | lconst1 | fconst0 | fconst1
  | fconst2 | dconst0 | dconst1
  | iload0 | iload1 | iload2 | iload3 | lload0 | lload1 | lload2 | lload3
  | fload0 | fload1 | fload2 | fload3 | dload0 | dload1 | dload2 | dload3 | aload0 | aload1 | aload2 | aload3
  | iaload | laload | faload | daload | aaload | baload | caload | saload
  | istore0 | istore1 | istore2 | istore3 | lstore0 | lstore1 | lstore2 | lstore3
  | fstore0 | fstore1 | fstore2 | fstore3 | dstore0 | dstore1 | dstore2 | dstore3 | astore0 | astore1 | astore2 | astore3
  | iastore | lastore | fastore | dastore | aastore | bastore | castore | sastore
  | pop | pop2 | dup | dupX1 | dupX2 | dup2 | dup2X1 | dup2X2 | swap
  | iadd | ladd | fadd | dadd | isub | lsub | fsub | dsub | imul | lmul | fmul | dmul | idiv | ldiv | fdiv | ddiv | irem | lrem | frem
  | drem | ineg | lneg | fneg | dneg
  | ishl | lshl | ishr | lshr | iushr | lushr | iand | land | ior | lor | ixor | lxor
  | i2l | i2f | i2d | l2i | l2f | l2d | f2i | f2l | f2d | d2i | d2l | d2f | i2b | i2c | i2s
  | lcmp | fcmpl | fcmpg | dcmpl | dcmpg
  | ireturn | lreturn | freturn | dreturn | areturn | return
  | arraylength | athrow | monitorenter | monitorexit
  deriving DecidableEq, Inhabited

/-- The instructions that load a value from a local slot, or store one there, with an explicit index. -/
inductive Access where
  | iload | lload | fload | dload | aload
  | istore | lstore | fstore | dstore | astore
  deriving DecidableEq, Inhabited

/-- The instructions that branch if a value is so compared with zero or null, or two values with each other. -/
inductive Test where
  | ifeq | ifne | iflt | ifge | ifgt | ifle
  | ifIcmpeq | ifIcmpne | ifIcmplt | ifIcmpge | ifIcmpgt | ifIcmple
  | ifAcmpeq | ifAcmpne
  | ifnull | ifnonnull
  deriving DecidableEq, Inhabited

inductive Instruction where
  | bare (b : Bare)
  | bipush (value : Int8)
  | sipush (value : Int16)
  | ldc (index : UInt8)
  | ldcW (index : UInt16)
  | ldc2W (index : UInt16)
  | access (how : Access) (index : UInt8)
  | accessWide (how : Access) (index : UInt16)
  | iinc (index : UInt8) (value : Int8)
  | iincWide (index : UInt16) (value : Int16)
  | branch (test : Test) (offset : Int16)
  | goto (offset : Int16)
  | gotoW (offset : Int32)
  | jsr (offset : Int16)
  | jsrW (offset : Int32)
  | ret (index : UInt8)
  | retWide (index : UInt16)
  | tableswitch (default low high : Int32) (offsets : List Int32)
  | lookupswitch (default : Int32) (pairs : List (Int32 × Int32))
  | getstatic (index : UInt16)
  | putstatic (index : UInt16)
  | getfield (index : UInt16)
  | putfield (index : UInt16)
  | invokevirtual (index : UInt16)
  | invokespecial (index : UInt16)
  | invokestatic (index : UInt16)
  | invokeinterface (index : UInt16) (count : UInt8)
  | invokedynamic (index : UInt16)
  | new (index : UInt16)
  /-- Makes an array of a primitive type, given by its code. -/
  | newarray (code : UInt8)
  | anewarray (index : UInt16)
  | multianewarray (index : UInt16) (dims : UInt8)
  | checkcast (index : UInt16)
  | instanceof (index : UInt16)
  deriving DecidableEq, Inhabited

/-! ## Opcodes and names -/

/-- Instructions with their opcodes and names. -/
abbrev OpcodeTable (α : Type) := List (Nat × String × α)

namespace OpcodeTable

variable {α : Type}

/-- The instruction of an opcode. -/
def ofOpcode? (t : OpcodeTable α) (opcode : Nat) : Option α :=
  (t.find? (·.1 == opcode)).map (·.2.2)

/-- The name of an instruction. -/
def name [BEq α] (t : OpcodeTable α) (a : α) : String :=
  ((t.find? (·.2.2 == a)).map (·.2.1)).getD ""

end OpcodeTable

def Bare.table : OpcodeTable Bare :=
  [(0x00, "Nop", .nop), (0x01, "Aconstnull", .aconstNull), (0x02, "Iconstm1", .iconstM1), (0x03, "Iconst0", .iconst0),
    (0x04, "Iconst1", .iconst1), (0x05, "Iconst2", .iconst2), (0x06, "Iconst3", .iconst3), (0x07, "Iconst4", .iconst4),
    (0x08, "Iconst5", .iconst5), (0x09, "Lconst0", .lconst0), (0x0a, "Lconst1", .lconst1), (0x0b, "Fconst0", .fconst0),
    (0x0c, "Fconst1", .fconst1), (0x0d, "Fconst2", .fconst2), (0x0e, "Dconst0", .dconst0), (0x0f, "Dconst1", .dconst1),
    (0x1a, "Iload0", .iload0), (0x1b, "Iload1", .iload1), (0x1c, "Iload2", .iload2), (0x1d, "Iload3", .iload3),
    (0x1e, "Lload0", .lload0), (0x1f, "Lload1", .lload1), (0x20, "Lload2", .lload2), (0x21, "Lload3", .lload3),
    (0x22, "Fload0", .fload0), (0x23, "Fload1", .fload1), (0x24, "Fload2", .fload2), (0x25, "Fload3", .fload3),
    (0x26, "Dload0", .dload0), (0x27, "Dload1", .dload1), (0x28, "Dload2", .dload2), (0x29, "Dload3", .dload3),
    (0x2a, "Aload0", .aload0), (0x2b, "Aload1", .aload1), (0x2c, "Aload2", .aload2), (0x2d, "Aload3", .aload3),
    (0x2e, "Iaload", .iaload), (0x2f, "Laload", .laload), (0x30, "Faload", .faload), (0x31, "Daload", .daload),
    (0x32, "Aaload", .aaload), (0x33, "Baload", .baload), (0x34, "Caload", .caload), (0x35, "Saload", .saload),
    (0x3b, "Istore0", .istore0), (0x3c, "Istore1", .istore1), (0x3d, "Istore2", .istore2), (0x3e, "Istore3", .istore3),
    (0x3f, "Lstore0", .lstore0), (0x40, "Lstore1", .lstore1), (0x41, "Lstore2", .lstore2), (0x42, "Lstore3", .lstore3),
    (0x43, "Fstore0", .fstore0), (0x44, "Fstore1", .fstore1), (0x45, "Fstore2", .fstore2), (0x46, "Fstore3", .fstore3),
    (0x47, "Dstore0", .dstore0), (0x48, "Dstore1", .dstore1), (0x49, "Dstore2", .dstore2), (0x4a, "Dstore3", .dstore3),
    (0x4b, "Astore0", .astore0), (0x4c, "Astore1", .astore1), (0x4d, "Astore2", .astore2), (0x4e, "Astore3", .astore3),
    (0x4f, "Iastore", .iastore), (0x50, "Lastore", .lastore), (0x51, "Fastore", .fastore), (0x52, "Dastore", .dastore),
    (0x53, "Aastore", .aastore), (0x54, "Bastore", .bastore), (0x55, "Castore", .castore), (0x56, "Sastore", .sastore),
    (0x57, "Pop", .pop), (0x58, "Pop2", .pop2), (0x59, "Dup", .dup), (0x5a, "Dupx1", .dupX1), (0x5b, "Dupx2", .dupX2),
    (0x5c, "Dup2", .dup2), (0x5d, "Dup2x1", .dup2X1), (0x5e, "Dup2x2", .dup2X2), (0x5f, "Swap", .swap), (0x60, "Iadd", .iadd),
    (0x61, "Ladd", .ladd), (0x62, "Fadd", .fadd), (0x63, "Dadd", .dadd), (0x64, "Isub", .isub), (0x65, "Lsub", .lsub),
    (0x66, "Fsub", .fsub), (0x67, "Dsub", .dsub), (0x68, "Imul", .imul), (0x69, "Lmul", .lmul), (0x6a, "Fmul", .fmul),
    (0x6b, "Dmul", .dmul), (0x6c, "Idiv", .idiv), (0x6d, "Ldiv", .ldiv), (0x6e, "Fdiv", .fdiv), (0x6f, "Ddiv", .ddiv),
    (0x70, "Irem", .irem), (0x71, "Lrem", .lrem), (0x72, "Frem", .frem), (0x73, "Drem", .drem), (0x74, "Ineg", .ineg),
    (0x75, "Lneg", .lneg), (0x76, "Fneg", .fneg), (0x77, "Dneg", .dneg), (0x78, "Ishl", .ishl), (0x79, "Lshl", .lshl),
    (0x7a, "Ishr", .ishr), (0x7b, "Lshr", .lshr), (0x7c, "Iushr", .iushr), (0x7d, "Lushr", .lushr), (0x7e, "Iand", .iand),
    (0x7f, "Land", .land), (0x80, "Ior", .ior), (0x81, "Lor", .lor), (0x82, "Ixor", .ixor), (0x83, "Lxor", .lxor), (0x85, "I2l", .i2l),
    (0x86, "I2f", .i2f), (0x87, "I2d", .i2d), (0x88, "L2i", .l2i), (0x89, "L2f", .l2f), (0x8a, "L2d", .l2d), (0x8b, "F2i", .f2i),
    (0x8c, "F2l", .f2l), (0x8d, "F2d", .f2d), (0x8e, "D2i", .d2i), (0x8f, "D2l", .d2l), (0x90, "D2f", .d2f), (0x91, "I2b", .i2b),
    (0x92, "I2c", .i2c), (0x93, "I2s", .i2s), (0x94, "Lcmp", .lcmp), (0x95, "Fcmpl", .fcmpl), (0x96, "Fcmpg", .fcmpg),
    (0x97, "Dcmpl", .dcmpl), (0x98, "Dcmpg", .dcmpg), (0xac, "Ireturn", .ireturn), (0xad, "Lreturn", .lreturn),
    (0xae, "Freturn", .freturn), (0xaf, "Dreturn", .dreturn), (0xb0, "Areturn", .areturn), (0xb1, "Return", .return),
    (0xbe, "Arraylength", .arraylength), (0xbf, "Athrow", .athrow), (0xc2, "Monitorenter", .monitorenter),
    (0xc3, "Monitorexit", .monitorexit)]

def Access.table : OpcodeTable Access :=
  [(0x15, "Iload", .iload), (0x16, "Lload", .lload), (0x17, "Fload", .fload), (0x18, "Dload", .dload), (0x19, "Aload", .aload),
    (0x36, "Istore", .istore), (0x37, "Lstore", .lstore), (0x38, "Fstore", .fstore), (0x39, "Dstore", .dstore),
    (0x3a, "Astore", .astore)]

def Test.table : OpcodeTable Test :=
  [(0x99, "Ifeq", .ifeq), (0x9a, "Ifne", .ifne), (0x9b, "Iflt", .iflt), (0x9c, "Ifge", .ifge), (0x9d, "Ifgt", .ifgt),
    (0x9e, "Ifle", .ifle), (0x9f, "IfIcmpeq", .ifIcmpeq), (0xa0, "IfIcmpne", .ifIcmpne), (0xa1, "IfIcmplt", .ifIcmplt),
    (0xa2, "IfIcmpge", .ifIcmpge), (0xa3, "IfIcmpgt", .ifIcmpgt), (0xa4, "IfIcmple", .ifIcmple), (0xa5, "IfAcmpeq", .ifAcmpeq),
    (0xa6, "IfAcmpne", .ifAcmpne), (0xc6, "Ifnull", .ifnull), (0xc7, "Ifnonnull", .ifnonnull)]

namespace Instruction

/-- The text of an instruction with operands that have no names. -/
def tupleText (name : String) (operands : List String) : String :=
  name ++ "(" ++ ", ".intercalate operands ++ ")"

/-- The text of an instruction with operands that have names. -/
def recordText (name : String) (operands : List (String × String)) : String :=
  name ++ " \x7b " ++ ", ".intercalate (operands.map fun (operand, value) => operand ++ ": " ++ value) ++ " \x7d"

/-- The text of an instruction in messages. -/
def text : Instruction → String
  | .bare b => Bare.table.name b
  | .bipush value => tupleText "Bipush" [toString value]
  | .sipush value => tupleText "Sipush" [toString value]
  | .ldc index => tupleText "Ldc" [toString index]
  | .ldcW index => tupleText "LdcW" [toString index]
  | .ldc2W index => tupleText "Ldc2W" [toString index]
  | .access how index => tupleText (Access.table.name how) [toString index]
  | .accessWide how index => tupleText (Access.table.name how ++ "Wide") [toString index]
  | .iinc index value => recordText "Iinc" [("index", toString index), ("value", toString value)]
  | .iincWide index value => recordText "IincWide" [("index", toString index), ("value", toString value)]
  | .branch test offset => tupleText (Test.table.name test) [toString offset]
  | .goto offset => tupleText "Goto" [toString offset]
  | .gotoW offset => tupleText "GotoW" [toString offset]
  | .jsr offset => tupleText "Jsr" [toString offset]
  | .jsrW offset => tupleText "JsrW" [toString offset]
  | .ret index => tupleText "Ret" [toString index]
  | .retWide index => tupleText "RetWide" [toString index]
  | .tableswitch default low high offsets =>
    recordText "Tableswitch"
      [("default", toString default), ("low", toString low), ("high", toString high), ("offsets", toString offsets)]
  | .lookupswitch default pairs =>
    recordText "Lookupswitch" [("default", toString default), ("pairs", toString pairs)]
  | .getstatic index => tupleText "Getstatic" [toString index]
  | .putstatic index => tupleText "Putstatic" [toString index]
  | .getfield index => tupleText "Getfield" [toString index]
  | .putfield index => tupleText "Putfield" [toString index]
  | .invokevirtual index => tupleText "Invokevirtual" [toString index]
  | .invokespecial index => tupleText "Invokespecial" [toString index]
  | .invokestatic index => tupleText "Invokestatic" [toString index]
  | .invokeinterface index count => recordText "Invokeinterface" [("index", toString index), ("count", toString count)]
  | .invokedynamic index => tupleText "Invokedynamic" [toString index]
  | .new index => tupleText "New" [toString index]
  | .newarray code => tupleText "Newarray" [toString code]
  | .anewarray index => tupleText "Anewarray" [toString index]
  | .multianewarray index dims => recordText "Multianewarray" [("index", toString index), ("dimensions", toString dims)]
  | .checkcast index => tupleText "Checkcast" [toString index]
  | .instanceof index => tupleText "Instanceof" [toString index]

end Instruction

/-! ## Kinds of operands -/

/-- The kind of value on which an instruction without operands works, where the instruction itself says it. -/
def Bare.operandKind? : Bare → Option Kind
  | .aconstNull | .aload0 | .aload1 | .aload2 | .aload3 | .astore0 | .astore1 | .astore2 | .astore3 | .areturn => some .object
  | .iconstM1 | .iconst0 | .iconst1 | .iconst2 | .iconst3 | .iconst4 | .iconst5
  | .iload0 | .iload1 | .iload2 | .iload3 | .istore0 | .istore1 | .istore2 | .istore3
  | .iadd | .isub | .imul | .idiv | .irem | .ineg | .ishl | .ishr | .iushr | .iand | .ior | .ixor
  | .ireturn => some .int
  | .lconst0 | .lconst1 | .lload0 | .lload1 | .lload2 | .lload3 | .lstore0 | .lstore1 | .lstore2 | .lstore3
  | .ladd | .lsub | .lmul | .ldiv | .lrem | .lneg | .lshl | .lshr | .lushr | .land | .lor | .lxor
  | .lreturn => some .long
  | .fconst0 | .fconst1 | .fconst2 | .fload0 | .fload1 | .fload2 | .fload3 | .fstore0 | .fstore1 | .fstore2 | .fstore3
  | .fadd | .fsub | .fmul | .fdiv | .frem | .fneg
  | .freturn => some .float
  | .dconst0 | .dconst1 | .dload0 | .dload1 | .dload2 | .dload3 | .dstore0 | .dstore1 | .dstore2 | .dstore3
  | .dadd | .dsub | .dmul | .ddiv | .drem | .dneg
  | .dreturn => some .double
  | .return => some .void
  | .i2l | .i2f | .i2d | .i2b | .i2c | .i2s => some .int
  | .l2i | .l2f | .l2d => some .long
  | .f2i | .f2l | .f2d => some .float
  | .d2i | .d2l | .d2f => some .double
  | _ => none

/-- The kind of value that is loaded or stored. -/
def Access.operandKind? : Access → Option Kind
  | .aload | .astore => some .object
  | .iload | .istore => some .int
  | .lload | .lstore => some .long
  | .fload | .fstore => some .float
  | .dload | .dstore => some .double

/-- The kind of values that are compared. -/
def Test.operandKind? : Test → Option Kind
  | .ifAcmpeq | .ifAcmpne | .ifnull | .ifnonnull => some .object
  | .ifeq | .ifne | .iflt | .ifge | .ifgt | .ifle
  | .ifIcmpeq | .ifIcmpne | .ifIcmplt | .ifIcmpge | .ifIcmpgt | .ifIcmple => some .int

/-- The kind of value on which an instruction works, where the instruction itself says it. -/
def Instruction.operandKind? : Instruction → Option Kind
  | .bare b => b.operandKind?
  | .access how _ | .accessWide how _ => how.operandKind?
  | .branch test _ => test.operandKind?
  | _ => none

end ThreeAddress.ClassFile
