/-!
# Opcodes

The instructions of the virtual machine, as a program or a reader of class files names them.  An
opcode stands for what an instruction does: the spellings that only shorten an encoding (a variable
index inside the opcode byte, wide operands) are not opcodes of their own, see
`ClassFile.Opcode.Operands`.

`Opcode.code` is the byte of an opcode and `Opcode.ofCode?` finds the opcode of a byte.
-/

namespace ClassFile

/-- An instruction of the virtual machine. -/
inductive Opcode where
  | nop | aconstNull | iconstM1 | iconst0 | iconst1 | iconst2 | iconst3 | iconst4 | iconst5
  | lconst0 | lconst1 | fconst0 | fconst1 | fconst2 | dconst0 | dconst1 | bipush | sipush | ldc
  | iload | lload | fload | dload | aload | iaload | laload | faload | daload | aaload | baload
  | caload | saload | istore | lstore | fstore | dstore | astore | iastore | lastore | fastore
  | dastore | aastore | bastore | castore | sastore | pop | pop2 | dup | dupX1 | dupX2 | dup2
  | dup2X1 | dup2X2 | swap | iadd | ladd | fadd | dadd | isub | lsub | fsub | dsub | imul | lmul
  | fmul | dmul | idiv | ldiv | fdiv | ddiv | irem | lrem | frem | drem | ineg | lneg | fneg | dneg
  | ishl | lshl | ishr | lshr | iushr | lushr | iand | land | ior | lor | ixor | lxor | iinc | i2l
  | i2f | i2d | l2i | l2f | l2d | f2i | f2l | f2d | d2i | d2l | d2f | i2b | i2c | i2s | lcmp
  | fcmpl | fcmpg | dcmpl | dcmpg | ifeq | ifne | iflt | ifge | ifgt | ifle | ifIcmpeq | ifIcmpne
  | ifIcmplt | ifIcmpge | ifIcmpgt | ifIcmple | ifAcmpeq | ifAcmpne | goto | jsr | ret
  | tableswitch | lookupswitch | ireturn | lreturn | freturn | dreturn | areturn | returnVoid
  | getstatic | putstatic | getfield | putfield | invokevirtual | invokespecial | invokestatic
  | invokeinterface | invokedynamic | newObject | newarray | anewarray | arraylength | athrow
  | checkcast | instanceof | monitorenter | monitorexit | multianewarray | ifnull | ifnonnull
  deriving DecidableEq, Inhabited

namespace Opcode

/-- Every opcode, by rising byte. -/
def all : List Opcode :=
  [.nop, .aconstNull, .iconstM1, .iconst0, .iconst1, .iconst2, .iconst3, .iconst4, .iconst5,
   .lconst0, .lconst1, .fconst0, .fconst1, .fconst2, .dconst0, .dconst1, .bipush, .sipush, .ldc,
   .iload, .lload, .fload, .dload, .aload, .iaload, .laload, .faload, .daload, .aaload, .baload,
   .caload, .saload, .istore, .lstore, .fstore, .dstore, .astore, .iastore, .lastore, .fastore,
   .dastore, .aastore, .bastore, .castore, .sastore, .pop, .pop2, .dup, .dupX1, .dupX2, .dup2,
   .dup2X1, .dup2X2, .swap, .iadd, .ladd, .fadd, .dadd, .isub, .lsub, .fsub, .dsub, .imul, .lmul,
   .fmul, .dmul, .idiv, .ldiv, .fdiv, .ddiv, .irem, .lrem, .frem, .drem, .ineg, .lneg, .fneg,
   .dneg, .ishl, .lshl, .ishr, .lshr, .iushr, .lushr, .iand, .land, .ior, .lor, .ixor, .lxor,
   .iinc, .i2l, .i2f, .i2d, .l2i, .l2f, .l2d, .f2i, .f2l, .f2d, .d2i, .d2l, .d2f, .i2b, .i2c, .i2s,
   .lcmp, .fcmpl, .fcmpg, .dcmpl, .dcmpg, .ifeq, .ifne, .iflt, .ifge, .ifgt, .ifle, .ifIcmpeq,
   .ifIcmpne, .ifIcmplt, .ifIcmpge, .ifIcmpgt, .ifIcmple, .ifAcmpeq, .ifAcmpne, .goto, .jsr, .ret,
   .tableswitch, .lookupswitch, .ireturn, .lreturn, .freturn, .dreturn, .areturn, .returnVoid,
   .getstatic, .putstatic, .getfield, .putfield, .invokevirtual, .invokespecial, .invokestatic,
   .invokeinterface, .invokedynamic, .newObject, .newarray, .anewarray, .arraylength, .athrow,
   .checkcast, .instanceof, .monitorenter, .monitorexit, .multianewarray, .ifnull, .ifnonnull]

/-- The byte of an opcode, and its name in listings. -/
def entry : Opcode → UInt8 × String
  | .nop => (0, "nop")
  | .aconstNull => (1, "aconst_null")
  | .iconstM1 => (2, "iconst_m1")
  | .iconst0 => (3, "iconst_0")
  | .iconst1 => (4, "iconst_1")
  | .iconst2 => (5, "iconst_2")
  | .iconst3 => (6, "iconst_3")
  | .iconst4 => (7, "iconst_4")
  | .iconst5 => (8, "iconst_5")
  | .lconst0 => (9, "lconst_0")
  | .lconst1 => (10, "lconst_1")
  | .fconst0 => (11, "fconst_0")
  | .fconst1 => (12, "fconst_1")
  | .fconst2 => (13, "fconst_2")
  | .dconst0 => (14, "dconst_0")
  | .dconst1 => (15, "dconst_1")
  | .bipush => (16, "bipush")
  | .sipush => (17, "sipush")
  | .ldc => (18, "ldc")
  | .iload => (21, "iload")
  | .lload => (22, "lload")
  | .fload => (23, "fload")
  | .dload => (24, "dload")
  | .aload => (25, "aload")
  | .iaload => (46, "iaload")
  | .laload => (47, "laload")
  | .faload => (48, "faload")
  | .daload => (49, "daload")
  | .aaload => (50, "aaload")
  | .baload => (51, "baload")
  | .caload => (52, "caload")
  | .saload => (53, "saload")
  | .istore => (54, "istore")
  | .lstore => (55, "lstore")
  | .fstore => (56, "fstore")
  | .dstore => (57, "dstore")
  | .astore => (58, "astore")
  | .iastore => (79, "iastore")
  | .lastore => (80, "lastore")
  | .fastore => (81, "fastore")
  | .dastore => (82, "dastore")
  | .aastore => (83, "aastore")
  | .bastore => (84, "bastore")
  | .castore => (85, "castore")
  | .sastore => (86, "sastore")
  | .pop => (87, "pop")
  | .pop2 => (88, "pop2")
  | .dup => (89, "dup")
  | .dupX1 => (90, "dup_x1")
  | .dupX2 => (91, "dup_x2")
  | .dup2 => (92, "dup2")
  | .dup2X1 => (93, "dup2_x1")
  | .dup2X2 => (94, "dup2_x2")
  | .swap => (95, "swap")
  | .iadd => (96, "iadd")
  | .ladd => (97, "ladd")
  | .fadd => (98, "fadd")
  | .dadd => (99, "dadd")
  | .isub => (100, "isub")
  | .lsub => (101, "lsub")
  | .fsub => (102, "fsub")
  | .dsub => (103, "dsub")
  | .imul => (104, "imul")
  | .lmul => (105, "lmul")
  | .fmul => (106, "fmul")
  | .dmul => (107, "dmul")
  | .idiv => (108, "idiv")
  | .ldiv => (109, "ldiv")
  | .fdiv => (110, "fdiv")
  | .ddiv => (111, "ddiv")
  | .irem => (112, "irem")
  | .lrem => (113, "lrem")
  | .frem => (114, "frem")
  | .drem => (115, "drem")
  | .ineg => (116, "ineg")
  | .lneg => (117, "lneg")
  | .fneg => (118, "fneg")
  | .dneg => (119, "dneg")
  | .ishl => (120, "ishl")
  | .lshl => (121, "lshl")
  | .ishr => (122, "ishr")
  | .lshr => (123, "lshr")
  | .iushr => (124, "iushr")
  | .lushr => (125, "lushr")
  | .iand => (126, "iand")
  | .land => (127, "land")
  | .ior => (128, "ior")
  | .lor => (129, "lor")
  | .ixor => (130, "ixor")
  | .lxor => (131, "lxor")
  | .iinc => (132, "iinc")
  | .i2l => (133, "i2l")
  | .i2f => (134, "i2f")
  | .i2d => (135, "i2d")
  | .l2i => (136, "l2i")
  | .l2f => (137, "l2f")
  | .l2d => (138, "l2d")
  | .f2i => (139, "f2i")
  | .f2l => (140, "f2l")
  | .f2d => (141, "f2d")
  | .d2i => (142, "d2i")
  | .d2l => (143, "d2l")
  | .d2f => (144, "d2f")
  | .i2b => (145, "i2b")
  | .i2c => (146, "i2c")
  | .i2s => (147, "i2s")
  | .lcmp => (148, "lcmp")
  | .fcmpl => (149, "fcmpl")
  | .fcmpg => (150, "fcmpg")
  | .dcmpl => (151, "dcmpl")
  | .dcmpg => (152, "dcmpg")
  | .ifeq => (153, "ifeq")
  | .ifne => (154, "ifne")
  | .iflt => (155, "iflt")
  | .ifge => (156, "ifge")
  | .ifgt => (157, "ifgt")
  | .ifle => (158, "ifle")
  | .ifIcmpeq => (159, "if_icmpeq")
  | .ifIcmpne => (160, "if_icmpne")
  | .ifIcmplt => (161, "if_icmplt")
  | .ifIcmpge => (162, "if_icmpge")
  | .ifIcmpgt => (163, "if_icmpgt")
  | .ifIcmple => (164, "if_icmple")
  | .ifAcmpeq => (165, "if_acmpeq")
  | .ifAcmpne => (166, "if_acmpne")
  | .goto => (167, "goto")
  | .jsr => (168, "jsr")
  | .ret => (169, "ret")
  | .tableswitch => (170, "tableswitch")
  | .lookupswitch => (171, "lookupswitch")
  | .ireturn => (172, "ireturn")
  | .lreturn => (173, "lreturn")
  | .freturn => (174, "freturn")
  | .dreturn => (175, "dreturn")
  | .areturn => (176, "areturn")
  | .returnVoid => (177, "return")
  | .getstatic => (178, "getstatic")
  | .putstatic => (179, "putstatic")
  | .getfield => (180, "getfield")
  | .putfield => (181, "putfield")
  | .invokevirtual => (182, "invokevirtual")
  | .invokespecial => (183, "invokespecial")
  | .invokestatic => (184, "invokestatic")
  | .invokeinterface => (185, "invokeinterface")
  | .invokedynamic => (186, "invokedynamic")
  | .newObject => (187, "new")
  | .newarray => (188, "newarray")
  | .anewarray => (189, "anewarray")
  | .arraylength => (190, "arraylength")
  | .athrow => (191, "athrow")
  | .checkcast => (192, "checkcast")
  | .instanceof => (193, "instanceof")
  | .monitorenter => (194, "monitorenter")
  | .monitorexit => (195, "monitorexit")
  | .multianewarray => (197, "multianewarray")
  | .ifnull => (198, "ifnull")
  | .ifnonnull => (199, "ifnonnull")

/-- The byte that encodes the opcode. -/
def code (opcode : Opcode) : UInt8 :=
  opcode.entry.1

/-- The name of the opcode in listings. -/
def mnemonic (opcode : Opcode) : String :=
  opcode.entry.2

/-- The opcode that a byte encodes. -/
def ofCode? (byte : UInt8) : Option Opcode :=
  all.find? fun opcode => opcode.code == byte

/-- The opcode with a given name in listings. -/
def ofMnemonic? (name : String) : Option Opcode :=
  all.find? fun opcode => opcode.mnemonic == name

/-- The conditional jump that is taken exactly when this one is not. -/
def invertedCondition : Opcode → Option Opcode
  | .ifeq => some .ifne
  | .ifne => some .ifeq
  | .iflt => some .ifge
  | .ifge => some .iflt
  | .ifgt => some .ifle
  | .ifle => some .ifgt
  | .ifIcmpeq => some .ifIcmpne
  | .ifIcmpne => some .ifIcmpeq
  | .ifIcmplt => some .ifIcmpge
  | .ifIcmpge => some .ifIcmplt
  | .ifIcmpgt => some .ifIcmple
  | .ifIcmple => some .ifIcmpgt
  | .ifAcmpeq => some .ifAcmpne
  | .ifAcmpne => some .ifAcmpeq
  | .ifnull => some .ifnonnull
  | .ifnonnull => some .ifnull
  | _ => none

end Opcode

/-- The element type of an array of primitive values. -/
inductive ElementType where
  | boolean | char | float | double | byte | short | int | long
  deriving DecidableEq, Inhabited

namespace ElementType

/-- Every primitive element type, by rising code. -/
def all : List ElementType :=
  [.boolean, .char, .float, .double, .byte, .short, .int, .long]

/-- The operand byte that stands for the element type. -/
def code : ElementType → UInt8
  | .boolean => 4
  | .char => 5
  | .float => 6
  | .double => 7
  | .byte => 8
  | .short => 9
  | .int => 10
  | .long => 11

/-- The name of the element type in listings. -/
def name : ElementType → String
  | .boolean => "Boolean"
  | .char => "Char"
  | .float => "Float"
  | .double => "Double"
  | .byte => "Byte"
  | .short => "Short"
  | .int => "Int"
  | .long => "Long"

/-- The element type that an operand byte stands for. -/
def ofCode? (byte : UInt8) : Option ElementType :=
  all.find? fun element => element.code == byte

end ElementType

end ClassFile
