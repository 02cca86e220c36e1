import ClassFile.Opcode

/-!
# Stack effects

What an instruction without operands does to the height of the operand stack, in slots.
-/

namespace ClassFile.Opcode

/-- The slots that an instruction adds to the operand stack, or takes from it.  Instructions whose
effect depends on their operands count as none. -/
def stackEffect : Opcode → Int
  | .aconstNull | .iconstM1 | .iconst0 | .iconst1 | .iconst2 | .iconst3 | .iconst4 | .iconst5
  | .fconst0 | .fconst1 | .fconst2 | .bipush | .sipush
  | .iload | .fload | .aload | .dup | .dupX1 | .dupX2
  | .i2l | .i2d | .f2l | .f2d | .newObject => 1
  | .lconst0 | .lconst1 | .dconst0 | .dconst1 | .lload | .dload | .dup2 | .dup2X1 | .dup2X2 => 2
  | .iaload | .faload | .aaload | .baload | .caload | .saload
  | .istore | .fstore | .astore | .pop
  | .iadd | .fadd | .isub | .fsub | .imul | .fmul | .idiv | .fdiv | .irem | .frem
  | .ishl | .lshl | .ishr | .lshr | .iushr | .lushr | .iand | .ior | .ixor
  | .l2i | .l2f | .d2i | .d2f | .fcmpl | .fcmpg
  | .ifeq | .ifne | .iflt | .ifge | .ifgt | .ifle | .ifnull | .ifnonnull
  | .tableswitch | .lookupswitch | .ireturn | .freturn | .areturn | .athrow
  | .monitorenter | .monitorexit => -1
  | .lstore | .dstore | .pop2
  | .ladd | .dadd | .lsub | .dsub | .lmul | .dmul | .ldiv | .ddiv | .lrem | .drem
  | .land | .lor | .lxor
  | .ifIcmpeq | .ifIcmpne | .ifIcmplt | .ifIcmpge | .ifIcmpgt | .ifIcmple | .ifAcmpeq | .ifAcmpne
  | .lreturn | .dreturn => -2
  | .iastore | .fastore | .aastore | .bastore | .castore | .sastore
  | .lcmp | .dcmpl | .dcmpg => -3
  | .lastore | .dastore => -4
  | _ => 0

/-- Whether control ends at an instruction without operands. -/
def endsMethod : Opcode → Bool
  | .ireturn | .lreturn | .freturn | .dreturn | .areturn | .returnVoid | .athrow => true
  | _ => false

/-- Whether a local variable of the instruction takes two slots. -/
def accessesTwoSlots : Opcode → Bool
  | .lload | .dload | .lstore | .dstore => true
  | _ => false

end ClassFile.Opcode
