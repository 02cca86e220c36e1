import ClassFile.Event.Labels
import ClassFile.Image.Code
import ClassFile.Proofs.Opcode
import ClassFile.Proofs.Result
import Std.Data.HashSet.Lemmas

/-!
# The two readings of an instruction

An instruction is read twice: the first pass over a body only marks the places that it leads to, the
second pass tells it.  `ClassImage.IsReadAs` has a case for each shape of instruction that the second
pass tells apart, and facts about one instruction are proved by these cases.  Where both passes accept an instruction, the first has marked exactly the
labels of the instruction that the second tells, and both go on at the same offset
(`ClassImage.markInstruction_eq`).
-/

namespace ClassFile

namespace Layout

/-- A byte with the variable index inside stands for a load or store. -/
theorem ofByte?_expandImplicitVariable {byte : UInt8}
    (known : ofByte? byte = some .implicitVariable) :
    ofByte? (expandImplicitVariable byte).1 = some .variable := by
  have all : ∀ number < 256, ofByte? (UInt8.ofNat number) = some .implicitVariable →
      ofByte? (expandImplicitVariable (UInt8.ofNat number)).1 = some .variable := by
    decide +kernel
  have here := all byte.toNat byte.toNat_lt
  rw [UInt8.ofNat_toNat] at here
  exact here known

end Layout

theorem CodeArray.position_eq_ok {code : CodeArray} {pc position : Nat} :
    code.position pc = .ok position ↔ code.start ≤ pc ∧ position = pc - code.start := by
  unfold CodeArray.position
  split
  · rename_i before
    exact iff_of_false (by simp) fun behind => Nat.not_le.mpr before behind.1
  · rename_i behind
    rw [Except.ok.injEq, and_iff_right (Nat.not_lt.mp behind), eq_comm]

namespace ClassImage

theorem opcodeAt_eq_ok {byte : UInt8} {offset : Nat} {opcode : Opcode} :
    opcodeAt byte offset = .ok opcode ↔ opcode.code = byte := by
  rw [← Opcode.ofCode?_eq_some, opcodeAt]
  cases Opcode.ofCode? byte <;> simp

variable {image : ClassImage} {code : CodeArray} {pc : Nat}

theorem markTargets_of_readTargets {offset count : Nat} {found targets : List Label}
    (read : image.readTargets code pc offset found count = .ok targets) :
    ∃ new, targets = found.reverse ++ new ∧ ∀ labels : LabelSet,
      image.markTargets code pc 4 offset labels count = .ok (labels.insertMany new) := by
  induction count generalizing offset found with
  | zero =>
      cases read
      exact ⟨[], by simp, fun labels => by simp [markTargets]⟩
  | succ count ih =>
      simp only [readTargets, bind_eq_ok] at read
      rcases read with ⟨delta, readDelta, target, reached, others⟩
      rcases ih others with ⟨new, rfl, marks⟩
      refine ⟨target :: new, by simp, fun labels => ?_⟩
      simp only [markTargets, readDelta, reached, ok_bind, marks, Std.HashSet.insertMany_cons]

theorem markTargets_of_readCases {offset count : Nat} {found cases : List (Int32 × Label)}
    (read : image.readCases code pc offset found count = .ok cases) :
    ∃ new, cases = found.reverse ++ new ∧ ∀ labels : LabelSet,
      image.markTargets code pc 8 (offset + 4) labels count =
        .ok (labels.insertMany (new.map Prod.snd)) := by
  induction count generalizing offset found with
  | zero =>
      cases read
      exact ⟨[], by simp, fun labels => by simp [markTargets]⟩
  | succ count ih =>
      simp only [readCases, bind_eq_ok] at read
      rcases read with ⟨key, readKey, delta, readDelta, target, reached, others⟩
      rcases ih others with ⟨new, rfl, marks⟩
      refine ⟨(key, target) :: new, by simp, fun labels => ?_⟩
      rw [Nat.add_right_comm] at marks
      simp only [markTargets, readDelta, reached, ok_bind, marks, List.map_cons,
        Std.HashSet.insertMany_cons]

/-- Whether an instruction about a variable has an opcode that is about variables.  The second pass
does not look behind the prefix that widens an index; the first does. -/
def IsWellFormed : Instruction → Prop
  | .variable opcode _ => opcode.layout = .variable
  | _ => True

/-- An instruction that leads nowhere and whose length its first byte fixes. -/
theorem readInstruction_plain {api : Api} {byte : UInt8} {layout : Layout}
    {instruction : Instruction} {next : Nat} (readByte : image.input.u8 pc = .ok byte)
    (known : Layout.ofByte? byte = some layout)
    (plain : layout ∉ [.jump, .jumpWide, .tableSwitch, .lookupSwitch, .wide])
    (read : image.readInstruction api code pc = .ok (instruction, next)) :
    instruction.labels = [] ∧ next = pc + layout.size?.getD 0 ∧ IsWellFormed instruction := by
  simp only [readInstruction, readByte, ok_bind, known] at read
  cases layout
  case jump | jumpWide | tableSwitch | lookupSwitch | wide => simp at plain
  case «variable» =>
    simp only [bind_eq_ok, pure_eq_ok, opcodeAt_eq_ok] at read
    rcases read with ⟨opcode, rfl, slot, -, same⟩
    cases same
    rw [Opcode.ofByte?_code] at known
    exact ⟨rfl, rfl, Option.some.inj known⟩
  case implicitVariable =>
    simp only [bind_eq_ok, pure_eq_ok, opcodeAt_eq_ok] at read
    rcases read with ⟨opcode, explicit, same⟩
    cases same
    have isVariable := Layout.ofByte?_expandImplicitVariable known
    rw [← explicit, Opcode.ofByte?_code] at isVariable
    exact ⟨rfl, rfl, Option.some.inj isVariable⟩
  case newArray =>
    simp only [bind_eq_ok] at read
    rcases read with ⟨element, -, read⟩
    split at read
    · cases read
      exact ⟨rfl, rfl, trivial⟩
    · cases read
  case noOperand | bytePush | shortPush =>
    simp only [bind_eq_ok, pure_eq_ok] at read
    rcases read with ⟨_, -, same⟩
    cases same
    exact ⟨rfl, rfl, trivial⟩
  case increment | invokeInterface =>
    simp only [bind_eq_ok, pure_eq_ok] at read
    rcases read with ⟨_, -, _, -, same⟩
    cases same
    exact ⟨rfl, rfl, trivial⟩
  case loadConstant | loadConstantWide | loadConstantTwoSlot | field | method | type
      | multiArray =>
    simp only [bind_eq_ok, pure_eq_ok] at read
    rcases read with ⟨_, -, _, -, _, -, same⟩
    cases same
    exact ⟨rfl, rfl, trivial⟩
  case invokeDynamic =>
    simp only [bind_eq_ok, pure_eq_ok] at read
    rcases read with ⟨_, -, _, -, _, -, _, -, same⟩
    cases same
    exact ⟨rfl, rfl, trivial⟩

/-- What is read of an instruction that the second pass reads, with the offset behind it: the ones
that lead somewhere and the ones behind the prefix for wide operands have cases of their own. -/
inductive IsReadAs (image : ClassImage) (code : CodeArray) (pc : Nat) :
    Instruction → Nat → Prop where
  | plain {byte : UInt8} {layout : Layout} {instruction : Instruction}
      (readByte : image.input.u8 pc = .ok byte) (known : Layout.ofByte? byte = some layout)
      (isPlain : layout ∉ [.jump, .jumpWide, .tableSwitch, .lookupSwitch, .wide])
      (noLabels : instruction.labels = []) (wellFormed : IsWellFormed instruction) :
      IsReadAs image code pc instruction (pc + layout.size?.getD 0)
  | jump {byte : UInt8} {delta : Int16} {opcode : Opcode} {target : Label}
      (readByte : image.input.u8 pc = .ok byte) (known : Layout.ofByte? byte = some .jump)
      (readDelta : image.input.i16 (pc + 1) = .ok delta)
      (reached : code.branch (pc - code.start) delta.toInt pc = .ok target) :
      IsReadAs image code pc (.jump opcode target) (pc + 3)
  | jumpWide {byte : UInt8} {delta : Int32} {opcode : Opcode} {target : Label}
      (readByte : image.input.u8 pc = .ok byte) (known : Layout.ofByte? byte = some .jumpWide)
      (readDelta : image.input.i32 (pc + 1) = .ok delta)
      (reached : code.branch (pc - code.start) delta.toInt pc = .ok target) :
      IsReadAs image code pc (.jump opcode target) (pc + 5)
  | tableSwitch {byte : UInt8} {head : TableHead} {default : Label} {targets : List Label}
      (readByte : image.input.u8 pc = .ok byte) (known : Layout.ofByte? byte = some .tableSwitch)
      (readHead : image.tableHead pc (pc - code.start) code.stop = .ok head)
      (reached : code.branch (pc - code.start) head.default.toInt pc = .ok default)
      (readTargets : image.readTargets code pc head.table [] head.count = .ok targets) :
      IsReadAs image code pc (.tableSwitch head.low head.high default targets)
        (head.table + head.count * 4)
  | lookupSwitch {byte : UInt8} {head : LookupHead} {default : Label} {cases : List (Int32 × Label)}
      (readByte : image.input.u8 pc = .ok byte) (known : Layout.ofByte? byte = some .lookupSwitch)
      (readHead : image.lookupHead pc (pc - code.start) code.stop = .ok head)
      (reached : code.branch (pc - code.start) head.default.toInt pc = .ok default)
      (readCases : image.readCases code pc head.cases [] head.count = .ok cases) :
      IsReadAs image code pc (.lookupSwitch default cases) (head.cases + head.count * 8)
  | wideIncrement {byte : UInt8} {slot : UInt16} {amount : Int16}
      (readByte : image.input.u8 pc = .ok byte) (known : Layout.ofByte? byte = some .wide)
      (readOpcode : image.input.u8 (pc + 1) = .ok Opcode.iinc.code) :
      IsReadAs image code pc (.increment slot amount) (pc + 6)
  | wideVariable {byte : UInt8} {opcode : Opcode} {slot : UInt16}
      (readByte : image.input.u8 pc = .ok byte) (known : Layout.ofByte? byte = some .wide)
      (readOpcode : image.input.u8 (pc + 1) = .ok opcode.code)
      (notIncrement : opcode.code ≠ Opcode.iinc.code) :
      IsReadAs image code pc (.variable opcode slot) (pc + 4)

theorem isReadAs_of_readInstruction {api : Api} {instruction : Instruction} {next : Nat}
    (read : image.readInstruction api code pc = .ok (instruction, next)) :
    IsReadAs image code pc instruction next := by
  have whole := read
  unfold readInstruction at read
  simp only [bind_eq_ok] at read
  rcases read with ⟨byte, readByte, read⟩
  cases known : Layout.ofByte? byte with
  | none => simp [known] at read
  | some layout =>
      simp only [known] at read
      cases layout
      case tableSwitch =>
        simp only [bind_eq_ok, pure_eq_ok] at read
        rcases read with ⟨head, readHead, default, reached, targets, readTargets, same⟩
        cases same
        exact .tableSwitch readByte known readHead reached readTargets
      case lookupSwitch =>
        simp only [bind_eq_ok, pure_eq_ok] at read
        rcases read with ⟨head, readHead, default, reached, cases, readCases, same⟩
        cases same
        exact .lookupSwitch readByte known readHead reached readCases
      case jump =>
        simp only [bind_eq_ok, pure_eq_ok] at read
        rcases read with ⟨delta, readDelta, target, reached, opcode, -, same⟩
        cases same
        exact .jump readByte known readDelta reached
      case jumpWide =>
        simp only [bind_eq_ok, pure_eq_ok] at read
        rcases read with ⟨delta, readDelta, target, reached, same⟩
        cases same
        exact .jumpWide readByte known readDelta reached
      case wide =>
        simp only [bind_eq_ok] at read
        rcases read with ⟨second, readSecond, slot, -, read⟩
        split at read
        · rename_i isIncrement
          subst isIncrement
          simp only [bind_eq_ok, pure_eq_ok] at read
          rcases read with ⟨amount, -, same⟩
          cases same
          exact .wideIncrement readByte known readSecond
        · rename_i notIncrement
          simp only [bind_eq_ok, pure_eq_ok, opcodeAt_eq_ok] at read
          rcases read with ⟨opcode, rfl, same⟩
          cases same
          exact .wideVariable readByte known readSecond notIncrement
      all_goals
        rcases readInstruction_plain readByte known (by decide) whole with
          ⟨noLabels, rfl, wellFormed⟩
        exact .plain readByte known (by decide) noLabels wellFormed

/-- What the second pass reads, the first pass accepts and marks. -/
theorem markInstruction_of_readInstruction {api : Api} {instruction : Instruction} {next : Nat}
    (read : image.readInstruction api code pc = .ok (instruction, next))
    (wellFormed : IsWellFormed instruction) (begun : code.start ≤ pc) (labels : LabelSet) :
    image.markInstruction code pc labels = .ok (labels.insertMany instruction.labels, next) := by
  rw [markInstruction, CodeArray.position_eq_ok.mpr ⟨begun, rfl⟩, ok_bind]
  cases isReadAs_of_readInstruction read with
  | @plain byte layout _ readByte known isPlain noLabels _ =>
      simp only [readByte, known, ok_bind]
      cases layout
      case jump | jumpWide | tableSwitch | lookupSwitch | wide => simp at isPlain
      all_goals simp [noLabels]
  | jump readByte known readDelta reached =>
      simp [readByte, known, readDelta, reached, Instruction.labels]
  | jumpWide readByte known readDelta reached =>
      simp [readByte, known, readDelta, reached, Instruction.labels]
  | tableSwitch readByte known readHead reached readTargets =>
      rcases markTargets_of_readTargets readTargets with ⟨new, rfl, marks⟩
      simp [readByte, known, readHead, reached, marks, Instruction.labels,
        Std.HashSet.insertMany_cons]
  | lookupSwitch readByte known readHead reached readCases =>
      rcases markTargets_of_readCases readCases with ⟨new, rfl, marks⟩
      simp [readByte, known, readHead, reached, marks, Instruction.labels,
        Std.HashSet.insertMany_cons]
  | wideIncrement readByte known readOpcode =>
      simp only [readByte, known, readOpcode, ok_bind, Opcode.ofByte?_code,
        show Opcode.iinc.layout = .increment by decide]
      simp [Instruction.labels]
  | @wideVariable _ opcode _ readByte known readOpcode _ =>
      simp only [readByte, known, readOpcode, ok_bind, Opcode.ofByte?_code,
        show opcode.layout = .variable from wellFormed]
      simp [Instruction.labels]

theorem start_le_of_markInstruction {labels : LabelSet} {marked : LabelSet × Nat}
    (accepted : image.markInstruction code pc labels = .ok marked) : code.start ≤ pc := by
  rcases bind_eq_ok.mp accepted with ⟨position, found, -⟩
  exact (CodeArray.position_eq_ok.mp found).1

/-- What both passes accept is well formed. -/
theorem isWellFormed_of_markInstruction {api : Api} {instruction : Instruction} {next : Nat}
    (read : image.readInstruction api code pc = .ok (instruction, next)) {labels : LabelSet}
    {marked : LabelSet × Nat} (accepted : image.markInstruction code pc labels = .ok marked) :
    IsWellFormed instruction := by
  rw [markInstruction, CodeArray.position_eq_ok.mpr ⟨start_le_of_markInstruction accepted, rfl⟩,
    ok_bind] at accepted
  cases isReadAs_of_readInstruction read with
  | plain _ _ _ _ wellFormed => exact wellFormed
  | jump | jumpWide | tableSwitch | lookupSwitch | wideIncrement => trivial
  | wideVariable readByte known readOpcode notIncrement =>
      simp only [readByte, known, readOpcode, ok_bind, Opcode.ofByte?_code] at accepted
      split at accepted
      · rename_i isIncrement
        rw [Option.some.injEq] at isIncrement
        exact absurd (congrArg Opcode.code (Opcode.eq_iinc isIncrement)) notIncrement
      · rename_i isVariable
        exact Option.some.inj isVariable
      · cases accepted

/-- An instruction takes at least one byte. -/
theorem lt_of_readInstruction {api : Api} {instruction : Instruction} {next : Nat}
    (read : image.readInstruction api code pc = .ok (instruction, next)) : pc < next := by
  cases isReadAs_of_readInstruction read with
  | @plain _ layout _ _ _ isPlain _ _ =>
      cases layout
      case jump | jumpWide | tableSwitch | lookupSwitch | wide => simp at isPlain
      all_goals simp [Layout.size?]
  | jump | jumpWide | wideIncrement | wideVariable => omega
  | tableSwitch _ _ readHead =>
      simp only [tableHead, bind_eq_ok] at readHead
      rcases readHead with ⟨_, -, _, -, _, -, readHead⟩
      split at readHead
      · cases readHead
      · cases readHead
        simp only
        omega
  | lookupSwitch _ _ readHead =>
      simp only [lookupHead, bind_eq_ok] at readHead
      rcases readHead with ⟨_, -, _, -, readHead⟩
      split at readHead
      · cases readHead
      · cases readHead
        simp only
        omega

/-- Both passes agree on the labels of an instruction and on where it ends. -/
theorem markInstruction_eq {api : Api} {instruction : Instruction} {next : Nat}
    (read : image.readInstruction api code pc = .ok (instruction, next)) {labels : LabelSet}
    {marked : LabelSet × Nat} (accepted : image.markInstruction code pc labels = .ok marked) :
    marked = (labels.insertMany instruction.labels, next) := by
  have wellFormed := isWellFormed_of_markInstruction read accepted
  rw [markInstruction_of_readInstruction read wellFormed (start_le_of_markInstruction accepted) labels,
    Except.ok.injEq] at accepted
  exact accepted.symm

end ClassImage

end ClassFile
