import ClassFile.Proofs.Bytes
import ClassFile.Proofs.Code.Widths
import ClassFile.Proofs.Opcode

/-!
# The bytes of the parts of a body

`CodeItem.Encoded` says which bytes stand for a part that starts at a given place, with the
distances as signed numbers that lead to the labels without loss.  With settled widths, and if the
code is not too long, every part is written as bytes that stand for it, and they are as many as its
size (`putItem_eq_ok`).
-/

namespace ClassFile

/-- Whether the place of a label lies `distance` behind `start`. -/
def Reaches (places : Label → Option Nat) (start : Nat) (target : Label) (distance : Int) : Prop :=
  ∃ place, places target = some place ∧ (place : Int) = start + distance

/-- The bytes of distances, four for each. -/
def distanceBytes (distances : List Int32) : List UInt8 :=
  distances.flatMap fun distance => bigEndian32 distance.toUInt32

/-- The bytes of the cases of a lookup switch, by key and distance. -/
def caseBytes (cases : List (Int32 × Int32)) : List UInt8 :=
  cases.flatMap fun entry => bigEndian32 entry.1.toUInt32 ++ bigEndian32 entry.2.toUInt32

/-- What the bytes of a part that starts at `start` may be when labels have the given places. -/
inductive CodeItem.Encoded (places : Label → Option Nat) (start : Nat) :
    CodeItem → List UInt8 → Prop where
  | fixed (bytes : List UInt8) : Encoded places start (.fixed bytes) bytes
  | label (place : Label) : Encoded places start (.label place) []
  | narrow {opcode : Opcode} {target : Label} {distance : Int16}
      (reaches : Reaches places start target distance.toInt) :
      Encoded places start (.jump opcode target)
        (opcode.code :: bigEndian16 distance.toUInt16)
  | gotoWide {target : Label} {distance : Int32}
      (reaches : Reaches places start target distance.toInt) :
      Encoded places start (.jump .goto target)
        (Layout.gotoWide :: bigEndian32 distance.toUInt32)
  | jsrWide {target : Label} {distance : Int32}
      (reaches : Reaches places start target distance.toInt) :
      Encoded places start (.jump .jsr target)
        (Layout.jsrWide :: bigEndian32 distance.toUInt32)
  /-- The opposite condition jumps over the three bytes of its own and the five of the long jump
  behind it. -/
  | inverted {opcode opposite : Opcode} {target : Label} {distance : Int32}
      (inverts : opcode.invertedCondition = some opposite)
      (reaches : Reaches places (start + 3) target distance.toInt) :
      Encoded places start (.jump opcode target)
        (opposite.code :: bigEndian16 8 ++
          Layout.gotoWide :: bigEndian32 distance.toUInt32)
  | tableSwitch {low high distance : Int32} {default : Label} {targets : List Label}
      {padding : Nat} {distances : List Int32}
      (short : padding < 4) (aligned : 4 ∣ start + 1 + padding)
      (reachesDefault : Reaches places start default distance.toInt)
      (reaches : List.Forall₂
        (fun target distance => Reaches places start target distance.toInt) targets distances) :
      Encoded places start (.tableSwitch low high default targets)
        (Opcode.tableswitch.code :: List.replicate padding 0 ++
          (bigEndian32 distance.toUInt32 ++ bigEndian32 low.toUInt32 ++
            bigEndian32 high.toUInt32 ++ distanceBytes distances))
  | lookupSwitch {distance count : Int32} {default : Label} {cases : List (Int32 × Label)}
      {padding : Nat} {written : List (Int32 × Int32)}
      (short : padding < 4) (aligned : 4 ∣ start + 1 + padding)
      (counted : count.toInt = cases.length)
      (reachesDefault : Reaches places start default distance.toInt)
      (reaches : List.Forall₂
        (fun entry pair => entry.1 = pair.1 ∧ Reaches places start entry.2 pair.2.toInt)
        cases written) :
      Encoded places start (.lookupSwitch default cases)
        (Opcode.lookupswitch.code :: List.replicate padding 0 ++
          (bigEndian32 distance.toUInt32 ++ bigEndian32 count.toUInt32 ++ caseBytes written))

@[simp]
theorem length_distanceBytes (distances : List Int32) :
    (distanceBytes distances).length = 4 * distances.length := by
  simp [distanceBytes, List.length_flatMap, Nat.mul_comm]

@[simp]
theorem length_caseBytes (cases : List (Int32 × Int32)) :
    (caseBytes cases).length = 8 * cases.length := by
  simp [caseBytes, List.length_flatMap, Nat.mul_comm]

theorem Layout.switchPadding_lt (position : Nat) : Layout.switchPadding position < 4 := by
  unfold Layout.switchPadding
  omega

theorem Layout.switchPadding_aligned (position : Nat) :
    4 ∣ position + 1 + Layout.switchPadding position := by
  unfold Layout.switchPadding
  omega

/-- A loop that appends something for every element of a list appends all of it in order. -/
theorem foldlM_appends {ε α β : Type} {append : Output → α → Except ε Output}
    {StandsFor : β → α → Prop} {bytes : β → List UInt8} {list : List α}
    (appends : ∀ value ∈ list, ∀ output next, append output value = .ok next →
      ∃ piece, StandsFor piece value ∧ next.toList = output.toList ++ bytes piece)
    {output final : Output} (written : list.foldlM append output = .ok final) :
    ∃ pieces, List.Forall₂ (fun value piece => StandsFor piece value) list pieces ∧
      final.toList = output.toList ++ pieces.flatMap bytes := by
  induction list generalizing output with
  | nil =>
      simp only [List.foldlM_nil, pure_eq_ok] at written
      subst written
      exact ⟨[], .nil, by simp⟩
  | cons value rest ih =>
      rw [List.foldlM_cons, bind_eq_ok] at written
      rcases written with ⟨next, first, others⟩
      rcases appends value (by simp) output next first with ⟨piece, standsFor, nextBytes⟩
      rcases ih (fun value inRest => appends value (by simp [inRest])) others with
        ⟨pieces, standFor, finalBytes⟩
      exact ⟨piece :: pieces, .cons standsFor standFor, by simp [finalBytes, nextBytes]⟩

/-- The place of a label. -/
def CodeOffsets.place? (offsets : CodeOffsets) (label : Label) : Option Nat :=
  offsets.labels[label]?

namespace CodeLayout

@[simp]
theorem toList_putShort (output : Output) (value : Int) :
    (putShort output value).toList =
      output.toList ++ bigEndian16 (Int16.ofInt value).toUInt16 := by
  simp [putShort]

@[simp]
theorem toList_putInt (output : Output) (value : Int) :
    (putInt output value).toList = output.toList ++ bigEndian32 (Int32.ofInt value).toUInt32 := by
  simp [putInt]

@[simp]
theorem toList_putPadding (output : Output) (position : Nat) :
    (putPadding output position).toList =
      output.toList ++ List.replicate (Layout.switchPadding position) 0 := by
  simp [putPadding]

/-- Whether a position and all labels lie in code that is not too long. -/
structure Placed (offsets : CodeOffsets) (position : Nat) : Prop where
  position_le : position ≤ maxCodeLength
  label_le : ∀ (label : Label) (place : Nat),
    offsets.labels[label]? = some place → place ≤ maxCodeLength

/-- No distance between two places of the code is too great for four bytes. -/
theorem Placed.reaches {offsets : CodeOffsets} {position : Nat} (placed : Placed offsets position)
    {method : Text} {label : Label} {distance : Int}
    (measured : offsets.distance method position label = .ok distance) :
    Reaches offsets.place? position label (Int32.ofInt distance).toInt ∧
      Reaches offsets.place? (position + 3) label (Int32.ofInt (distance - 3)).toInt := by
  rcases CodeOffsets.distance_eq_ok.mp measured with ⟨place, known, rfl⟩
  have placeBound := placed.label_le label place known
  have positionBound := placed.position_le
  unfold maxCodeLength at placeBound positionBound
  constructor
  · refine ⟨place, known, ?_⟩
    rw [Int32.toInt_ofInt_of_le (by omega) (by omega)]
    omega
  · refine ⟨place, known, ?_⟩
    rw [Int32.toInt_ofInt_of_le (by omega) (by omega)]
    omega

theorem reaches_of_fits {offsets : CodeOffsets} {position : Nat} {method : Text} {label : Label}
    {distance : Int} (measured : offsets.distance method position label = .ok distance)
    (fits : JumpWidth.fits distance) :
    Reaches offsets.place? position label (Int16.ofInt distance).toInt := by
  rcases CodeOffsets.distance_eq_ok.mp measured with ⟨place, known, rfl⟩
  simp only [JumpWidth.fits, Bool.and_eq_true, decide_eq_true_eq] at fits
  refine ⟨place, known, ?_⟩
  rw [Int16.toInt_ofInt_of_le (by omega) (by omega)]
  omega

/-- A jump is written in the form that its width stands for. -/
theorem putJump_encoded {offsets : CodeOffsets} {method : Text} {position : Nat} {opcode : Opcode}
    {target : Label} {width : JumpWidth} {distance : Int} (placed : Placed offsets position)
    (isJump : opcode.layout = .jump)
    (measured : offsets.distance method position target = .ok distance)
    (narrowFits : width = .narrow → JumpWidth.fits distance) (output : Output) :
    ∃ bytes, CodeItem.Encoded offsets.place? position (.jump opcode target) bytes ∧
      (putJump output opcode width distance).toList = output.toList ++ bytes ∧
      bytes.length = width.size opcode := by
  rcases placed.reaches measured with ⟨reaches, reachesBehind⟩
  by_cases narrow : width = .narrow
  · subst narrow
    exact ⟨_, .narrow (reaches_of_fits measured (narrowFits rfl)), by simp [putJump],
      by simp [JumpWidth.size]⟩
  · have long (opcode : Opcode) :
        width.size opcode = if opcode = .goto ∨ opcode = .jsr then 5 else 8 := by
      cases width <;> simp_all [JumpWidth.size]
    rw [long]
    rcases Opcode.invertedCondition_of_jump isJump with rfl | rfl | ⟨opposite, inverts, _⟩
    · exact ⟨_, .gotoWide reaches, by cases width <;> simp_all [putJump], by simp⟩
    · exact ⟨_, .jsrWide reaches, by cases width <;> simp_all [putJump], by simp⟩
    · have conditional : ¬(opcode = .goto ∨ opcode = .jsr) := by
        rintro (rfl | rfl) <;> simp [Opcode.invertedCondition] at inverts
      refine ⟨_, .inverted inverts reachesBehind, ?_, by simp [conditional]⟩
      cases width with
      | narrow => exact absurd rfl narrow
      | wide | pinned =>
          simp only [putJump]
          split
          · exact absurd (Or.inl rfl) conditional
          · exact absurd (Or.inr rfl) conditional
          · simp [inverts]
            rfl

/-- The distances to a list of labels are written one after the other. -/
theorem putTargets_encoded {offsets : CodeOffsets} {method : Text} {position : Nat}
    {targets : List Label} (placed : Placed offsets position) {output final : Output}
    (written : targets.foldlM
      (fun output target =>
        return putInt output (← offsets.distance method position target)) output = .ok final) :
    ∃ distances : List Int32,
      List.Forall₂ (fun target distance =>
        Reaches offsets.place? position target distance.toInt) targets distances ∧
      final.toList = output.toList ++ distanceBytes distances := by
  refine foldlM_appends ?_ written
  intro target _ output next put
  simp only [bind_eq_ok, pure_eq_ok] at put
  rcases put with ⟨distance, measured, rfl⟩
  exact ⟨Int32.ofInt distance, (placed.reaches measured).1, by simp⟩

/-- The cases of a lookup switch are written one after the other. -/
theorem putCases_encoded {offsets : CodeOffsets} {method : Text} {position : Nat}
    {cases : List (Int32 × Label)} (placed : Placed offsets position) {output final : Output}
    (written : cases.foldlM
      (fun output (key, target) =>
        return putInt (output.u32 key.toUInt32) (← offsets.distance method position target))
      output = .ok final) :
    ∃ pairs : List (Int32 × Int32),
      List.Forall₂ (fun entry pair => entry.1 = pair.1 ∧
        Reaches offsets.place? position entry.2 pair.2.toInt) cases pairs ∧
      final.toList = output.toList ++ caseBytes pairs := by
  refine foldlM_appends ?_ written
  intro entry _ output next put
  simp only [bind_eq_ok, pure_eq_ok] at put
  rcases put with ⟨distance, measured, rfl⟩
  exact ⟨(entry.1, Int32.ofInt distance), ⟨rfl, (placed.reaches measured).1⟩, by simp⟩

/-- Every part is written as bytes that stand for it, as many as its size says. -/
theorem putItem_encoded {offsets : CodeOffsets} {method : Text} {position : Nat} {item : CodeItem}
    {width : JumpWidth} {output next : Output} (placed : Placed offsets position)
    (isJump : ∀ opcode target, item = .jump opcode target → opcode.layout = .jump)
    (narrowFits : ∀ opcode target distance, item = .jump opcode target →
      offsets.distance method position target = .ok distance →
      width = .narrow → JumpWidth.fits distance)
    (fewCases : item.size width position ≤ maxCodeLength)
    (written : putItem offsets method output (item, width) position = .ok next) :
    ∃ bytes, item.Encoded offsets.place? position bytes ∧
      next.toList = output.toList ++ bytes ∧ bytes.length = item.size width position := by
  have short := Layout.switchPadding_lt position
  have aligned := Layout.switchPadding_aligned position
  cases item with
  | fixed bytes =>
      simp only [putItem, pure_eq_ok] at written
      subst written
      exact ⟨bytes, .fixed bytes, by simp, rfl⟩
  | label place =>
      simp only [putItem, pure_eq_ok] at written
      subst written
      exact ⟨[], .label place, by simp, rfl⟩
  | jump opcode target =>
      simp only [putItem, bind_eq_ok, pure_eq_ok] at written
      rcases written with ⟨distance, measured, rfl⟩
      exact putJump_encoded placed (isJump opcode target rfl) measured
        (narrowFits opcode target distance rfl measured) output
  | tableSwitch low high default targets =>
      simp only [putItem, bind_eq_ok] at written
      rcases written with ⟨distance, measured, others⟩
      rcases putTargets_encoded placed others with ⟨distances, reaches, finalBytes⟩
      refine ⟨_, .tableSwitch short aligned (placed.reaches measured).1 reaches, ?_, ?_⟩
      · simp [finalBytes]
      · simp [CodeItem.size, ← reaches.length_eq]
        omega
  | lookupSwitch default cases =>
      simp only [putItem, bind_eq_ok] at written
      rcases written with ⟨distance, measured, others⟩
      rcases putCases_encoded placed others with ⟨pairs, reaches, finalBytes⟩
      have counted : (Int32.ofInt cases.length).toInt = cases.length := by
        simp only [CodeItem.size, maxCodeLength] at fewCases
        exact Int32.toInt_ofInt_of_le (by omega) (by omega)
      refine ⟨_, .lookupSwitch short aligned counted (placed.reaches measured).1 reaches, ?_, ?_⟩
      · simp [finalBytes]
      · simp [CodeItem.size, ← reaches.length_eq]
        omega

end CodeLayout

end ClassFile
