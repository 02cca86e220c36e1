import ClassFile.Proofs.Pool.Runs
import ClassFile.Proofs.Text

/-!
# Additions that fail

An addition that fails because the pool or the table of bootstrap methods is full leaves a builder
as it should be.  One that fails because a text is too long does not: the tag byte of the text stays
behind the entries, although no entry was counted, and what is added next is read as the length of
that text (`not_forall_faithful`).

Apart from those bytes every run ends as it should, and whatever a failed addition added its item
depends on (`intact_iff_noneTooLong`).
-/

namespace ClassFile

namespace PoolBuilder

theorem length_logBytes (log : List Addition) :
    (logBytes log).length = (log.flatMap Addition.written).length +
      (log.map fun addition => (strayBytes addition.result).length).sum := by
  induction log with
  | nil => rfl
  | cons addition rest ih =>
      simp only [logBytes, List.flatMap_cons, List.length_append, List.map_cons, List.sum_cons] at *
      omega

/-- Every run of additions, failing or not, does what adding some items without a failure does: all
of an item that was added, and no more than what it depends on of an item that was not.  The pool
that those items make means what it should, and its builder is the one that is left if and only if
no text was too long.  Otherwise a tag byte stands behind what each such addition wrote. -/
theorem intact_iff_noneTooLong {seed? : Option Pool} {builder last : PoolBuilder}
    {items : List PoolItem} {results : List (Except ClassError UInt16)}
    (starts : Starts seed? builder) (storable : ∀ item ∈ items, item.Storable)
    (nested : ∀ item ∈ items, item.levels ≤ Pool.maxDynamicLevels)
    (ran : builder.addAll items = (results, last)) :
    ∃ log clean, Logged builder clean items results log ∧ Faithful seed? items results clean ∧
      last = { clean with entries := builder.entries.bytes (logBytes log) } ∧
      (last = clean ↔ ∀ result ∈ results, ∀ size, result ≠ .error (.textTooLong size)) := by
  rcases exists_faithful starts storable nested ran with ⟨log, clean, logged, faithful, rfl⟩
  refine ⟨log, clean, logged, faithful, rfl, fun intact => ?_, logged.last_eq⟩
  have entries := congrArg (fun builder : PoolBuilder => builder.entries.toList.length) intact
  simp only [logged.entries, Output.toList_bytes, List.length_append, length_logBytes] at entries
  intro result member size overlong
  rw [← logged.results] at member
  rcases List.mem_map.mp member with ⟨addition, logged, rfl⟩
  have none := List.sum_eq_zero_iff_forall_eq_nat.mp (by omega : (log.map fun addition =>
    (strayBytes addition.result).length).sum = 0) _ (List.mem_map_of_mem logged)
  rw [overlong] at none
  cases none

/-- A text that is too long by one byte. -/
def longText : Text :=
  ⟨List.replicate 65536 97⟩

theorem encode_longText : longText.encode = List.replicate 65536 97 := by
  have ascii : Text.IsAscii (List.replicate 65536 97) := by
    intro byte member
    rw [List.eq_of_mem_replicate member]
    decide
  rw [Text.encode, longText, Text.encodeModified_ascii ascii, List.reverse_nil, List.nil_append]

/-- What is left when a number is added behind a text that is too long. -/
def strewn : PoolBuilder :=
  ({ empty with entries := empty.entries.u8 1 } : PoolBuilder).push (.integer 7)

theorem addAll_longText : empty.addAll [.text longText, .loadable (.integer 7)] =
    ([.error (.textTooLong 65536), .ok 1], strewn) := by
  have long : (PoolKey.utf8 longText).overlong? = some 65536 := by
    simp only [PoolKey.overlong?, encode_longText, List.length_replicate]
    rfl
  have first : (PoolItem.text longText).add.on empty =
      (.error (.textTooLong 65536), { empty with entries := empty.entries.u8 1 }) := by
    simp [PoolItem.add, text, on_add, on_append, long, empty, PoolKey.width, PoolKey.tag,
      PoolTag.isWide, PoolTag.code]
  have second : (PoolItem.loadable (.integer 7)).add.on
      { empty with entries := empty.entries.u8 1 } = (.ok 1, strewn) := by
    simp [PoolItem.add, constant, integer, on_add, on_append, empty, strewn, PoolKey.width,
      PoolKey.tag, PoolTag.isWide, PoolKey.overlong?]
  simp only [addAll, first, second]

theorem storable_longText :
    ∀ item ∈ [PoolItem.text longText, .loadable (.integer 7)], item.Storable := by
  have survives : longText.Survives := by
    refine Text.survives_of_isAscii fun byte member => ?_
    rw [List.eq_of_mem_replicate member]
    decide
  simp [PoolItem.Storable, Constant.Storable, survives]

theorem intact_iff_noneTooLong_longText :
    ∃ log clean, Logged empty clean [.text longText, .loadable (.integer 7)]
        [.error (.textTooLong 65536), .ok 1] log ∧
      Faithful none [.text longText, .loadable (.integer 7)]
        [.error (.textTooLong 65536), .ok 1] clean ∧
      strewn = { clean with entries := empty.entries.bytes (logBytes log) } ∧
      (strewn = clean ↔
        ∀ result ∈ ([.error (.textTooLong 65536), .ok 1] : List (Except ClassError UInt16)),
          ∀ size, result ≠ .error (.textTooLong size)) := by
  refine intact_iff_noneTooLong .empty storable_longText ?_ addAll_longText
  simp [PoolItem.levels, Constant.levels]

/-- The bytes that the additions left, with an empty table of bootstrap methods behind them. -/
def strewnFile : Input :=
  ⟨⟨#[0, 0, 0, 0, 0, 0, 0, 0, 0, 2, 1, 3, 0, 0, 0, 7, 0, 0]⟩⟩

/-- Not every run ends as it should. -/
theorem not_forall_faithful :
    ¬∀ {seed? : Option Pool} {builder last : PoolBuilder} {items : List PoolItem}
        {results : List (Except ClassError UInt16)}, Starts seed? builder →
      (∀ item ∈ items, item.Storable) →
      (∀ item ∈ items, item.levels ≤ Pool.maxDynamicLevels) →
      builder.addAll items = (results, last) → Faithful seed? items results last := by
  intro all
  have faithful := all .empty storable_longText (by simp [PoolItem.levels, Constant.levels])
    addAll_longText
  have entries : strewnFile.HasAt 8 (strewn.write .empty).toList :=
    ⟨[0, 0], by decide⟩
  have bootstraps : strewnFile.HasAt 16 (strewn.writeBootstraps .empty).toList :=
    ⟨[], by decide⟩
  rcases faithful.reads entries bootstraps with
    ⟨parsed, pool, read, readMethods, -, resolves, -⟩
  have number : pool.constant 1 = .ok (.integer 7) :=
    @resolves 1 (.loadable (.integer 7)) 1 rfl rfl
  have unread : (do (← (← Pool.ofInput? strewnFile).withBootstrapMethods 16).constant 1).isOk =
      false := by
    decide +kernel
  rw [read, ok_bind, readMethods, ok_bind, number] at unread
  cases unread

end PoolBuilder

end ClassFile
