import ClassFile.Draft.Annotations
import ClassFile.Proofs.Draft.Running
import ClassFile.Proofs.Text

/-!
# Writing tables of attributes

Whatever is added to a table of attributes, the attribute that was added first stays the first
(`AttributeTable.StartsWith`).
-/

namespace ClassFile

namespace AttributeTable

open Draft

/-- The bytes of an attribute. -/
def entryBytes (name : UInt16) (body : Output) : Output :=
  ((Output.ofU16 name).u32 body.size.toUInt32).append body

/-- Whether the attribute that was added first has bytes as given. -/
def StartsWith (given : Output → Pool → Prop) (attributes : AttributeTable) (pool : Pool) : Prop :=
  ∃ entry, given entry pool ∧ [entry] <:+ attributes.table.entries

theorem table_add_eq_ok {what : String} {entry : Output} {table next : Table}
    (added : table.add what entry = .ok next) : next.entries = entry :: table.entries := by
  simp only [Table.add, Table.raise, map_eq_ok] at added
  rcases added with ⟨raised, counted, rfl⟩
  split at counted
  · cases counted
  · cases counted
    rfl

/-- A new attribute goes behind the others. -/
theorem runs_add {Before : AttributeTable → Pool → Prop} (kind : AttributeKind) (body : Output) :
    Runs Before (add kind body) fun _ attributes pool =>
      body.size < 4294967296 ∧ ∃ (name : UInt16) (earlier : AttributeTable),
        pool.text name = .ok kind.text ∧ Before earlier pool ∧
          attributes.table.entries = entryBytes name body :: earlier.table.entries := by
  refine (Runs.pooled (PoolBuilder.adds_text kind.text_survives)).bind fun name => ?_
  unfold addNamed
  split
  · exact Runs.throw _
  · rename_i small
    refine Runs.tryChange ?_
    rintro earlier next pool ⟨before, named⟩ added
    simp only [bind_eq_ok, pure_eq_ok] at added
    rcases added with ⟨table, added, rfl⟩
    exact ⟨Nat.lt_of_not_le small, name, earlier, named, before, table_add_eq_ok added⟩

section Adding

variable {attributes : AttributeTable} {next : Table} {builder later : PoolBuilder} {index : UInt16}

theorem on_addNamed {body : Output} (small : body.size < 4294967296)
    (added : attributes.table.add "attributes" (entryBytes index body) = .ok next)
    (builder : PoolBuilder) :
    Draft.on (addNamed index body) (attributes, builder) = (.ok (), ⟨next⟩, builder) := by
  rw [entryBytes] at added
  unfold addNamed
  rw [if_neg (Nat.not_le.mpr small)]
  dsimp only
  rw [on_tryChange, added]
  rfl

/-- A table that has entries is added as an attribute. -/
theorem on_addTable {kind : AttributeKind} {table : Table} (filled : table.isEmpty = false)
    (named : (PoolBuilder.text kind.text).on builder = (.ok index, later))
    (small : table.toOutput.size < 4294967296)
    (added : attributes.table.add "attributes" (entryBytes index table.toOutput) = .ok next) :
    Draft.on (addTable kind table) (attributes, builder) = (.ok (), ⟨next⟩, later) := by
  unfold addTable add
  rw [if_pos (by rw [filled]; rfl), on_bind, on_pooled, named]
  exact on_addNamed small added later

/-- An attribute of bytes is added with its name. -/
theorem on_addCustom_raw {name : Text} {inCode : Bool} {bytes : List UInt8}
    (named : (PoolBuilder.text name).on builder = (.ok index, later))
    (small : (Output.empty.bytes bytes).size < 4294967296)
    (added : attributes.table.add "attributes" (entryBytes index (Output.empty.bytes bytes)) = .ok next) :
    Draft.on (addCustom ⟨name, inCode, .raw bytes⟩) (attributes, builder) = (.ok (), ⟨next⟩, later) := by
  unfold addCustom content
  simp only [on_bind, on_pooled, Pooling.on_pure, named]
  exact on_addNamed small added later

end Adding

/-- Whether a step leaves the first attribute the first. -/
def Keeps {α : Type} (step : Draft AttributeTable α) : Prop :=
  ∀ given : Output → Pool → Prop, Runs (fun attributes pool => attributes.StartsWith given pool) step
    fun _ attributes pool => attributes.StartsWith given pool

theorem Keeps.bind {α β : Type} {first : Draft AttributeTable α}
    {second : α → Draft AttributeTable β} (keeps : Keeps first)
    (next : ∀ value, Keeps (second value)) : Keeps (first >>= second) :=
  fun given => (keeps given).bind fun value => next value given

theorem keeps_pure {α : Type} (value : α) : Keeps (pure value) :=
  fun _ => (Runs.pure value).weaken (fun _ _ => id) fun _ _ _ before => before.2

theorem keeps_add (kind : AttributeKind) (body : Output) : Keeps (add kind body) := by
  intro given
  refine (runs_add kind body).weaken (fun _ _ => id) ?_
  rintro _ attributes pool ⟨-, name, earlier, -, ⟨entry, known, first⟩, entries⟩
  exact ⟨entry, known, first.trans (entries ▸ List.suffix_cons _ _)⟩

theorem keeps_addIndex (kind : AttributeKind) (index? : Option UInt16) :
    Keeps (addIndex kind index?) := by
  cases index? with
  | none => exact keeps_pure ()
  | some index => exact keeps_add kind (.ofU16 index)

theorem keeps_addTable (kind : AttributeKind) (table : Table) : Keeps (addTable kind table) := by
  unfold addTable
  split
  · exact keeps_add kind table.toOutput
  · exact keeps_pure ()

theorem keeps_addCommon (access : UInt32) (major : UInt16) (signature? : Option UInt16) :
    Keeps (addCommon access major signature?) := by
  unfold addCommon
  have rest : Keeps (do
      addIndex .signature signature?
      if access &&& Access.deprecated != 0 then add .deprecated .empty) := by
    refine (keeps_addIndex .signature signature?).bind fun _ => ?_
    split
    · exact keeps_add .deprecated .empty
    · exact keeps_pure ()
  cases needed : Access.needsSyntheticAttribute access major with
  | true =>
      simp only [if_true]
      exact (keeps_add .synthetic .empty).bind fun _ => rest
  | false =>
      simp only [Bool.false_eq_true, if_false]
      exact rest

end AttributeTable

end ClassFile
