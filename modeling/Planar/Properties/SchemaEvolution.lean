import Planar.History.Versions
import Planar.Properties.TimeTravel

/-
  The schema versions of a table over whole runs: a later
  one carries on all columns of an earlier one.

  Main declarations:
    * `ColumnRow.EvolvesTo`, `SchemaRow.CarriedOnBy`
    * `World.Reachable.schemasEvolve`
-/

------------------------------------------------------------
-- Stored Columns
------------------------------------------------------------

namespace Planar

/-
  A stored column carries on another one: by name, with a
  type it can evolve to, and nullable if the other one is.
-/
structure ColumnRow.EvolvesTo
    (ext : External)
    (column later : ColumnRow) : Prop where
  columnName : later.columnName = column.columnName
  columnType : ∃ fromType toType,
    decodeDataType ext column.columnType = .ok fromType ∧
      decodeDataType ext later.columnType = .ok toType ∧
      canEvolveTo fromType toType = true
  isNullable :
    column.isNullable = true → later.isNullable = true

/- The stored columns of a schema are all carried on. -/
def SchemaRow.CarriedOnBy
    (ext : External)
    (db : Database)
    (schema later : SchemaRow) : Prop :=
  ∀ column ∈ db.columnsOf schema.schemaUuid,
    ∃ column' ∈ db.columnsOf later.schemaUuid,
      column.EvolvesTo ext column'

/-
  A version of a table is carried on by all later ones, in
  the order of their rows and in that of their numbers.
-/
structure SchemasEvolve
    (ext : External)
    (db : Database)
    (tableUuid : Uuid) : Prop where
  inOrder : ∀ (i j : Nat) (schema later : SchemaRow),
    (db.schemasOf tableUuid)[i]? = some schema →
    (db.schemasOf tableUuid)[j]? = some later →
    i ≤ j →
    schema.CarriedOnBy ext db later
  byVersion : (db.schemasOf tableUuid).length < 2 ^ 31 →
    ∀ schema ∈ db.schemasOf tableUuid,
    ∀ later ∈ db.schemasOf tableUuid,
      schema.schemaVersion ≤ later.schemaVersion →
      schema.CarriedOnBy ext db later

variable
  {ext : External}
  {db : Database}
  {tableUuid : Uuid}
  {h : History}

theorem ColumnRow.Encodes.evolvesTo
    {row later : ColumnRow}
    {c d : ColumnSpec}
    (hRow : row.Encodes ext c)
    (hLater : later.Encodes ext d)
    (hReads : ext.ReadsType c.columnType)
    (hReads' : ext.ReadsType d.columnType)
    (hEvolves : c.EvolvesTo d) :
    row.EvolvesTo ext later where
  columnName := by
    rw [hLater.columnName, hEvolves.name, hRow.columnName]
  columnType := by
    rw [hRow.columnType, hLater.columnType]
    exact ⟨c.columnType, d.columnType,
      decodeDataType_encodeDataType hReads,
      decodeDataType_encodeDataType hReads',
      hEvolves.columnType⟩
  isNullable := by
    rw [hRow.isNullable, hLater.isNullable]
    exact hEvolves.isNullable

/- The rows of a history carry on what its schemas do. -/
theorem Stored.carriedOnBy
    {i j : Nat}
    {schema later : SchemaRow}
    (hStored : Stored ext db tableUuid h)
    (hLawful : Lawful ext h)
    (hReads : h.ReadsTypes ext)
    (hSchema :
      (db.schemasOf tableUuid)[i]? = some schema)
    (hLater : (db.schemasOf tableUuid)[j]? = some later)
    (hOrder : i ≤ j) :
    schema.CarriedOnBy ext db later := by
  rw [hStored.schemas, getElem?_schemaRows,
    Option.map_eq_some_iff] at hSchema hLater
  rcases hSchema with ⟨p, hEarlier, rfl⟩
  rcases hLater with ⟨q, hLatest, rfl⟩
  have hPoint := List.mem_of_getElem? hEarlier
  have hPoint' := List.mem_of_getElem? hLatest
  have hCarried := hLawful.carriedOn_of_le hReads hEarlier
    hLatest hOrder
  intro row hRow
  change row ∈ db.columnsOf p.2.schemaUuid at hRow
  change ∃ row' ∈ db.columnsOf q.2.schemaUuid, _
  rw [hStored.columns p hPoint] at hRow
  rw [hStored.columns q hPoint']
  rcases mem_of_forall₂
    (encodes_columnRows ext p.2).flip hRow with
    ⟨c, hColumn, hEncodes⟩
  rcases hCarried c hColumn with ⟨d, hNew, hEvolves⟩
  rcases mem_of_forall₂ (encodes_columnRows ext q.2) hNew
    with ⟨row', hRow', hEncodes'⟩
  exact ⟨row', hRow', hEncodes.evolvesTo hEncodes'
    (hReads p hPoint c hColumn) (hReads q hPoint' d hNew)
    hEvolves⟩

/- Without wrapping around the versions are numbered up. -/
theorem Stored.schemaVersion_eq
    {i : Nat}
    {schema : SchemaRow}
    (hStored : Stored ext db tableUuid h)
    (hFew : (db.schemasOf tableUuid).length < 2 ^ 31)
    (hSchema :
      (db.schemasOf tableUuid)[i]? = some schema) :
    schema.schemaVersion = (i + 1 : Nat) := by
  rcases List.getElem?_eq_some_iff.mp hSchema with ⟨hi, _⟩
  rw [hStored.schemas, getElem?_schemaRows,
    Option.map_eq_some_iff] at hSchema
  rcases hSchema with ⟨p, _, rfl⟩
  have hFits : i + 1 < 2 ^ 31 :=
    Nat.lt_of_le_of_lt hi hFew
  unfold versionRow
  rw [asI32_of_lt hFits]

/-
  Each commit is checked against the version before it; the
  accepted steps compose over every run.
-/
theorem World.Reachable.schemasEvolve
    {w : World}
    {row : TableRow}
    (hReach : w.Reachable ext)
    (hRow : row ∈ w.database.tables)
    (hReads : (w.history row.ident).ReadsTypes ext) :
    SchemasEvolve ext w.database row.tableUuid := by
  have hStored := (hReach.inv.tracked row hRow).toStored
  have hLawful := hReach.inv.lawful row hRow
  constructor
  case inOrder =>
    intro i j schema later hSchema hLater hOrder
    exact hStored.carriedOnBy hLawful hReads hSchema hLater
      hOrder
  case byVersion =>
    intro hFew schema hSchema later hLater hVersions
    rcases List.getElem?_of_mem hSchema with ⟨i, hAt⟩
    rcases List.getElem?_of_mem hLater with ⟨j, hAt'⟩
    rw [hStored.schemaVersion_eq hFew hAt,
      hStored.schemaVersion_eq hFew hAt'] at hVersions
    exact hStored.carriedOnBy hLawful hReads hAt hAt'
      (by omega)

theorem schemasEvolve_sample :
    (sampleWorld.database.schemasOf 1000).length = 2 ∧
      SchemasEvolve sampleExternal sampleWorld.database
        1000 := by
  refine ⟨by decide +kernel, ?_⟩
  have hRow : ∃ row ∈ sampleWorld.database.tables,
      row.ident = sampleIdent ∧ row.tableUuid = 1000 := by
    decide +kernel
  rcases hRow with ⟨row, hRow, hIdent, hUuid⟩
  rw [← hUuid]
  apply (World.reachable_run sampleExternal
    sampleCalls).schemasEvolve hRow
  rw [hIdent]
  decide +kernel

end Planar
