import Planar.History.Creations
import Planar.History.GivenSchemas
import Planar.Properties.Chunks
import Planar.Properties.Linear
import Planar.Properties.SchemaEvolution
import Planar.Reading.Success

/-
  The schema versions of a table tile its history.

  Main declarations:
    * `ColumnsStored`, `Tiling`
    * `SchemasDetermined`
    * `SchemasTile`
    * `World.Reachable.schemasTile_iff`
-/

------------------------------------------------------------
-- The Columns of a Version
------------------------------------------------------------

namespace Planar

variable
  {ext : External}
  {db : Database}
  {row : TableRow}
  {h : History}

/-
  The stored columns of a schema are those of its
  specification: within the bounds, with distinct names, and
  numbered in its order.
-/
structure ColumnsStored
    (ext : External)
    (db : Database)
    (schemaUuid : Uuid)
    (specs : List ColumnSpec) : Prop where
  some : 1 ≤ (db.columnsOf schemaUuid).length
  limit :
    (db.columnsOf schemaUuid).length ≤ maxColumnsPerSchema
  names :
    ((db.columnsOf schemaUuid).map
      ColumnRow.columnName).Nodup
  ordinals :
    (db.columnsOf schemaUuid).map
        ColumnRow.ordinalPosition =
      (List.range' 1
        (db.columnsOf schemaUuid).length).map
          fun n : Nat => (n : Int)
  encodes :
    List.Forall₂ (ColumnRow.Encodes ext)
      (db.columnsOf schemaUuid) specs

theorem names_columnRows
    (ext : External)
    (s : SchemaContents) :
    (s.columnRows ext).map ColumnRow.columnName =
      s.specs.map ColumnSpec.name := by
  simp [SchemaContents.columnRows, SchemaContents.specs,
    Function.comp_def]

theorem ordinals_columnRows
    {s : SchemaContents}
    (hFew : s.columns.length < 2 ^ 31) :
    (s.columnRows ext).map ColumnRow.ordinalPosition =
      (List.range' 1 (s.columnRows ext).length).map
        fun n : Nat => (n : Int) := by
  rw [SchemaContents.columnRows, map_mapIdx,
    List.length_mapIdx]
  dsimp only
  exact positions_iff.mpr hFew

/- A validated schema of less than 2^32 columns. -/
theorem Holds.columnsStored
    {tableUuid : Uuid}
    {p : TxnId × SchemaContents}
    (hHolds : Holds ext db tableUuid h)
    (hPoint : p ∈ h.schemaPoints)
    (hCast : p.2.specs.length < 2 ^ 32) :
    ColumnsStored ext db p.2.schemaUuid p.2.specs := by
  have hValid := hHolds.lawful.valid p hPoint
  rcases SchemaSpec.validate_ok hValid with
    ⟨hNonempty, _, hNames⟩
  have hSpecs : p.2.specs.length = p.2.columns.length :=
    List.length_map ..
  have hRows :
      (p.2.columnRows ext).length = p.2.columns.length :=
    List.length_mapIdx
  have hLimit : p.2.columns.length ≤ maxColumnsPerSchema :=
    columns_le_of_valid hValid (by omega)
  have hPos := List.length_pos_iff.mpr hNonempty
  have hSmall : maxColumnsPerSchema < 2 ^ 31 := by decide
  constructor
  all_goals rw [hHolds.columns p hPoint]
  case some =>
    change 0 < p.2.specs.length at hPos
    omega
  case limit => omega
  case names =>
    rw [names_columnRows]
    exact hNames
  case ordinals => exact ordinals_columnRows (by omega)
  case encodes => exact encodes_columnRows ext p.2

------------------------------------------------------------
-- The Versions of a Table
------------------------------------------------------------

/-
  The schema rows, listed by their versions: each is in
  force from its transaction until that of the next one, the
  first since the creation, and the last is the current one.
-/
structure Tiling
    (ext : External)
    (db : Database)
    (row : TableRow)
    (given : List SchemaSpec)
    (chain : List TxnId)
    (schemas : List SchemaRow) : Prop where
  listed : schemas.Perm (db.schemasOf row.tableUuid)
  versions :
    schemas.map SchemaRow.schemaVersion =
      (List.range' 1 schemas.length).map
        fun n : Nat => (n : Int)
  first :
    schemas.head?.map SchemaRow.validFromTransactionId =
      chain.head?
  next : ∀ (i : Nat) (schema : SchemaRow),
    schemas[i]? = some schema →
      schema.validToTransactionId =
        schemas[i + 1]?.map
          SchemaRow.validFromTransactionId
  nonempty : schemas ≠ []
  current :
    schemas.getLast?.map SchemaRow.schemaUuid =
      row.currentSchemaUuid
  distinct :
    (schemas.map SchemaRow.validFromTransactionId).Nodup
  onChain :
    (schemas.map
      SchemaRow.validFromTransactionId).Sublist chain
  columns :
    List.Forall₂
      (fun schema spec =>
        ColumnsStored ext db schema.schemaUuid
          spec.columns)
      schemas given

theorem validFrom_schemaRows
    (tableUuid : Uuid)
    (points : List (TxnId × SchemaContents)) :
    (schemaRows tableUuid points).map
        SchemaRow.validFromTransactionId =
      points.map Prod.fst := by
  apply List.ext_getElem?
  intro i
  rw [List.getElem?_map, getElem?_schemaRows,
    List.getElem?_map, Option.map_map]
  rfl

/- The rows of a history tile it. -/
theorem Tracked.tiling
    {given : List SchemaSpec}
    (hTracked : Tracked ext db row h)
    (hHolds : Holds ext db row.tableUuid h)
    (hFew : (db.schemasOf row.tableUuid).length < 2 ^ 31)
    (hGiven :
      h.schemaPoints.map (fun p => p.2.specs) =
        given.map SchemaSpec.columns)
    (hCast : ∀ spec ∈ given,
      spec.columns.length < 2 ^ 32) :
    Tiling ext db row given h.ids
      (db.schemasOf row.tableUuid) := by
  have hLawful := hHolds.lawful
  have hRows := hHolds.schemas
  have hSublist := hLawful.points_sublist
  constructor
  case listed => exact .refl _
  case versions =>
    apply List.ext_getElem
    · simp
    · intro i hLeft hRight
      rw [List.length_map] at hLeft
      have hVersion := hHolds.schemaVersion_eq hFew
        (List.getElem?_eq_getElem hLeft)
      simp only [List.getElem_map, List.getElem_range',
        hVersion]
      omega
  case first =>
    rw [hRows, ← List.head?_map, validFrom_schemaRows,
      List.head?_map]
    exact hLawful.points_head
  case next =>
    intro i schema hAt
    rw [hRows, getElem?_schemaRows] at hAt
    rcases Option.map_eq_some_iff.mp hAt with ⟨p, _, rfl⟩
    rw [hRows, getElem?_schemaRows, Option.map_map]
    rfl
  case nonempty =>
    have hPoints :=
      History.schemaPoints_ne_nil hLawful.created
    rw [hRows, ← List.length_pos_iff, length_schemaRows]
    exact List.length_pos_iff.mpr hPoints
  case current =>
    rw [hTracked.schemaHead, hRows, ← List.getLast?_map,
      map_schemaUuid_schemaRows, List.getLast?_map,
      History.schema, Option.map_map]
    rfl
  case distinct =>
    rw [hRows, validFrom_schemaRows]
    exact hSublist.nodup hHolds.chained.nodup
  case onChain =>
    rw [hRows, validFrom_schemaRows]
    exact hSublist
  case columns =>
    have hUuids := map_schemaUuid_schemaRows
      row.tableUuid h.schemaPoints
    rw [← List.forall₂_map_left_iff
        (f := SchemaRow.schemaUuid)
        (R := fun uuid (spec : SchemaSpec) =>
          ColumnsStored ext db uuid spec.columns),
      ← List.forall₂_map_right_iff
        (f := SchemaSpec.columns)
        (R := ColumnsStored ext db),
      hRows, hUuids, ← hGiven, List.forall₂_map_left_iff,
      List.forall₂_map_right_iff, List.forall₂_same]
    intro p hPoint
    apply hHolds.columnsStored hPoint
    have hSpecs : p.2.specs ∈
        given.map SchemaSpec.columns := by
      rw [← hGiven]
      exact List.mem_map_of_mem hPoint
    rcases List.mem_map.mp hSpecs with ⟨spec, hSpec, hEq⟩
    rw [← hEq]
    exact hCast spec hSpec

------------------------------------------------------------
-- The Version at a Transaction
------------------------------------------------------------

/-
  What readers of the rows meet.  With increasing ids one
  row is valid at each transaction, so that a read finds a
  schema, at the head the current one; and no transaction
  has brought two.
-/
structure SchemasDetermined
    (ext : External)
    (db : Database)
    (row : TableRow)
    (chain : List TxnId) : Prop where
  unique : chain.Pairwise (· < ·) → ∀ t ∈ chain,
    ∃ schema,
      (db.schemasOf row.tableUuid).filter
        (SchemaRow.isValidAt t) = [schema]
  found : chain.Pairwise (· < ·) → ∀ t ∈ chain,
    ∀ (kind : DbKind) (ident : TableIdent)
      (message : String),
      (fetchSchema ext kind ident row.tableUuid t).exec db ≠
        fault (.notFound message)
  head : chain.Pairwise (· < ·) →
    ∀ t ∈ row.currentTransactionId, ∃ schema,
      selectSchema ext row.tableUuid t db = some schema ∧
        row.currentSchemaUuid = some schema.schemaUuid
  single : ∀ t,
    (selectSchemas row.tableUuid t db).length ≤ 1

/- Decoding never reports that something is missing. -/
theorem decodeColumns_ne_notFound
    (ext : External)
    (rows : List ColumnRow)
    (message : String) :
    decodeColumns ext rows ≠ fault (.notFound message) := by
  induction rows with
  | nil => exact fun hEq => by cases hEq
  | cons row rest ih =>
      unfold decodeColumns decodeColumn decodeDataType
      intro hEq
      rcases hBytes : ext.fbToSchema row.columnType with
        e | _ | ⟨field, _ | ⟨field', rest'⟩⟩
      · rw [hBytes] at hEq
        cases hEq
      · rw [hBytes] at hEq
        cases hEq
      · rw [hBytes] at hEq
        cases hRest : decodeColumns ext rest with
        | ok columns =>
            rw [hRest] at hEq
            cases hEq
        | error e =>
            rw [hRest] at hEq ih
            exact ih hEq
      · rw [hBytes] at hEq
        cases hEq

theorem decodeSchema_ne_notFound
    (kind : DbKind)
    (schemaRow : SchemaRow)
    (columns : List Column)
    (message : String) :
    decodeSchema kind schemaRow columns ≠
      fault (.notFound message) := by
  cases kind <;> exact fun hEq => by cases hEq

theorem fetchColumns_ne_notFound
    (ext : External)
    (what : String)
    (schemaUuid : Uuid)
    (db : Database)
    (message : String) :
    (fetchColumns ext what schemaUuid).exec db ≠
      fault (.notFound message) := by
  unfold fetchColumns
  rw [Query.exec_bind_of_ok (Query.exec_fetch ..)]
  split
  · exact fun hEq => by cases hEq
  · exact decodeColumns_ne_notFound ext _ message

/- A read that finds a row does not miss its schema. -/
theorem fetchSchema_ne_notFound
    {kind : DbKind}
    {ident : TableIdent}
    {tableUuid : Uuid}
    {t : TxnId}
    {schemaRow : SchemaRow}
    (hFound :
      selectSchema ext tableUuid t db = some schemaRow)
    (message : String) :
    (fetchSchema ext kind ident tableUuid t).exec db ≠
      fault (.notFound message) := by
  unfold fetchSchema
  rw [Query.exec_bind_of_ok (Query.exec_fetch ..), hFound]
  have hNotMissing := fetchColumns_ne_notFound ext
    "column count" schemaRow.schemaUuid db message
  cases hColumns : (fetchColumns ext "column count"
      schemaRow.schemaUuid).exec db with
  | error e =>
      rw [hColumns] at hNotMissing
      change Query.exec db (_ >>= _) ≠ _
      rw [Query.exec_bind_of_error hColumns]
      intro hEq
      exact hNotMissing
        (congrArg Except.error (Except.error.inj hEq))
  | ok columns =>
      change Query.exec db (_ >>= _) ≠ _
      rw [Query.exec_bind_of_ok hColumns]
      exact decodeSchema_ne_notFound kind schemaRow columns
        message

/- The only valid row is the one that is selected. -/
theorem selectSchema_of_filter
    {tableUuid : Uuid}
    {t : TxnId}
    {schemaRow : SchemaRow}
    (hFilter :
      (db.schemasOf tableUuid).filter
        (SchemaRow.isValidAt t) = [schemaRow]) :
    selectSchema ext tableUuid t db = some schemaRow := by
  rw [selectSchema, hFilter, RowOrder.first_singleton]

/- A transaction brings at most one version. -/
theorem Holds.selectSchemas_le
    {tableUuid : Uuid}
    (hHolds : Holds ext db tableUuid h)
    (t : TxnId) :
    (selectSchemas tableUuid t db).length ≤ 1 := by
  have hNodup :
      ((db.schemasOf tableUuid).map
        SchemaRow.validFromTransactionId).Nodup := by
    rw [hHolds.schemas, validFrom_schemaRows]
    exact hHolds.lawful.points_sublist.nodup
      hHolds.chained.nodup
  have hSelected :
      ((selectSchemas tableUuid t db).map
        SchemaRow.validFromTransactionId).Nodup := by
    have hSublist :=
      (List.take_sublist 2 _).trans
        (List.filter_sublist (p := fun row : SchemaRow =>
            row.validFromTransactionId = t)
          (l := db.schemasOf tableUuid))
    exact (hSublist.map _).nodup hNodup
  have hAll : ∀ schema ∈ selectSchemas tableUuid t db,
      schema.validFromTransactionId = t := by
    intro schema hSchema
    exact of_decide_eq_true
      (List.mem_filter.mp (List.mem_of_mem_take hSchema)).2
  cases hList : selectSchemas tableUuid t db with
  | nil => exact Nat.zero_le 1
  | cons first rest =>
      cases rest with
      | nil => exact Nat.le_refl 1
      | cons second more =>
          rw [hList] at hSelected hAll
          simp [hAll first (by simp),
            hAll second (by simp)] at hSelected

theorem Tracked.schemasDetermined
    (hTracked : Tracked ext db row h)
    (hHolds : Holds ext db row.tableUuid h) :
    SchemasDetermined ext db row h.ids := by
  constructor
  case unique =>
    intro hIncreasing t hMember
    rcases hHolds.validSchema hIncreasing hMember with
      ⟨_, _, _, _, _, _, hFilter⟩
    exact ⟨_, hFilter⟩
  case found =>
    intro hIncreasing t hMember kind ident message
    rcases hHolds.validSchema hIncreasing hMember with
      ⟨_, _, _, _, _, _, hFilter⟩
    exact fetchSchema_ne_notFound
      (selectSchema_of_filter hFilter) message
  case head =>
    intro hIncreasing t hHead
    rw [hTracked.head] at hHead
    rcases hHolds.validSchema hIncreasing
        (List.mem_of_getLast? hHead) with
      ⟨past, later, last, hSplit, hLast, hPoint, hFilter⟩
    have hNodup := hHolds.chained.nodup
    rw [hSplit] at hNodup hHead
    have hLater : later = [] := by
      rw [← List.append_nil later] at hNodup
      exact History.eq_nil_of_last hNodup
        (hLast.trans hHead.symm)
    rw [hLater, List.append_nil] at hSplit
    refine ⟨_, selectSchema_of_filter hFilter, ?_⟩
    rw [hTracked.schemaHead, hSplit, History.schema, hPoint]
    rfl
  case single => exact hHolds.selectSchemas_le

------------------------------------------------------------
-- Versions Tile the History
------------------------------------------------------------

/-
  The versions of a table tile its history, and so its
  readers find exactly one.
-/
def SchemasTile
    (ext : External)
    (db : Database)
    (row : TableRow)
    (given : List SchemaSpec) : Prop :=
  ∃ chain schemas,
    Chained db row.tableUuid chain ∧
      row.currentTransactionId = chain.getLast? ∧
      Tiling ext db row given chain schemas ∧
      SchemasDetermined ext db row chain

/- Each given schema is within the limit of columns. -/
theorem SchemasTile.limit
    {given : List SchemaSpec}
    (hTile : SchemasTile ext db row given) :
    ∀ spec ∈ given,
      spec.columns.length ≤ maxColumnsPerSchema := by
  rcases hTile with ⟨_, schemas, _, _, hTiling, _⟩
  intro spec hSpec
  rcases mem_of_forall₂ hTiling.columns hSpec with
    ⟨schema, _, hStored⟩
  rw [← hStored.encodes.length_eq]
  exact hStored.limit

/-
  The versions tile the history exactly when the cast of
  the number of columns to 32 bits has hidden no schema that
  is too wide.
-/
theorem World.Reachable.schemasTile_iff
    {w : World}
    (hReach : w.Reachable ext)
    (hRow : row ∈ w.database.tables)
    (hFew :
      (w.database.schemasOf row.tableUuid).length <
        2 ^ 31) :
    SchemasTile ext w.database row
        (w.givenSchemas row.ident) ↔
      ∀ spec ∈ w.givenSchemas row.ident,
        spec.columns.length < 2 ^ 32 := by
  constructor
  · intro hTile spec hSpec
    have hLimit := hTile.limit spec hSpec
    unfold maxColumnsPerSchema at hLimit
    omega
  · intro hCast
    have hTracked := hReach.inv.tracked row hRow
    have hHolds := hReach.inv.holds hRow
    exact ⟨_, _, hHolds.chained, hTracked.head,
      hTracked.tiling hHolds hFew
        (w.specs_schemaPoints row.ident) hCast,
      hTracked.schemasDetermined hHolds⟩

theorem schemasTile_sample :
    ∃ row ∈ sampleWorld.database.tables,
      (sampleWorld.database.schemasOf
          row.tableUuid).length < 2 ^ 31 ∧
        SchemasTile sampleExternal sampleWorld.database row
          (sampleWorld.givenSchemas row.ident) := by
  have hRow : ∃ row ∈ sampleWorld.database.tables,
      row.ident = sampleIdent ∧
        (sampleWorld.database.schemasOf
          row.tableUuid).length < 2 ^ 31 := by
    decide +kernel
  rcases hRow with ⟨row, hRow, hIdent, hFew⟩
  refine ⟨row, hRow, hFew, ?_⟩
  have hReach : sampleWorld.Reachable sampleExternal :=
    World.reachable_run sampleExternal sampleCalls
  apply (hReach.schemasTile_iff hRow hFew).mpr
  rw [hIdent]
  decide +kernel

------------------------------------------------------------
-- A Schema That Is Too Wide
------------------------------------------------------------

/- A table is created with 2^32 + 1 columns. -/
def wideCreate : CreateCall :=
  { catalog := sampleCatalog
    ident := sampleIdent
    location := "l"
    schema := wideSchema (2 ^ 32 + 1)
    properties := none
    draws := sampleDraws 1 }

theorem calls_wideCreate :
    (World.run sampleExternal [.create wideCreate]).calls =
      [.create wideCreate] := by
  rw [World.run_create rfl]
  · exact validate_wideSchema (by decide) (by decide)
  · exact ⟨"\x7b\x7d", by decide +kernel⟩
  · intro i hi j hj hEq
    change i < (wideSchema (2 ^ 32 + 1)).columns.length
      at hi
    change j < (wideSchema (2 ^ 32 + 1)).columns.length
      at hj
    rw [length_wideSchema] at hi hj
    have hValues := congrArg Fin.val hEq
    simp only [wideCreate, sampleDraws, Fin.val_ofNat]
      at hValues
    omega

/-
  The schema of more than 1000 columns is accepted and its
  columns are stored.
-/
theorem schemasTile_wide :
    ∃ row ∈ (World.run sampleExternal
        [.create wideCreate]).database.tables,
      ((World.run sampleExternal
          [.create wideCreate]).database.schemasOf
            row.tableUuid).length < 2 ^ 31 ∧
        ¬ SchemasTile sampleExternal
          (World.run sampleExternal
            [.create wideCreate]).database row
          ((World.run sampleExternal
            [.create wideCreate]).givenSchemas
              row.ident) := by
  have hReach := World.reachable_run sampleExternal
    [.create wideCreate]
  have hCalls := calls_wideCreate
  generalize World.run sampleExternal [.create wideCreate] =
    w at hReach hCalls
  have hGiven : w.givenSchemas sampleIdent =
      [wideSchema (2 ^ 32 + 1)] := by
    unfold World.givenSchemas World.callsOn
    rw [hCalls]
    rfl
  rcases hReach.inv.known (.create wideCreate)
      (by rw [hCalls]; exact List.mem_cons_self) with
    ⟨row, hRow, hIdent⟩
  have hIdent : row.ident = sampleIdent := hIdent
  have hPoints := w.specs_schemaPoints sampleIdent
  refine ⟨row, hRow, ?_, ?_⟩
  · have hLength := congrArg List.length hPoints
    rw [hGiven, List.length_map] at hLength
    rw [(hReach.inv.holds hRow).schemas, length_schemaRows,
      hIdent, hLength]
    exact Nat.lt_of_le_of_lt (Nat.le_refl 1) (by decide)
  · intro hTile
    have hLimit := hTile.limit (wideSchema (2 ^ 32 + 1))
      (by rw [hIdent, hGiven]; exact List.mem_cons_self)
    rw [length_wideSchema] at hLimit
    unfold maxColumnsPerSchema at hLimit
    omega

end Planar
