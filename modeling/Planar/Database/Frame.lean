import Planar.Catalog.Commit
import Planar.Foundations.Serial

/-
  The part of the database on which a commit depends once it
  has read the row of its table.

  Main declarations:
    * `Database.Agrees`
    * `Statement.StaysWithin`
    * `sqlStore_carries`
    * `WithinTable`, `withinTable_commitToRow`,
      `withinTable_insertNewTable`
-/

------------------------------------------------------------
-- The Part of One Table
------------------------------------------------------------

namespace Planar

/-
  Two databases have the same files of a table and the same
  schema, if one is given, and the second database has all
  the keys of the first one.
-/
structure Database.Agrees
    (tableUuid : Option Uuid)
    (schemaUuid : Option Uuid)
    (db db' : Database) : Prop where
  files : ∀ t ∈ tableUuid, db'.filesOf t = db.filesOf t
  schema : ∀ s ∈ schemaUuid,
    (db'.schemas.find? fun row => row.schemaUuid = s) =
      db.schemas.find? fun row => row.schemaUuid = s
  columns : ∀ s ∈ schemaUuid,
    db'.columnsOf s = db.columnsOf s
  keys : ∀ k ∈ db.keyList, k ∈ db'.keyList

/- Updates are of the rows of the table and its schema. -/
def Statement.StaysWithin
    (tableUuid : Option Uuid)
    (schemaUuid : Option Uuid) : Statement → Prop
| .markFilesRemoved _ t _ => t ∈ tableUuid
| .closeSchema _ s => s ∈ schemaUuid
| _ => True

variable
  {tableUuid : Option Uuid}
  {schemaUuid : Option Uuid}
  {db db' : Database}
  {s : Statement}

/- A predicate on files holds in the files of a table. -/
theorem Database.any_isLiveIn
    (db : Database)
    (tableUuid : Uuid)
    (fileUuids : List Uuid) :
    db.files.any (FileRow.isLiveIn tableUuid fileUuids) =
      (db.filesOf tableUuid).any
        (FileRow.isLiveIn tableUuid fileUuids) := by
  unfold Database.filesOf
  rw [List.any_filter]
  congr 1
  funext row
  unfold FileRow.isLiveIn
  cases decide (row.tableUuid = tableUuid) <;> rfl

theorem Database.any_schemaUuid
    (db : Database)
    (schemaUuid : Uuid) :
    (db.schemas.any fun row => row.schemaUuid = schemaUuid) =
      (db.schemas.find? fun row =>
        row.schemaUuid = schemaUuid).isSome := by
  rw [Bool.eq_iff_iff, List.any_eq_true,
    List.find?_isSome]

/- What a statement refers to is the same in both. -/
theorem Database.Agrees.references_eq
    (hAgrees : Agrees tableUuid schemaUuid db db')
    (hWithin : s.StaysWithin tableUuid schemaUuid) :
    s.references db' = s.references db := by
  cases s with
  | markFilesRemoved t table fileUuids =>
      simp only [Statement.references, any_isLiveIn,
        hAgrees.files table hWithin]
  | closeSchema t current =>
      simp only [Statement.references, any_schemaUuid,
        hAgrees.schema current hWithin]
  | insertTable row => rfl
  | insertTransaction row => rfl
  | insertSchema row => rfl
  | insertColumns rows => rfl
  | insertFiles rows => rfl
  | initTableHead current t table => rfl
  | advanceTableHead t current properties table => rfl

/- The effect of a statement keeps the part the same. -/
theorem Database.Agrees.effect
    (hAgrees : Agrees tableUuid schemaUuid db db')
    (hWithin : s.StaysWithin tableUuid schemaUuid) :
    Agrees tableUuid schemaUuid (db.effect s)
      (db'.effect s) := by
  have hKeys : ∀ k ∈ (db.effect s).keyList,
      k ∈ (db'.effect s).keyList := by
    intro k hKey
    rw [(keyList_effect db s).mem_iff,
      List.mem_append] at hKey
    rw [(keyList_effect db' s).mem_iff, List.mem_append]
    exact hKey.imp_left (hAgrees.keys k)
  have hFiles := hAgrees.files
  have hSchema := hAgrees.schema
  have hColumns := hAgrees.columns
  unfold filesOf at hFiles
  unfold columnsOf at hColumns
  refine ⟨?_, ?_, ?_, hKeys⟩
  · intro u hu
    cases s with
    | insertFiles rows =>
        simp only [Database.effect, filesOf,
          List.filter_append, hFiles u hu]
    | markFilesRemoved t table fileUuids =>
        simp only [Database.effect, filesOf,
          List.filter_map, Function.comp_def,
          FileRow.markRemoved_tableUuid, hFiles u hu]
    | insertTable row => exact hFiles u hu
    | insertTransaction row => exact hFiles u hu
    | insertSchema row => exact hFiles u hu
    | insertColumns rows => exact hFiles u hu
    | closeSchema t current => exact hFiles u hu
    | initTableHead current t table => exact hFiles u hu
    | advanceTableHead t current properties table =>
        exact hFiles u hu
  · intro u hu
    cases s with
    | insertSchema row =>
        simp only [Database.effect, List.find?_append,
          hSchema u hu]
    | closeSchema t current =>
        simp only [Database.effect, List.find?_map,
          Function.comp_def, SchemaRow.schemaUuid_close,
          hSchema u hu]
    | insertTable row => exact hSchema u hu
    | insertTransaction row => exact hSchema u hu
    | insertColumns rows => exact hSchema u hu
    | insertFiles rows => exact hSchema u hu
    | markFilesRemoved t table fileUuids =>
        exact hSchema u hu
    | initTableHead current t table => exact hSchema u hu
    | advanceTableHead t current properties table =>
        exact hSchema u hu
  · intro u hu
    cases s with
    | insertColumns rows =>
        simp only [Database.effect, columnsOf,
          List.filter_append, hColumns u hu]
    | insertTable row => exact hColumns u hu
    | insertTransaction row => exact hColumns u hu
    | insertSchema row => exact hColumns u hu
    | closeSchema t current => exact hColumns u hu
    | insertFiles rows => exact hColumns u hu
    | markFilesRemoved t table fileUuids =>
        exact hColumns u hu
    | initTableHead current t table => exact hColumns u hu
    | advanceTableHead t current properties table =>
        exact hColumns u hu

/- Statements within the part carry it from one to another. -/
theorem sqlStore_carries
    (tableUuid : Option Uuid)
    (schemaUuid : Option Uuid) :
    Tx.Carries sqlStore
      (Statement.StaysWithin tableUuid schemaUuid)
      (Database.Agrees tableUuid schemaUuid) := by
  intro s db db' hWithin hAgrees hCheck hFresh
  refine ⟨?_, hAgrees.effect hWithin⟩
  rcases Database.check_ok.mp hCheck with
    ⟨_, hNodup, hRefers⟩
  refine Database.check_ok.mpr ⟨hFresh, hNodup, ?_⟩
  rw [hAgrees.references_eq hWithin]
  exact fun k hKey => hAgrees.keys k (hRefers k hKey)

end Planar

------------------------------------------------------------
-- A Commit Depends on the Part of Its Table
------------------------------------------------------------

namespace Planar

variable
  {tableUuid : Option Uuid}
  {schemaUuid : Option Uuid}

/- The programs that depend on the part of one table. -/
abbrev WithinTable
    {α : Type}
    (tableUuid : Option Uuid)
    (schemaUuid : Option Uuid)
    (tx : CatalogTx α) : Prop :=
  tx.Respects (Statement.StaysWithin tableUuid schemaUuid)
    (Database.Agrees tableUuid schemaUuid)

theorem withinTable_insertFileChunks
    {ext : External}
    {table : Uuid}
    {transactionId : TxnId}
    {fileUuid : Nat → Uuid}
    {start : Nat}
    {pieces : List (List FileSpec)} :
    WithinTable tableUuid schemaUuid
      (insertFileChunks ext table transactionId fileUuid
        start pieces) := by
  induction pieces generalizing start with
  | nil => exact trivial
  | cons chunk rest ih =>
      apply (Tx.respects_lift _).bind
      intro rows
      exact (Tx.respects_execute trivial).bind fun _ => ih

theorem withinTable_markFileChunks
    {table : Uuid}
    {transactionId : TxnId}
    {pieces : List (List Uuid)} :
    WithinTable (some table) schemaUuid
      (markFileChunks table transactionId pieces) := by
  induction pieces with
  | nil => exact trivial
  | cons chunk rest ih =>
      have hWithin : Statement.StaysWithin (some table)
          schemaUuid (.markFilesRemoved transactionId
            table chunk) := rfl
      exact (Tx.respects_execute hWithin).bind fun _ => ih

theorem withinTable_insertColumnChunks
    {ext : External}
    {newSchemaUuid : Uuid}
    {columnUuid : Nat → Uuid}
    {size index : Nat}
    {pieces : List (List ColumnSpec)} :
    WithinTable tableUuid schemaUuid
      (insertColumnChunks ext newSchemaUuid columnUuid size
        index pieces) := by
  induction pieces generalizing index with
  | nil => exact trivial
  | cons chunk rest ih =>
      exact (Tx.respects_execute trivial).bind fun _ => ih

/- Updating the schema reads the current schema only. -/
theorem withinTable_updateSchema
    {ctx : CommitContext}
    {op : Nat}
    {spec : SchemaSpec} :
    WithinTable (some ctx.tableUuid) ctx.currentSchemaUuid
      (updateSchema ctx op spec) := by
  apply (Tx.respects_lift _).bind
  intro _
  cases hCurrent : ctx.currentSchemaUuid with
  | none => exact trivial
  | some current =>
      apply (Tx.respects_select ?_).bind
      · intro fetched
        apply (Tx.respects_lift _).bind
        intro version
        apply (Tx.respects_select ?_).bind
        · intro rows
          apply (Tx.respects_lift _).bind
          intro _
          apply (Tx.respects_execute trivial).bind
          intro _
          have hWithin : Statement.StaysWithin
              (some ctx.tableUuid) (some current)
              (.closeSchema ctx.draws.transactionId
                current) := rfl
          apply (Tx.respects_execute hWithin).bind
          intro _
          exact withinTable_insertColumnChunks.bind
            fun _ => trivial
        · intro db db' hAgrees
          exact (hAgrees.columns current rfl).symm
      · intro db db' hAgrees
        unfold fetchSchemaVersion
        rw [hAgrees.schema current rfl]

theorem withinTable_stageOperation
    {ctx : CommitContext}
    {op : Nat}
    {staging : Staging}
    {operation : MutationOp} :
    WithinTable (some ctx.tableUuid) ctx.currentSchemaUuid
      (stageOperation ctx op staging operation) := by
  cases operation with
  | appendFiles files =>
      refine Tx.Respects.bind ?_ fun _ => trivial
      unfold appendFiles
      split
      · exact trivial
      · exact withinTable_insertFileChunks
  | deleteFiles fileUuids =>
      refine Tx.Respects.bind ?_ fun _ => trivial
      unfold deleteFiles
      split
      · exact trivial
      · exact withinTable_markFileChunks
  | updateSchema spec =>
      exact withinTable_updateSchema.bind fun _ => trivial
  | setProperties properties => exact trivial
  | removeProperties keys =>
      simp only [stageOperation]
      split
      · exact trivial
      split
      · exact trivial
      · exact trivial

theorem withinTable_stageOperations
    {ctx : CommitContext}
    {op : Nat}
    {staging : Staging}
    {operations : List MutationOp} :
    WithinTable (some ctx.tableUuid) ctx.currentSchemaUuid
      (stageOperations ctx op staging operations) := by
  induction operations generalizing op staging with
  | nil => exact trivial
  | cons operation rest ih =>
      exact withinTable_stageOperation.bind fun _ => ih

theorem withinTable_stageCommit
    (ctx : CommitContext)
    {current : TxnId}
    {properties : TableProperties}
    {mutation : Mutation} :
    WithinTable (some ctx.tableUuid) ctx.currentSchemaUuid
      (stageCommit ctx current properties mutation) := by
  apply (Tx.respects_execute trivial).bind
  intro _
  apply withinTable_stageOperations.bind
  intro staging
  apply (Tx.respects_lift _).bind
  intro text
  exact (Tx.respects_execute trivial).bind fun _ => trivial

/- A commit, once it has the row of its table. -/
theorem withinTable_commitToRow
    {ext : External}
    {catalog : SqlCatalog}
    {ident : TableIdent}
    {base : TxnId}
    {mutation : Mutation}
    {draws : Draws}
    {row : TableRow} :
    WithinTable (some row.tableUuid) row.currentSchemaUuid
      (commitToRow ext catalog ident base mutation draws
        (some row)) := by
  apply (Tx.respects_lift _).bind
  intro properties
  apply (Tx.respects_lift _).bind
  intro _
  apply (Tx.respects_lift _).bind
  intro current
  exact withinTable_stageCommit
    ⟨ext, catalog.kind, draws, row.tableUuid,
      row.currentSchemaUuid⟩

/- A creation depends on no table at all. -/
theorem withinTable_insertNewTable
    {ext : External}
    {catalog : SqlCatalog}
    {ident : TableIdent}
    {location propertiesText : String}
    {schema : SchemaSpec}
    {draws : Draws} :
    WithinTable none none
      (insertNewTable ext catalog ident location
        propertiesText schema draws) := by
  apply (Tx.respects_execute trivial).bind
  intro _
  apply (Tx.respects_execute trivial).bind
  intro _
  apply (Tx.respects_execute trivial).bind
  intro _
  apply withinTable_insertColumnChunks.bind
  intro _
  exact Tx.respects_execute trivial

end Planar
