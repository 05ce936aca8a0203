import Mathlib.Data.List.AList
import Planar.Catalog.CreateTable

/-
  Committing a mutation with optimistic concurrency control.

  Main declarations:
    * `precheck`
    * `appendFiles`, `deleteFiles`, `updateSchema`
    * `Staging`, `stageOperation`, `stageOperations`
    * `commitTx`, `commit`
-/

------------------------------------------------------------
-- Checks Before the Transaction
------------------------------------------------------------

namespace Planar

/- The bounds and the validation of a mutation. -/
def precheck (mutation : Mutation) : Result Unit :=
  if mutation.operations.isEmpty then
    fault (.invalidArgument "mutation has no operations")
  else if
      asU32 mutation.operations.length >
        maxOperationsPerMutation then
    fault (.limitExceeded
      (s!"mutation has {mutation.operations.length} " ++
        "operations, exceeds limit of " ++
        s!"{maxOperationsPerMutation}"))
  else mutation.validate

/- A result returned by a successful commit. -/
structure CommitResult where
  transactionId : TxnId
  deriving DecidableEq

------------------------------------------------------------
-- Appending Files
------------------------------------------------------------

/- The row of one appended file, validated on the way. -/
def fileRow
    (ext : External)
    (tableUuid : Uuid)
    (transactionId : TxnId)
    (fresh : Uuid)
    (f : FileSpec) : Result FileRow := do
  f.validate ext
  let partitionText ←
    serializeJsonOptional ext f.partitionValues
  let formatText ←
    serializeJsonOptional ext f.formatOptions
  pure
    { fileUuid := f.fileUuid.getD fresh
      tableUuid := tableUuid
      fileFormat := f.fileFormat.asStr
      filePath := f.filePath
      recordCount := f.recordCount
      fileSizeBytes := f.fileSizeBytes
      addedInTransactionId := transactionId
      removedInTransactionId := none
      partitionValues := partitionText
      formatOptions := formatText }

/- The rows of one chunk of files. -/
def fileRows
    (ext : External)
    (tableUuid : Uuid)
    (transactionId : TxnId)
    (fileUuid : Nat → Uuid)
    (start : Nat) : List FileSpec → Result (List FileRow)
| [] => .ok []
| f :: rest => do
    let row ←
      fileRow ext tableUuid transactionId (fileUuid start) f
    let rows ←
      fileRows ext tableUuid transactionId fileUuid
        (start + 1) rest
    pure (row :: rows)

/- The loop over the chunks of files. -/
def insertFileChunks
    (ext : External)
    (tableUuid : Uuid)
    (transactionId : TxnId)
    (fileUuid : Nat → Uuid)
    (start : Nat) : List (List FileSpec) → CatalogTx Unit
| [] => pure ()
| chunk :: rest => do
    let rows ← Tx.lift
      (fileRows ext tableUuid transactionId fileUuid start
        chunk)
    Tx.execute (.insertFiles rows)
    insertFileChunks ext tableUuid transactionId fileUuid
      (start + chunk.length) rest

/- The operation `AppendFiles`. -/
def appendFiles
    (ext : External)
    (tableUuid : Uuid)
    (transactionId : TxnId)
    (fileUuid : Nat → Uuid)
    (files : List FileSpec) : CatalogTx Unit :=
  if asU32 files.length > maxFilesPerAppend then
    Tx.fail (.returned (.limitExceeded
      (s!"cannot append {files.length} files, exceeds " ++
        s!"limit of {maxFilesPerAppend}")))
  else
    insertFileChunks ext tableUuid transactionId fileUuid 0
      (chunks batchInsertFilesChunk files)

------------------------------------------------------------
-- Deleting Files
------------------------------------------------------------

/- The loop over the chunks of file UUIDs. -/
def markFileChunks
    (tableUuid : Uuid)
    (transactionId : TxnId) :
    List (List Uuid) → CatalogTx Unit
| [] => pure ()
| chunk :: rest => do
    Tx.execute
      (.markFilesRemoved transactionId tableUuid chunk)
    markFileChunks tableUuid transactionId rest

/- The operation `DeleteFiles`. -/
def deleteFiles
    (tableUuid : Uuid)
    (transactionId : TxnId)
    (fileUuids : List Uuid) : CatalogTx Unit :=
  if asU32 fileUuids.length > maxFilesPerDelete then
    Tx.fail (.returned (.limitExceeded
      (s!"cannot delete {fileUuids.length} files, " ++
        s!"exceeds limit of {maxFilesPerDelete}")))
  else
    markFileChunks tableUuid transactionId
      (chunks batchDeleteFilesChunk fileUuids)

------------------------------------------------------------
-- Updating the Schema
------------------------------------------------------------

/- The type and nullability of columns, by name. -/
abbrev ColumnMap :=
  AList fun _ : String => DataType × Bool

/- The map of the stored columns, row by row. -/
def currentColumns
    (ext : External)
    (columns : ColumnMap) :
    List ColumnRow → Result ColumnMap
| [] => .ok columns
| row :: rest => do
    let columnType ← decodeDataType ext row.columnType
    currentColumns ext
      (columns.insert row.columnName
        (columnType, row.isNullable))
      rest

/- No existing column is missing from the new names. -/
def checkNoneDropped
    (newNames : List String) : List String → Result Unit
| [] => .ok ()
| existing :: rest =>
    if existing ∈ newNames then
      checkNoneDropped newNames rest
    else
      fault (.invalidArgument
        (s!"cannot drop existing column '{existing}' " ++
          "via UpdateSchema"))

/- The evolution of one column against the current ones. -/
def checkColumnEvolution
    (ext : External)
    (columns : ColumnMap)
    (newColumn : ColumnSpec) : Result Unit :=
  match columns.lookup newColumn.name with
  -- a new column is always allowed
  | none => .ok ()
  | some (oldType, oldNullable) =>
      if ¬ canEvolveTo oldType newColumn.columnType then
        fault (.invalidArgument
          ("invalid schema evolution for column " ++
            s!"'{newColumn.name}': cannot evolve " ++
            s!"{ext.debugDataType oldType} to " ++
            ext.debugDataType newColumn.columnType))
      else if oldNullable ∧ ¬ newColumn.isNullable then
        fault (.invalidArgument
          ("invalid schema evolution for column " ++
            s!"'{newColumn.name}': cannot change from " ++
            "nullable to non-nullable (existing nulls " ++
            "would violate constraint)"))
      else .ok ()

/- The evolution of every column of the new schema. -/
def checkEvolution
    (ext : External)
    (columns : ColumnMap) : List ColumnSpec → Result Unit
| [] => .ok ()
| newColumn :: rest => do
    checkColumnEvolution ext columns newColumn
    checkEvolution ext columns rest

/- The whole validation against the stored columns. -/
def checkAgainstCurrent
    (ext : External)
    (rows : List ColumnRow)
    (spec : SchemaSpec) : Result Unit := do
  let columns ← currentColumns ext ∅ rows
  checkNoneDropped (spec.columns.map ColumnSpec.name)
    columns.keys
  checkEvolution ext columns spec.columns

/- What one commit knows of its table and draws. -/
structure CommitContext where
  ext : External
  kind : DbKind
  draws : Draws
  tableUuid : Uuid
  currentSchemaUuid : Option Uuid

/- The first schema row with a UUID; there must be one. -/
def fetchSchemaVersion
    (schemaUuid : Uuid)
    (db : Database) : Result Int :=
  match db.schemas.find? fun row =>
      row.schemaUuid = schemaUuid with
  | some row => .ok row.schemaVersion
  | none => fault (.storage .rowNotFound)

/- The operation `UpdateSchema`; returns the new schema. -/
def updateSchema
    (ctx : CommitContext)
    (op : Nat)
    (spec : SchemaSpec) : CatalogTx Uuid := do
  Tx.lift spec.validate
  match ctx.currentSchemaUuid with
  | none =>
      Tx.fail (.returned (.invalidArgument
        "cannot update schema without a current schema"))
  | some currentSchemaUuid => do
      let fetched ← Tx.select
        (fetchSchemaVersion currentSchemaUuid)
      let currentSchemaVersion ← Tx.lift fetched
      let rows ← Tx.select fun db =>
        db.columnsOf currentSchemaUuid
      Tx.lift (checkAgainstCurrent ctx.ext rows spec)
      Tx.execute (.insertSchema
        { schemaUuid := ctx.draws.schemaUuid op
          tableUuid := ctx.tableUuid
          schemaVersion := asI32 (currentSchemaVersion + 1)
          validFromTransactionId := ctx.draws.transactionId
          validToTransactionId := none
          createdAt := ctx.draws.now })
      Tx.execute (.closeSchema ctx.draws.transactionId
        currentSchemaUuid)
      insertColumns ctx.ext ctx.kind
        (ctx.draws.schemaUuid op) (ctx.draws.columnUuid op)
        spec.columns
      pure (ctx.draws.schemaUuid op)

------------------------------------------------------------
-- The Operations in Order
------------------------------------------------------------

/- The local variables that the loop changes. -/
structure Staging where
  newSchemaUuid : Option Uuid
  properties : TableProperties
  deriving DecidableEq

/- Remove the keys, in order. -/
def removeKeys
    (properties : TableProperties)
    (keys : List PropertyKey) : TableProperties :=
  keys.foldl (fun p k => p.remove k.key) properties

/- One operation of the mutation. -/
def stageOperation
    (ctx : CommitContext)
    (op : Nat)
    (staging : Staging) :
    MutationOp → CatalogTx Staging
| .appendFiles files => do
    appendFiles ctx.ext ctx.tableUuid
      ctx.draws.transactionId (ctx.draws.fileUuid op) files
    pure staging
| .deleteFiles fileUuids => do
    deleteFiles ctx.tableUuid ctx.draws.transactionId
      fileUuids
    pure staging
| .updateSchema spec => do
    let schemaUuid ← updateSchema ctx op spec
    pure { staging with newSchemaUuid := some schemaUuid }
| .setProperties properties =>
    pure { staging with properties := properties }
| .removeProperties keys =>
    if keys.isEmpty then pure staging
    else if
        asU32 keys.length > maxPropertyKeysToRemove then
      Tx.fail (.returned (.limitExceeded
        (s!"cannot remove {keys.length} property keys, " ++
          s!"exceeds limit of {maxPropertyKeysToRemove}")))
    else
      pure
        { staging with
          properties := removeKeys staging.properties keys }

/- The loop over the operations, numbered from `op`. -/
def stageOperations
    (ctx : CommitContext)
    (op : Nat)
    (staging : Staging) :
    List MutationOp → CatalogTx Staging
| [] => pure staging
| operation :: rest => do
    let staging' ← stageOperation ctx op staging operation
    stageOperations ctx (op + 1) staging' rest

------------------------------------------------------------
-- Commit
------------------------------------------------------------

/- The lock that reading the table row takes. -/
def headerLock
    (kind : DbKind)
    (ident : TableIdent)
    (db : Database) : Option Lock :=
  match kind with
  | .sqlite => none
  | .postgres =>
      (db.findTable ident).map fun row =>
        .tableRow row.tableUuid

/- The base must be the current transaction. -/
def checkBase
    (base : TxnId) : Option TxnId → Result TxnId
| none =>
    fault (.invalidArgument
      "table has no current transaction")
| some current =>
    if current ≠ base then
      fault (.conflict
        (s!"base transaction {hyphenated base} does not " ++
          s!"match current {hyphenated current}"))
    else .ok current

/- All writes of a commit whose checks have passed. -/
def stageCommit
    (ctx : CommitContext)
    (current : TxnId)
    (properties : TableProperties)
    (mutation : Mutation) : CatalogTx CommitResult := do
  Tx.execute (.insertTransaction
    { transactionId := ctx.draws.transactionId
      tableUuid := ctx.tableUuid
      transactionTimestamp := ctx.draws.now
      parentTransactionId := some current })
  let staging ←
    stageOperations ctx 0
      ⟨ctx.currentSchemaUuid, properties⟩
      mutation.operations
  let propertiesText ← Tx.lift
    (serializeJson ctx.ext staging.properties.toJson)
  Tx.execute (.advanceTableHead ctx.draws.transactionId
    (staging.newSchemaUuid.or ctx.currentSchemaUuid)
    propertiesText ctx.tableUuid)
  pure ⟨ctx.draws.transactionId⟩

/- The commit after its table row has been read. -/
def commitToRow
    (ext : External)
    (catalog : SqlCatalog)
    (ident : TableIdent)
    (base : TxnId)
    (mutation : Mutation)
    (draws : Draws) :
    Option TableRow → CatalogTx CommitResult
| none => Tx.fail (.returned (.notFound ident.toText))
| some row => do
    let properties ←
      Tx.lift (parseTableProperties ext row.properties)
    Tx.lift (catalog.ensureWriterProtocolCompatible ident
      row.minWriterVersion)
    let current ←
      Tx.lift (checkBase base row.currentTransactionId)
    stageCommit
      { ext := ext
        kind := catalog.kind
        draws := draws
        tableUuid := row.tableUuid
        currentSchemaUuid := row.currentSchemaUuid }
      current properties mutation

/- The transaction that commits a mutation. -/
def commitTx
    (ext : External)
    (catalog : SqlCatalog)
    (ident : TableIdent)
    (base : TxnId)
    (mutation : Mutation)
    (draws : Draws) : CatalogTx CommitResult := do
  Tx.lift (precheck mutation)
  beginTransaction catalog.kind
  let row ← Tx.selectForUpdate
    (headerLock catalog.kind ident)
    fun db => db.findTable ident
  commitToRow ext catalog ident base mutation draws row

/- Commit a mutation. -/
def commit
    (ext : External)
    (catalog : SqlCatalog)
    (ident : TableIdent)
    (base : TxnId)
    (mutation : Mutation)
    (draws : Draws)
    (db : Database) : Result CommitResult × Database :=
  runTransaction db
    (commitTx ext catalog ident base mutation draws)

end Planar
