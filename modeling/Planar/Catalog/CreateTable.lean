import Planar.Catalog.Helpers
import Planar.Database.Statements
import Planar.Foundations.Lists

/-
  Creating a table.

  Main declarations:
    * `Lock`, `CatalogTx`, `beginTransaction`
    * `insertColumns`
    * `createTableTx`, `createTable`
-/

------------------------------------------------------------
-- Catalog Transactions
------------------------------------------------------------

namespace Planar

/- A lock on the database, or on one row of `tables`. -/
inductive Lock where
  | database
  | tableRow (tableUuid : Uuid)
  deriving DecidableEq

abbrev CatalogTx (α : Type) :=
  Tx Database Statement Lock Fault α

/-
  Begin a writing transaction.  SQLite takes its write lock
  at once; PostgreSQL locks only what a query names.
-/
def beginTransaction : DbKind → CatalogTx Unit
| .sqlite => Tx.lockAll .database
| .postgres => pure ()

/-
  Run a transaction against the database: a success commits
  all its rows, any failure rolls them back.
-/
def runTransaction
    {α : Type}
    (db : Database)
    (tx : CatalogTx α) : Result α × Database :=
  match tx.exec sqlStore db with
  | .ok (a, db') => (.ok a, db')
  | .error e => (.error e, db)

theorem runTransaction_ok
    {α : Type}
    {db db' : Database}
    {tx : CatalogTx α}
    {a : α} :
    runTransaction db tx = (.ok a, db') ↔
      tx.exec sqlStore db = .ok (a, db') := by
  unfold runTransaction
  cases hExec : tx.exec sqlStore db with
  | ok r => simp [Prod.ext_iff]
  | error e => simp

/- A failed transaction leaves the database as it was. -/
theorem runTransaction_error
    {α : Type}
    {db db' : Database}
    {tx : CatalogTx α}
    {e : Fault}
    (hError : runTransaction db tx = (.error e, db')) :
    db' = db := by
  unfold runTransaction at hError
  cases hExec : tx.exec sqlStore db with
  | ok r => simp [hExec] at hError
  | error e =>
      simp only [hExec, Prod.mk.injEq] at hError
      exact hError.2.symm

/-
  Decode the literal of `SELECT 1` as `i64`.  In PostgreSQL
  it is an `INT4`, which does not decode.
-/
def decodeSelectOne
    (kind : DbKind)
    (found : Bool) : Result Bool :=
  match kind, found with
  | .sqlite, found => .ok found
  | .postgres, false => .ok false
  | .postgres, true => fault (.storage (.columnDecode "0"))

------------------------------------------------------------
-- Inserting Columns
------------------------------------------------------------

/- The rows of one chunk of columns. -/
def columnRows
    (ext : External)
    (schemaUuid : Uuid)
    (columnUuid : Nat → Uuid)
    (start : Nat)
    (chunk : List ColumnSpec) : List ColumnRow :=
  chunk.mapIdx fun i column =>
    { columnUuid := columnUuid (start + i)
      schemaUuid := schemaUuid
      columnName := column.name
      columnType := encodeDataType ext column.columnType
      ordinalPosition := asI32 ((start + i + 1 : Nat) : Int)
      isNullable := column.isNullable }

/- The loop over the chunks, with the chunk's index. -/
def insertColumnChunks
    (ext : External)
    (schemaUuid : Uuid)
    (columnUuid : Nat → Uuid)
    (chunkSize chunkIndex : Nat) :
    List (List ColumnSpec) → CatalogTx Unit
| [] => pure ()
| chunk :: rest => do
    Tx.execute (.insertColumns
      (columnRows ext schemaUuid columnUuid
        (chunkIndex * chunkSize) chunk))
    insertColumnChunks ext schemaUuid columnUuid chunkSize
      (chunkIndex + 1) rest

/- Insert the columns of a schema, chunk by chunk. -/
def insertColumns
    (ext : External)
    (kind : DbKind)
    (schemaUuid : Uuid)
    (columnUuid : Nat → Uuid)
    (columns : List ColumnSpec) : CatalogTx Unit :=
  let colChunkSize := batchInsertColumnsChunk kind
  insertColumnChunks ext schemaUuid columnUuid
    colChunkSize 0 (chunks colChunkSize columns)

------------------------------------------------------------
-- Creating a Table
------------------------------------------------------------

def initialSchemaVersion : Int := 1

/- The row of a new table, before it has a head. -/
def newTableRow
    (catalog : SqlCatalog)
    (ident : TableIdent)
    (location propertiesText : String)
    (draws : Draws) : TableRow :=
  { tableUuid := draws.tableUuid
    tableName := ident.name
    tableNamespace := ident.tableNamespace
    location := location
    currentSchemaUuid := none
    currentTransactionId := none
    createdAt := draws.now
    properties := some propertiesText
    minReaderVersion := catalog.readerVersion
    minWriterVersion := catalog.writerVersion }

/- The inserts of a new table and the setting of its head. -/
def insertNewTable
    (ext : External)
    (catalog : SqlCatalog)
    (ident : TableIdent)
    (location propertiesText : String)
    (schema : SchemaSpec)
    (draws : Draws) : CatalogTx Unit := do
  Tx.execute (.insertTable
    (newTableRow catalog ident location propertiesText
      draws))
  Tx.execute (.insertTransaction
    { transactionId := draws.transactionId
      tableUuid := draws.tableUuid
      transactionTimestamp := draws.now
      parentTransactionId := none })
  Tx.execute (.insertSchema
    { schemaUuid := draws.schemaUuid 0
      tableUuid := draws.tableUuid
      schemaVersion := initialSchemaVersion
      validFromTransactionId := draws.transactionId
      validToTransactionId := none
      createdAt := draws.now })
  insertColumns ext catalog.kind (draws.schemaUuid 0)
    (draws.columnUuid 0) schema.columns
  Tx.execute (.initTableHead (draws.schemaUuid 0)
    draws.transactionId draws.tableUuid)

/- The transaction that creates a table. -/
def createTableTx
    (ext : External)
    (catalog : SqlCatalog)
    (ident : TableIdent)
    (location : String)
    (schema : SchemaSpec)
    (properties : Option TableProperties)
    (draws : Draws) : CatalogTx Unit := do
  Tx.lift schema.validate
  beginTransaction catalog.kind
  let found ← Tx.select fun db =>
    (db.findTable ident).isSome
  let tableExists ←
    Tx.lift (decodeSelectOne catalog.kind found)
  if tableExists then
    Tx.fail (.returned (.conflict
      s!"table already exists: {ident.toText}"))
  else
    let propertiesValue := properties.getD {}
    let propertiesText ←
      Tx.lift (serializeJson ext propertiesValue.toJson)
    insertNewTable ext catalog ident location
      propertiesText schema draws

/- Create a table. -/
def createTable
    (ext : External)
    (catalog : SqlCatalog)
    (ident : TableIdent)
    (location : String)
    (schema : SchemaSpec)
    (properties : Option TableProperties)
    (draws : Draws)
    (db : Database) : Result Unit × Database :=
  runTransaction db
    (createTableTx ext catalog ident location schema
      properties draws)

end Planar
