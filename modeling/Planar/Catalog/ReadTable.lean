import Mathlib.Data.List.Sort
import Planar.Catalog.Views
import Planar.Foundations.Query

/-
  Reading a table snapshot at a transaction.

  Main declarations:
    * `CatalogQuery`
    * `walkHistory`
    * `fetchColumns`
    * `readTable`
-/

------------------------------------------------------------
-- The Walk Over the History
------------------------------------------------------------

namespace Planar

abbrev CatalogQuery (α : Type) := Query Database Fault α

/- The head of a table, which a created table has. -/
def requireHead : Option TxnId → Result TxnId
| some current => .ok current
| none =>
    fault (.invalidArgument
      "table has no current transaction")

theorem requireHead_ok
    {head : Option TxnId}
    {current : TxnId} :
    requireHead head = .ok current ↔
      head = some current := by
  cases head <;> simp [requireHead, fault]

/-
  Walk the parents from the cursor until the target is found
  or a root is passed.  A loop of distinct ids ends before
  the fuel does when the fuel exceeds the number of ids.
-/
def walkHistory
    (tableUuid : Uuid)
    (target : TxnId) :
    Nat → List TxnId → TxnId → CatalogQuery Bool
| 0, _, _ =>
    Query.fail (.returned (.invalidArgument
      "transaction parent chain contains a cycle"))
| fuel + 1, visited, cursor =>
    if cursor ∈ visited then
      Query.fail (.returned (.invalidArgument
        "transaction parent chain contains a cycle"))
    else if cursor = target then pure true
    else do
      let row ← Query.fetch fun db =>
        db.findTransaction tableUuid cursor
      match row with
      | none =>
          Query.fail (.returned (.invalidArgument
            "table transaction chain is broken"))
      | some row =>
          match row.parentTransactionId with
          | none => pure false
          | some parent =>
              walkHistory tableUuid target fuel
                (cursor :: visited) parent

/- One more than the number of transaction ids. -/
def walkFuel : Nat := 2 ^ 128 + 1

/- The requested transaction is the head or before it. -/
def checkInHistory
    (tableUuid : Uuid)
    (current target : TxnId) : CatalogQuery Unit :=
  if target = current then pure ()
  else do
    let found ←
      walkHistory tableUuid target walkFuel [] current
    if found then pure ()
    else
      Query.fail (.returned (.invalidArgument
        "requested transaction is not in table history"))

------------------------------------------------------------
-- Snapshot Queries
------------------------------------------------------------

/-
  The condition `valid_from <= ? AND (valid_to IS NULL OR
  valid_to > ?)`.
-/
def SchemaRow.isValidAt
    (transactionId : TxnId)
    (row : SchemaRow) : Bool :=
  row.validFromTransactionId ≤ transactionId &&
    match row.validToTransactionId with
    | none => true
    | some validTo => transactionId < validTo

/-
  The condition `added_in <= ? AND (removed_in IS NULL OR
  removed_in > ?)`.
-/
def FileRow.isVisibleAt
    (transactionId : TxnId)
    (row : FileRow) : Bool :=
  row.addedInTransactionId ≤ transactionId &&
    match row.removedInTransactionId with
    | none => true
    | some removedIn => transactionId < removedIn

/- The columns of a schema in their order, up to a limit. -/
def selectColumns
    (schemaUuid : Uuid)
    (db : Database) : List ColumnRow :=
  ((db.columnsOf schemaUuid).insertionSort fun a b =>
      a.ordinalPosition ≤ b.ordinalPosition).take
    (maxColumnsPerSchema + 1)

/- Fetch and decode columns; `what` names them in errors. -/
def fetchColumns
    (ext : External)
    (what : String)
    (schemaUuid : Uuid) : CatalogQuery (List Column) := do
  let rows ← Query.fetch (selectColumns schemaUuid)
  if rows.length > maxColumnsPerSchema then
    Query.fail (.returned (.limitExceeded
      s!"{what} exceeds limit of {maxColumnsPerSchema}"))
  else
    Query.lift (decodeColumns ext rows)

/- The row that a read takes of the schemas then valid. -/
def selectSchema
    (ext : External)
    (tableUuid : Uuid)
    (transactionId : TxnId)
    (db : Database) : Option SchemaRow :=
  ext.orders.validSchemas.first
    ((db.schemasOf tableUuid).filter
      (SchemaRow.isValidAt transactionId))

theorem mem_selectSchema
    {ext : External}
    {tableUuid : Uuid}
    {transactionId : TxnId}
    {db : Database}
    {row : SchemaRow}
    (hSelect :
      selectSchema ext tableUuid transactionId db =
        some row) :
    row ∈ db.schemasOf tableUuid ∧
      row.isValidAt transactionId = true :=
  List.mem_filter.mp (RowOrder.mem_first hSelect)

/- The schema in force at a transaction. -/
def fetchSchema
    (ext : External)
    (kind : DbKind)
    (ident : TableIdent)
    (tableUuid : Uuid)
    (transactionId : TxnId) : CatalogQuery Schema := do
  let schemaRow ← Query.fetch
    (selectSchema ext tableUuid transactionId)
  match schemaRow with
  | none =>
      Query.fail (.returned (.notFound
        (s!"no schema for {ident.toText} at transaction " ++
          hyphenated transactionId)))
  | some schemaRow => do
      let columns ←
        fetchColumns ext "column count" schemaRow.schemaUuid
      Query.lift (decodeSchema kind schemaRow columns)

/- The rows of the files visible at a transaction. -/
def selectVisible
    (ext : External)
    (tableUuid : Uuid)
    (transactionId : TxnId)
    (db : Database) : List FileRow :=
  (ext.orders.visibleFiles.arrange
    ((db.filesOf tableUuid).filter
      (FileRow.isVisibleAt transactionId))).take
        (maxFilesPerQuery + 1)

/- The files visible at a transaction. -/
def fetchFiles
    (ext : External)
    (tableUuid : Uuid)
    (transactionId : TxnId) : CatalogQuery (List File) := do
  let rows ← Query.fetch
    (selectVisible ext tableUuid transactionId)
  if rows.length > maxFilesPerQuery then
    Query.fail (.returned (.limitExceeded
      s!"file count exceeds limit of {maxFilesPerQuery}"))
  else
    Query.lift (decodeFiles ext rows)

/- The statistics row of a transaction, if there is one. -/
def fetchStats
    (kind : DbKind)
    (tableUuid : Uuid)
    (transactionId : TxnId) :
    CatalogQuery (Option TableStats) := do
  let row ← Query.fetch fun db =>
    db.tableStats.find? fun row =>
      row.tableUuid = tableUuid &&
        row.transactionId = transactionId
  Query.lift (decodeTableStats kind row)

------------------------------------------------------------
-- Reading a Table
------------------------------------------------------------

/- The part of the read after the table row. -/
def readRow
    (ext : External)
    (catalog : SqlCatalog)
    (ident : TableIdent)
    (atTransactionId : Option TxnId)
    (row : TableRow) : CatalogQuery TableView := do
  let properties ←
    Query.lift (parseTableProperties ext row.properties)
  Query.lift (catalog.ensureReaderProtocolCompatible ident
    row.minReaderVersion)
  let current ←
    Query.lift (requireHead row.currentTransactionId)
  let effective := atTransactionId.getD current
  checkInHistory row.tableUuid current effective
  let schema ←
    fetchSchema ext catalog.kind ident row.tableUuid
      effective
  let files ← fetchFiles ext row.tableUuid effective
  let stats ←
    fetchStats catalog.kind row.tableUuid effective
  pure
    { ident := ident
      tableUuid := row.tableUuid
      transactionId := effective
      schema := schema
      files := files
      properties := properties
      stats := stats }

/- Read a snapshot at a transaction, or the current one. -/
def readTable
    (ext : External)
    (catalog : SqlCatalog)
    (ident : TableIdent)
    (atTransactionId : Option TxnId) :
    CatalogQuery TableView := do
  let row ← Query.fetch fun db => db.findTable ident
  match row with
  | none => Query.fail (.returned (.notFound ident.toText))
  | some row =>
      readRow ext catalog ident atTransactionId row

end Planar
