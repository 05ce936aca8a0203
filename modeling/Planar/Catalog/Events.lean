import Planar.Catalog.CreateTable
import Planar.Catalog.ReadTable

/-
  Listing the events of a range of transactions.

  Main declarations:
    * `collectPath`, `transactionPath`
    * `fileChanges`, `schemaChange`
    * `readEvents`
    * `listTransactionEvents`
-/

------------------------------------------------------------
-- The Path of Transactions
------------------------------------------------------------

namespace Planar

/-
  Walk the parents from the cursor, collecting the ids with
  the oldest first, until the parent is the lower boundary
  or there is none.  The first number is how many more ids
  the scan may take.
-/
def collectPath
    (tableUuid : Uuid)
    (fromExclusive : Option TxnId) :
    Nat → List TxnId → TxnId →
      CatalogQuery (List TxnId × Bool)
| remaining, path, cursor =>
    if cursor ∈ path then
      Query.fail (.returned (.invalidArgument
        "transaction parent chain contains a cycle"))
    else do
      let row ← Query.fetch fun db =>
        db.findTransaction tableUuid cursor
      match row with
      | none =>
          Query.fail (.returned (.invalidArgument
            "requested transaction does not exist for table"))
      | some row =>
          match remaining with
          | 0 =>
              Query.fail (.returned (.limitExceeded
                ("transaction scan exceeds limit of " ++
                  s!"{maxTransactionsPerScan}")))
          | remaining + 1 =>
              match row.parentTransactionId with
              | none =>
                  pure (cursor :: path,
                    fromExclusive.isNone)
              | some parent =>
                  if some parent = fromExclusive then
                    pure (cursor :: path, true)
                  else
                    collectPath tableUuid fromExclusive
                      remaining (cursor :: path) parent

/- The end of the range, when not the head, has a row. -/
def checkEndExists
    (kind : DbKind)
    (tableUuid : Uuid)
    (current toInclusive : TxnId) : CatalogQuery Unit :=
  if current = toInclusive then pure ()
  else do
    let found ← Query.fetch fun db =>
      (db.findTransaction tableUuid toInclusive).isSome
    let rowExists ← Query.lift (decodeSelectOne kind found)
    if rowExists then pure ()
    else
      Query.fail (.returned (.invalidArgument
        "requested transaction does not exist for table"))

/- The ids of the range, oldest first. -/
def transactionPath
    (tableUuid : Uuid)
    (cursor : TxnRangeCursor) :
    CatalogQuery (List TxnId) := do
  let (path, reachedFromBoundary) ←
    collectPath tableUuid cursor.fromExclusive
      maxTransactionsPerScan [] cursor.toInclusive
  if reachedFromBoundary then pure path
  else
    Query.fail (.returned (.invalidArgument
      "from transaction is not an ancestor of to transaction"))

------------------------------------------------------------
-- The Changes of One Transaction
------------------------------------------------------------

/- The word for a kind of change in the limit errors. -/
def TxnFileChangeKind.word : TxnFileChangeKind → String
| .added => "added"
| .removed => "removed"

/- The transaction that a file row names for a change. -/
def TxnFileChangeKind.stampOf
    (row : FileRow) : TxnFileChangeKind → Result TxnId
| .added => .ok row.addedInTransactionId
| .removed =>
    match row.removedInTransactionId with
    | some removedIn => .ok removedIn
    | none =>
        fault (.invalidArgument
          "missing removed transaction id")

/-
  The changes of the fetched rows.  The counter runs over
  the whole scan; the result has its new value.
-/
def fileChanges
    (ext : External)
    (kind : TxnFileChangeKind)
    (count : Nat) :
    List FileRow → Result (List TxnFileChange × Nat)
| [] => .ok ([], count)
| row :: rest =>
    if count + 1 > maxFilesPerQuery then
      fault (.limitExceeded
        (s!"{kind.word} file events exceed limit of " ++
          s!"{maxFilesPerQuery}"))
    else do
      let transactionId ← kind.stampOf row
      let file ← decodeFile ext row
      let (changes, count') ←
        fileChanges ext kind (count + 1) rest
      pure (⟨transactionId, kind, file⟩ :: changes, count')

/- The order of the rows of one kind of change. -/
def RowOrders.changedFiles
    (orders : RowOrders) :
    TxnFileChangeKind → RowOrder FileRow
| .added => orders.addedFiles
| .removed => orders.removedFiles

/- The rows that a transaction added or removed. -/
def selectChanged
    (ext : External)
    (kind : TxnFileChangeKind)
    (tableUuid : Uuid)
    (transactionId : TxnId)
    (db : Database) : List FileRow :=
  ((ext.orders.changedFiles kind).arrange
    ((db.filesOf tableUuid).filter fun row =>
      match kind with
      | .added => row.addedInTransactionId = transactionId
      | .removed =>
          row.removedInTransactionId =
            some transactionId)).take
              (maxFilesPerQuery + 1)

/-
  The schema rows that a transaction made valid.  Two of
  them are an error, so their order is of no account.
-/
def selectSchemas
    (tableUuid : Uuid)
    (transactionId : TxnId)
    (db : Database) : List SchemaRow :=
  ((db.schemasOf tableUuid).filter fun row =>
    row.validFromTransactionId = transactionId).take 2

/- The schema change of a transaction, if it has one. -/
def schemaChange
    (ext : External)
    (kind : DbKind)
    (count : Nat) :
    List SchemaRow →
      CatalogQuery (Option TxnSchemaChange × Nat)
| [] => pure (none, count)
| [schemaRow] =>
    if count + 1 > maxSchemaChangesPerScan then
      Query.fail (.returned (.limitExceeded
        ("schema change events exceed limit of " ++
          s!"{maxSchemaChangesPerScan}")))
    else do
      let columns ←
        fetchColumns ext "schema change column count"
          schemaRow.schemaUuid
      let schema ←
        Query.lift (decodeSchema kind schemaRow columns)
      pure (some ⟨schemaRow.validFromTransactionId, schema⟩,
        count + 1)
| _ =>
    Query.fail (.returned (.invalidArgument
      "multiple schemas found for the same transaction"))

------------------------------------------------------------
-- The Event Log
------------------------------------------------------------

/- The three counters of a scan. -/
structure EventCounts where
  added : Nat := 0
  removed : Nat := 0
  schemaChanges : Nat := 0
  deriving DecidableEq

/- The event of one transaction. -/
def readEvent
    (ext : External)
    (kind : DbKind)
    (tableUuid : Uuid)
    (counts : EventCounts)
    (transactionId : TxnId) :
    CatalogQuery (TxnEvent × EventCounts) := do
  let addedRows ← Query.fetch
    (selectChanged ext .added tableUuid transactionId)
  let (addedChanges, added) ← Query.lift
    (fileChanges ext .added counts.added addedRows)
  let removedRows ← Query.fetch
    (selectChanged ext .removed tableUuid transactionId)
  let (removedChanges, removed) ← Query.lift
    (fileChanges ext .removed counts.removed removedRows)
  let schemaRows ← Query.fetch
    (selectSchemas tableUuid transactionId)
  let (change, schemaChanges) ←
    schemaChange ext kind counts.schemaChanges schemaRows
  pure
    ({ transactionId := transactionId
       fileChanges := addedChanges ++ removedChanges
       schemaChange := change },
      ⟨added, removed, schemaChanges⟩)

/- The loop over the transactions of the range. -/
def readEvents
    (ext : External)
    (kind : DbKind)
    (tableUuid : Uuid)
    (counts : EventCounts) :
    List TxnId → CatalogQuery (List TxnEvent)
| [] => pure []
| transactionId :: rest => do
    let (event, counts') ←
      readEvent ext kind tableUuid counts transactionId
    let events ← readEvents ext kind tableUuid counts' rest
    pure (event :: events)

/- List the transaction events of a bounded range. -/
def listTransactionEvents
    (ext : External)
    (catalog : SqlCatalog)
    (ident : TableIdent)
    (cursor : TxnRangeCursor) :
    CatalogQuery (List TxnEvent) := do
  let row ← Query.fetch fun db => db.findTable ident
  match row with
  | none => Query.fail (.returned (.notFound ident.toText))
  | some row => do
      let current ←
        Query.lift (requireHead row.currentTransactionId)
      checkEndExists catalog.kind row.tableUuid current
        cursor.toInclusive
      let path ← transactionPath row.tableUuid cursor
      readEvents ext catalog.kind row.tableUuid {} path

end Planar
