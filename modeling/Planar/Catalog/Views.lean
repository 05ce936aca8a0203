import Planar.Catalog.Helpers
import Planar.Database.Rows

/-
  What the reading calls of the catalog return, and how rows
  are decoded into it.

  Main declarations:
    * `Column`, `Schema`, `File`, `TableStats`
    * `TableView`, `TableDelta`
    * `TxnRangeCursor`, `TxnEvent`
    * `decodeColumn`, `decodeSchema`, `decodeFile`
-/

------------------------------------------------------------
-- Returned Records
------------------------------------------------------------

namespace Planar

/- Column definition. -/
structure Column where
  columnUuid : Uuid
  schemaUuid : Uuid
  columnName : String
  columnType : DataType
  ordinalPosition : Int
  isNullable : Bool
  deriving DecidableEq

/- Schema version with columns. -/
structure Schema where
  schemaUuid : Uuid
  tableUuid : Uuid
  schemaVersion : Int
  validFromTransactionId : TxnId
  validToTransactionId : Option TxnId
  createdAt : Timestamp
  columns : List Column
  deriving DecidableEq

/- File metadata. -/
structure File where
  fileUuid : Uuid
  tableUuid : Uuid
  fileFormat : String
  filePath : String
  recordCount : Int64
  fileSizeBytes : Int64
  addedInTransactionId : TxnId
  removedInTransactionId : Option TxnId
  partitionValues : Option Json
  formatOptions : Option Json
  deriving DecidableEq

/- Table statistics at a transaction. -/
structure TableStats where
  tableUuid : Uuid
  transactionId : TxnId
  recordCount : Int64
  fileSizeBytes : Int64
  fileCount : Int
  lastUpdated : Timestamp
  deriving DecidableEq

/- Immutable table snapshot at a specific transaction. -/
structure TableView where
  ident : TableIdent
  tableUuid : Uuid
  transactionId : TxnId
  schema : Schema
  files : List File
  properties : TableProperties
  stats : Option TableStats
  deriving DecidableEq

/- Difference between two table snapshots. -/
structure TableDelta where
  fromTransactionId : TxnId
  toTransactionId : TxnId
  addedFiles : List File
  removedFiles : List File
  newSchema : Option Schema
  newProperties : Option TableProperties
  deriving DecidableEq

/- Ordered transaction range selection for event scans. -/
structure TxnRangeCursor where
  fromExclusive : Option TxnId
  toInclusive : TxnId
  deriving DecidableEq

/- File-level transaction event kind. -/
inductive TxnFileChangeKind where
  | added
  | removed
  deriving DecidableEq

/- File-level transaction event. -/
structure TxnFileChange where
  transactionId : TxnId
  kind : TxnFileChangeKind
  file : File
  deriving DecidableEq

/- Schema-level transaction event. -/
structure TxnSchemaChange where
  transactionId : TxnId
  schema : Schema
  deriving DecidableEq

/- Event-log record for one transaction. -/
structure TxnEvent where
  transactionId : TxnId
  fileChanges : List TxnFileChange
  schemaChange : Option TxnSchemaChange
  deriving DecidableEq

------------------------------------------------------------
-- Decoding Rows
------------------------------------------------------------

/-
  Decode a `TIMESTAMP` column as a UTC time.  PostgreSQL
  only decodes `TIMESTAMPTZ` columns so.
-/
def decodeTimestamp
    (kind : DbKind)
    (column : String)
    (t : Timestamp) : Result Timestamp :=
  match kind with
  | .sqlite => .ok t
  | .postgres => fault (.storage (.columnDecode column))

def decodeColumn
    (ext : External)
    (row : ColumnRow) : Result Column := do
  let columnType ← decodeDataType ext row.columnType
  pure
    { columnUuid := row.columnUuid
      schemaUuid := row.schemaUuid
      columnName := row.columnName
      columnType := columnType
      ordinalPosition := row.ordinalPosition
      isNullable := row.isNullable }

def decodeColumns
    (ext : External) :
    List ColumnRow → Result (List Column)
| [] => .ok []
| row :: rest => do
    let column ← decodeColumn ext row
    let columns ← decodeColumns ext rest
    pure (column :: columns)

def decodeSchema
    (kind : DbKind)
    (row : SchemaRow)
    (columns : List Column) : Result Schema := do
  let createdAt ←
    decodeTimestamp kind "created_at" row.createdAt
  pure
    { schemaUuid := row.schemaUuid
      tableUuid := row.tableUuid
      schemaVersion := row.schemaVersion
      validFromTransactionId := row.validFromTransactionId
      validToTransactionId := row.validToTransactionId
      createdAt := createdAt
      columns := columns }

def decodeFile
    (ext : External)
    (row : FileRow) : Result File := do
  let partitionValues ←
    parseJsonOptional ext row.partitionValues
  let formatOptions ←
    parseJsonOptional ext row.formatOptions
  pure
    { fileUuid := row.fileUuid
      tableUuid := row.tableUuid
      fileFormat := row.fileFormat
      filePath := row.filePath
      recordCount := row.recordCount
      fileSizeBytes := row.fileSizeBytes
      addedInTransactionId := row.addedInTransactionId
      removedInTransactionId := row.removedInTransactionId
      partitionValues := partitionValues
      formatOptions := formatOptions }

def decodeFiles
    (ext : External) : List FileRow → Result (List File)
| [] => .ok []
| row :: rest => do
    let file ← decodeFile ext row
    let files ← decodeFiles ext rest
    pure (file :: files)

def decodeTableStats
    (kind : DbKind) :
    Option TableStatsRow → Result (Option TableStats)
| none => .ok none
| some row => do
    let lastUpdated ←
      decodeTimestamp kind "last_updated" row.lastUpdated
    pure (some
      { tableUuid := row.tableUuid
        transactionId := row.transactionId
        recordCount := row.recordCount
        fileSizeBytes := row.fileSizeBytes
        fileCount := row.fileCount
        lastUpdated := lastUpdated })

end Planar
