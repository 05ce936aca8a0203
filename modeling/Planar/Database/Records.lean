import Planar.Foundations.RowOrders
import Planar.Values.Scalars

/-
  The rows of the catalog database, and the orders in which
  the database returns them.

  Main declarations:
    * the rows, such as `TableRow` and `FileRow`
    * `RowOrders`
-/

------------------------------------------------------------
-- Rows
------------------------------------------------------------

namespace Planar

/- A row of `tables`. -/
structure TableRow where
  tableUuid : Uuid
  tableName : String
  tableNamespace : String
  location : String
  currentSchemaUuid : Option Uuid
  currentTransactionId : Option TxnId
  createdAt : Timestamp
  properties : Option String
  minReaderVersion : Int
  minWriterVersion : Int
  deriving DecidableEq

/- A row of `transactions`. -/
structure TransactionRow where
  transactionId : TxnId
  tableUuid : Uuid
  transactionTimestamp : Timestamp
  parentTransactionId : Option TxnId
  deriving DecidableEq

/- A row of `schemas`. -/
structure SchemaRow where
  schemaUuid : Uuid
  tableUuid : Uuid
  schemaVersion : Int
  validFromTransactionId : TxnId
  validToTransactionId : Option TxnId
  createdAt : Timestamp
  deriving DecidableEq

/- A row of `columns`; the type is its encoded form. -/
structure ColumnRow where
  columnUuid : Uuid
  schemaUuid : Uuid
  columnName : String
  columnType : List UInt8
  ordinalPosition : Int
  isNullable : Bool
  deriving DecidableEq

/- A row of `files`; the JSON values are texts. -/
structure FileRow where
  fileUuid : Uuid
  tableUuid : Uuid
  fileFormat : String
  filePath : String
  recordCount : Int64
  fileSizeBytes : Int64
  addedInTransactionId : TxnId
  removedInTransactionId : Option TxnId
  partitionValues : Option String
  formatOptions : Option String
  deriving DecidableEq

/- A row of `table_stats`. -/
structure TableStatsRow where
  tableUuid : Uuid
  transactionId : TxnId
  recordCount : Int64
  fileSizeBytes : Int64
  fileCount : Int
  lastUpdated : Timestamp
  deriving DecidableEq

------------------------------------------------------------
-- Orders of Rows
------------------------------------------------------------

/-
  The orders of the queries without `ORDER BY` that may
  match several rows.  They are up to the database: SQLite
  goes by the index that its planner picks.
-/
structure RowOrders where
  tables : RowOrder TableRow
  validSchemas : RowOrder SchemaRow
  visibleFiles : RowOrder FileRow
  addedFiles : RowOrder FileRow
  removedFiles : RowOrder FileRow

/- Every query returns the rows as they were inserted. -/
def RowOrders.stored : RowOrders where
  tables := .stored
  validSchemas := .stored
  visibleFiles := .stored
  addedFiles := .stored
  removedFiles := .stored

end Planar
