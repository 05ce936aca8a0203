import Planar.Catalog.Models
import Planar.Database.Records

/-
  The keys of the rows, and the catalog database.

  Main declarations:
    * `Key`
    * `Database`, `Database.keyList`
    * `Database.findTable`
-/

------------------------------------------------------------
-- Keys
------------------------------------------------------------

namespace Planar

/- The identifier of the table that a row stands for. -/
def TableRow.ident (row : TableRow) : TableIdent :=
  ⟨row.tableNamespace, row.tableName⟩

/-
  A value that a primary key or a uniqueness constraint
  allows in one row only.
-/
inductive Key where
  | table (tableUuid : Uuid)
  | tableIdent (ident : TableIdent)
  | transaction (transactionId : TxnId)
  | schema (schemaUuid : Uuid)
  | column (columnUuid : Uuid)
  | columnName (schemaUuid : Uuid) (name : String)
  | file (fileUuid : Uuid)
  deriving DecidableEq

def TableRow.keys (row : TableRow) : List Key :=
  [.table row.tableUuid, .tableIdent row.ident]

def TransactionRow.keys (row : TransactionRow) : List Key :=
  [.transaction row.transactionId]

def SchemaRow.keys (row : SchemaRow) : List Key :=
  [.schema row.schemaUuid]

def ColumnRow.keys (row : ColumnRow) : List Key :=
  [.column row.columnUuid,
    .columnName row.schemaUuid row.columnName]

def FileRow.keys (row : FileRow) : List Key :=
  [.file row.fileUuid]

------------------------------------------------------------
-- Foreign Keys
------------------------------------------------------------

/- The rows that a row refers to. -/
def TransactionRow.references
    (row : TransactionRow) : List Key :=
  .table row.tableUuid ::
    row.parentTransactionId.toList.map Key.transaction

def SchemaRow.references (row : SchemaRow) : List Key :=
  .table row.tableUuid ::
    .transaction row.validFromTransactionId ::
      row.validToTransactionId.toList.map Key.transaction

def ColumnRow.references (row : ColumnRow) : List Key :=
  [.schema row.schemaUuid]

def FileRow.references (row : FileRow) : List Key :=
  .table row.tableUuid ::
    .transaction row.addedInTransactionId ::
      row.removedInTransactionId.toList.map Key.transaction

------------------------------------------------------------
-- Databases
------------------------------------------------------------

/-
  The contents of the catalog database.  The rows of each
  table stand in the order of their insertion.  A query
  without `ORDER BY` may return them in another one
  (`RowOrders`).
-/
structure Database where
  tables : List TableRow := []
  transactions : List TransactionRow := []
  schemas : List SchemaRow := []
  columns : List ColumnRow := []
  files : List FileRow := []
  tableStats : List TableStatsRow := []
  deriving DecidableEq

namespace Database

/- The database right after the migrations. -/
def empty : Database := {}

/- All keys that are in use. -/
def keyList (db : Database) : List Key :=
  db.tables.flatMap TableRow.keys ++
    (db.transactions.flatMap TransactionRow.keys ++
      (db.schemas.flatMap SchemaRow.keys ++
        (db.columns.flatMap ColumnRow.keys ++
          db.files.flatMap FileRow.keys)))

/- The row of `tables` with a namespace and a name. -/
def findTable
    (db : Database)
    (ident : TableIdent) : Option TableRow :=
  db.tables.find? fun row => row.ident = ident

theorem findTable_some
    {db : Database}
    {ident : TableIdent}
    {row : TableRow}
    (hFind : db.findTable ident = some row) :
    row ∈ db.tables ∧ row.ident = ident :=
  ⟨List.mem_of_find?_eq_some hFind,
    by simpa using List.find?_some hFind⟩

/- The row of `transactions` with an id, in one table. -/
def findTransaction
    (db : Database)
    (tableUuid : Uuid)
    (transactionId : TxnId) : Option TransactionRow :=
  db.transactions.find? fun row =>
    row.tableUuid = tableUuid &&
      row.transactionId = transactionId

/- The transactions of one table. -/
def transactionsOf
    (db : Database)
    (tableUuid : Uuid) : List TransactionRow :=
  db.transactions.filter fun row =>
    row.tableUuid = tableUuid

/- The schema versions of one table. -/
def schemasOf
    (db : Database)
    (tableUuid : Uuid) : List SchemaRow :=
  db.schemas.filter fun row => row.tableUuid = tableUuid

/- The columns of one schema version. -/
def columnsOf
    (db : Database)
    (schemaUuid : Uuid) : List ColumnRow :=
  db.columns.filter fun row => row.schemaUuid = schemaUuid

/- The files of one table, removed ones included. -/
def filesOf
    (db : Database)
    (tableUuid : Uuid) : List FileRow :=
  db.files.filter fun row => row.tableUuid = tableUuid

theorem mem_keyList_table
    {db : Database}
    {tableUuid : Uuid} :
    Key.table tableUuid ∈ db.keyList ↔
      ∃ row ∈ db.tables, row.tableUuid = tableUuid := by
  simp [keyList, TableRow.keys, TransactionRow.keys,
    SchemaRow.keys, ColumnRow.keys, FileRow.keys, eq_comm]

theorem mem_keyList_tableIdent
    {db : Database}
    {ident : TableIdent} :
    Key.tableIdent ident ∈ db.keyList ↔
      ∃ row ∈ db.tables, row.ident = ident := by
  simp [keyList, TableRow.keys, TransactionRow.keys,
    SchemaRow.keys, ColumnRow.keys, FileRow.keys, eq_comm]

theorem mem_keyList_transaction
    {db : Database}
    {transactionId : TxnId} :
    Key.transaction transactionId ∈ db.keyList ↔
      ∃ row ∈ db.transactions,
        row.transactionId = transactionId := by
  simp [keyList, TableRow.keys, TransactionRow.keys,
    SchemaRow.keys, ColumnRow.keys, FileRow.keys, eq_comm]

theorem mem_keyList_schema
    {db : Database}
    {schemaUuid : Uuid} :
    Key.schema schemaUuid ∈ db.keyList ↔
      ∃ row ∈ db.schemas, row.schemaUuid = schemaUuid := by
  simp [keyList, TableRow.keys, TransactionRow.keys,
    SchemaRow.keys, ColumnRow.keys, FileRow.keys, eq_comm]

theorem mem_keyList_file
    {db : Database}
    {fileUuid : Uuid} :
    Key.file fileUuid ∈ db.keyList ↔
      ∃ row ∈ db.files, row.fileUuid = fileUuid := by
  simp [keyList, TableRow.keys, TransactionRow.keys,
    SchemaRow.keys, ColumnRow.keys, FileRow.keys, eq_comm]

end Database

end Planar
