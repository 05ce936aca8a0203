import Mathlib.Tactic.Common

/-
  Bounds on catalog operations and on the parameters of one
  SQL statement.

  Main declarations:
    * `DbKind`
    * the limits, such as `maxFilesPerQuery`
    * `batchInsertColumnsChunk`
-/

------------------------------------------------------------
-- Backends
------------------------------------------------------------

namespace Planar

/- The database behind a catalog. -/
inductive DbKind where
  | sqlite
  | postgres
  deriving DecidableEq

------------------------------------------------------------
-- Operation Limits
------------------------------------------------------------

/- Maximum number of files returned per table query. -/
def maxFilesPerQuery : Nat := 10000

/- Maximum number of columns per schema. -/
def maxColumnsPerSchema : Nat := 1000

/- Maximum number of tables returned by a list query. -/
def maxTablesPerList : Nat := 10000

/- Maximum number of transactions in one event scan. -/
def maxTransactionsPerScan : Nat := 50000

/- Maximum number of schema changes in one event scan. -/
def maxSchemaChangesPerScan : Nat := 10000

/- Maximum number of operations per mutation. -/
def maxOperationsPerMutation : Nat := 1000

/- Maximum number of files per append operation. -/
def maxFilesPerAppend : Nat := 1000

/- Maximum number of files to delete in one operation. -/
def maxFilesPerDelete : Nat := 1000

/- Maximum number of property keys to remove at once. -/
def maxPropertyKeysToRemove : Nat := 100

/- Maximum size of a JSON text in bytes. -/
def maxJsonSizeBytes : Nat := 1048576

------------------------------------------------------------
-- Statement Limits
------------------------------------------------------------

/- Rows of one multi-row insert of files. -/
def batchInsertFilesChunk : Nat := 100

/- Identifiers of one update that removes files. -/
def batchDeleteFilesChunk : Nat := 500

def postgresMaxBindParams : Nat := 65535

def sqliteMaxBindParams : Nat := 32766

def columnInsertParamsPerRow : Nat := 6

/- Maximum bind parameters allowed for a backend. -/
def dbBindLimit : DbKind → Nat
| .sqlite => sqliteMaxBindParams
| .postgres => postgresMaxBindParams

/-
  Rows of one multi-row insert of columns: as many as the
  bind limit allows, and at most a whole schema.
-/
def batchInsertColumnsChunk (db : DbKind) : Nat :=
  let maxRowsFromBindLimit :=
    dbBindLimit db / columnInsertParamsPerRow
  if maxRowsFromBindLimit < maxColumnsPerSchema then
    maxRowsFromBindLimit
  else
    maxColumnsPerSchema

theorem batchInsertColumnsChunk_eq
    (db : DbKind) :
    batchInsertColumnsChunk db = maxColumnsPerSchema := by
  cases db <;> rfl

end Planar
