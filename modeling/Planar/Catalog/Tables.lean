import Planar.Catalog.CreateTable
import Planar.Catalog.ReadTable

/-
  Calls that look tables up, list them or drop them.

  Main declarations:
    * `loadTable`, `listTables`, `currentTransactionId`
    * `dropTable`
-/

------------------------------------------------------------
-- Looking Tables Up
------------------------------------------------------------

namespace Planar

/- Load the handle of a table if the table exists. -/
def loadTable
    (kind : DbKind)
    (ident : TableIdent) :
    CatalogQuery (Option TableIdent) := do
  let found ← Query.fetch fun db =>
    (db.findTable ident).isSome
  let tableExists ← Query.lift (decodeSelectOne kind found)
  pure (if tableExists then some ident else none)

/- List tables, optionally filtered by namespace. -/
def listTables
    (ext : External)
    (filter : Option String) :
    CatalogQuery (List TableIdent) := do
  let rows ← Query.fetch fun db =>
    (ext.orders.tables.arrange
      (db.tables.filter fun row =>
        match filter with
        | none => true
        | some tableNamespace =>
            row.tableNamespace = tableNamespace)).take
              (maxTablesPerList + 1)
  if rows.length > maxTablesPerList then
    Query.fail (.returned (.limitExceeded
      s!"table count exceeds limit of {maxTablesPerList}"))
  else
    pure (rows.map TableRow.ident)

/- Resolve the current transaction head of a table. -/
def currentTransactionId
    (ident : TableIdent) : CatalogQuery TxnId := do
  let row ← Query.fetch fun db => db.findTable ident
  match row with
  | none => Query.fail (.returned (.notFound ident.toText))
  | some row =>
      Query.lift (requireHead row.currentTransactionId)

------------------------------------------------------------
-- Dropping a Table
------------------------------------------------------------

/- Some row refers to the table by a foreign key. -/
def Database.isReferenced
    (db : Database)
    (tableUuid : Uuid) : Bool :=
  db.transactions.any (·.tableUuid = tableUuid) ||
    db.schemas.any (·.tableUuid = tableUuid) ||
    db.files.any (·.tableUuid = tableUuid) ||
    db.tableStats.any (·.tableUuid = tableUuid)

/- Drop a table: delete its row, unless it is referenced. -/
def dropTable
    (ident : TableIdent)
    (db : Database) : Result Unit × Database :=
  match db.findTable ident with
  | none =>
      (fault (.notFound ident.toText), db)
  | some row =>
      if db.isReferenced row.tableUuid then
        (fault (.storage .foreignKeyViolation), db)
      else
        (.ok (),
          { db with
            tables := db.tables.filter fun other =>
              other.ident ≠ ident })

end Planar
