import Planar.Catalog.Commit
import Planar.Catalog.Diff
import Planar.Catalog.Tables

/-
  All calls of a catalog in one type, with their answers.

  Main declarations:
    * `CatalogCall`, `Answer`
    * `CatalogCall.perform`
-/

------------------------------------------------------------
-- Calls and Answers
------------------------------------------------------------

namespace Planar

/-
  A call of the catalog with its arguments.  A call that
  writes comes with the values that it draws.
-/
inductive CatalogCall where
  | createTable (ident : TableIdent) (location : String)
      (schema : SchemaSpec)
      (properties : Option TableProperties) (draws : Draws)
  | loadTable (ident : TableIdent)
  | listTables (tableNamespace : Option String)
  | dropTable (ident : TableIdent)
  | currentTransactionId (ident : TableIdent)
  | listTransactionEvents (ident : TableIdent)
      (cursor : TxnRangeCursor)
  | readTable (ident : TableIdent)
      (atTransactionId : Option TxnId)
  | diffTable (ident : TableIdent)
      (fromTransactionId toTransactionId : TxnId)
  | commit (ident : TableIdent) (base : TxnId)
      (mutation : Mutation) (draws : Draws)

/- The table that a call names; a list names none. -/
def CatalogCall.ident : CatalogCall → Option TableIdent
| .createTable ident _ _ _ _ => some ident
| .loadTable ident => some ident
| .listTables _ => none
| .dropTable ident => some ident
| .currentTransactionId ident => some ident
| .listTransactionEvents ident _ => some ident
| .readTable ident _ => some ident
| .diffTable ident _ _ => some ident
| .commit ident _ _ _ => some ident

/- What a successful call returns. -/
inductive Answer where
  | created
  | handle (handle : Option TableIdent)
  | idents (idents : List TableIdent)
  | dropped
  | current (transactionId : TxnId)
  | events (events : List TxnEvent)
  | view (view : TableView)
  | delta (delta : TableDelta)
  | committed (result : CommitResult)
  deriving DecidableEq

------------------------------------------------------------
-- Performing a Call
------------------------------------------------------------

/- The answer of a reading call. -/
def CatalogQuery.answer
    {α : Type}
    (query : CatalogQuery α)
    (wrap : α → Answer)
    (db : Database) : Result Answer × Database :=
  ((query.exec db).map wrap, db)

/- Perform a call with nothing in between. -/
def CatalogCall.perform
    (ext : External)
    (catalog : SqlCatalog)
    (db : Database) :
    CatalogCall → Result Answer × Database
| .createTable ident location schema properties draws =>
    let (result, db') :=
      Planar.createTable ext catalog ident location schema
        properties draws db
    (result.map fun _ => .created, db')
| .loadTable ident =>
    (Planar.loadTable catalog.kind ident).answer .handle db
| .listTables tableNamespace =>
    (Planar.listTables ext tableNamespace).answer .idents db
| .dropTable ident =>
    let (result, db') := Planar.dropTable ident db
    (result.map fun _ => .dropped, db')
| .currentTransactionId ident =>
    (Planar.currentTransactionId ident).answer .current db
| .listTransactionEvents ident cursor =>
    (Planar.listTransactionEvents ext catalog ident
      cursor).answer .events db
| .readTable ident atTransactionId =>
    (Planar.readTable ext catalog ident
      atTransactionId).answer .view db
| .diffTable ident fromTransactionId toTransactionId =>
    (Planar.diffTable ext catalog ident fromTransactionId
      toTransactionId).answer .delta db
| .commit ident base mutation draws =>
    let (result, db') :=
      Planar.commit ext catalog ident base mutation draws db
    (result.map .committed, db')

end Planar
