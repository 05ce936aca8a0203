import Planar.Catalog.Calls

/-
  Handles of tables, and the builders of mutations that they
  give out.

  Main declarations:
    * `MutationBuilder`, `MutationBuilder.push`,
      `MutationBuilder.commit`
    * `TableHandle`, `TableHandle.write`
-/

------------------------------------------------------------
-- Mutation Builders
------------------------------------------------------------

namespace Planar

/- A mutation that is put together for one base. -/
structure MutationBuilder where
  catalog : SqlCatalog
  ident : TableIdent
  baseTransactionId : TxnId
  mutation : Mutation := {}
  deriving DecidableEq

namespace MutationBuilder

/- Create a new mutation builder. -/
def new
    (catalog : SqlCatalog)
    (ident : TableIdent)
    (baseTransactionId : TxnId) : MutationBuilder :=
  { catalog := catalog
    ident := ident
    baseTransactionId := baseTransactionId }

/- Put one more operation at the end. -/
def push
    (builder : MutationBuilder)
    (operation : MutationOp) : MutationBuilder :=
  { builder with
    mutation :=
      ⟨builder.mutation.operations ++ [operation]⟩ }

/- Append multiple files to the table. -/
def appendFiles
    (builder : MutationBuilder)
    (files : List FileSpec) : MutationBuilder :=
  builder.push (.appendFiles files)

/- Append a single file to the table. -/
def appendFile
    (builder : MutationBuilder)
    (file : FileSpec) : MutationBuilder :=
  builder.push (.appendFiles [file])

/- Delete files by UUID. -/
def deleteFiles
    (builder : MutationBuilder)
    (fileUuids : List Uuid) : MutationBuilder :=
  builder.push (.deleteFiles fileUuids)

/- Update the table schema. -/
def updateSchema
    (builder : MutationBuilder)
    (schema : SchemaSpec) : MutationBuilder :=
  builder.push (.updateSchema schema)

/- Set table properties, which replaces existing ones. -/
def setProperties
    (builder : MutationBuilder)
    (properties : TableProperties) : MutationBuilder :=
  builder.push (.setProperties properties)

/- Remove properties by key. -/
def removeProperties
    (builder : MutationBuilder)
    (keys : List PropertyKey) : MutationBuilder :=
  builder.push (.removeProperties keys)

/- Commit the mutation to the catalog. -/
def commit
    (ext : External)
    (builder : MutationBuilder)
    (draws : Draws)
    (db : Database) : Result CommitResult × Database :=
  Planar.commit ext builder.catalog builder.ident
    builder.baseTransactionId builder.mutation draws db

end MutationBuilder

------------------------------------------------------------
-- Table Handles
------------------------------------------------------------

/- The head that a table has, if it is there. -/
theorem exec_currentTransactionId
    {ident : TableIdent}
    {transactionId : TxnId}
    {db : Database} :
    (currentTransactionId ident).exec db =
        .ok transactionId ↔
      ∃ row, db.findTable ident = some row ∧
        row.currentTransactionId = some transactionId := by
  unfold currentTransactionId
  rw [Query.exec_bind, Query.exec_fetch]
  cases hRow : db.findTable ident with
  | none => simp [bind, Except.bind]
  | some row =>
      simp [bind, Except.bind, requireHead_ok]

/- Handle for interacting with a table. -/
structure TableHandle where
  catalog : SqlCatalog
  ident : TableIdent
  deriving DecidableEq

namespace TableHandle

/- Read the current table view. -/
def read
    (ext : External)
    (handle : TableHandle) : CatalogQuery TableView :=
  readTable ext handle.catalog handle.ident none

/- Read the table view at a specific transaction. -/
def readAt
    (ext : External)
    (handle : TableHandle)
    (transactionId : TxnId) : CatalogQuery TableView :=
  readTable ext handle.catalog handle.ident
    (some transactionId)

/- Get the current transaction head for this table. -/
def currentTransactionId
    (handle : TableHandle) : CatalogQuery TxnId :=
  Planar.currentTransactionId handle.ident

/- List ordered transaction events in a bounded range. -/
def listTransactionEvents
    (ext : External)
    (handle : TableHandle)
    (fromExclusive : Option TxnId)
    (toInclusive : TxnId) : CatalogQuery (List TxnEvent) :=
  Planar.listTransactionEvents ext handle.catalog
    handle.ident ⟨fromExclusive, toInclusive⟩

/- Compute the difference between two versions. -/
def diff
    (ext : External)
    (handle : TableHandle)
    (fromTransactionId toTransactionId : TxnId) :
    CatalogQuery TableDelta :=
  diffTable ext handle.catalog handle.ident
    fromTransactionId toTransactionId

/- Create a builder pinned to a base transaction. -/
def write
    (handle : TableHandle)
    (baseTransactionId : Option TxnId) :
    CatalogQuery MutationBuilder := do
  let txnId ←
    match baseTransactionId with
    | some id => pure id
    | none => Planar.currentTransactionId handle.ident
  pure (.new handle.catalog handle.ident txnId)

/-
  A handle without a base pins its builder to the head of
  the table, and one with a base asks nothing.
-/
theorem exec_write
    {handle : TableHandle}
    {baseTransactionId : Option TxnId}
    {builder : MutationBuilder}
    {db : Database}
    (hWrite :
      (handle.write baseTransactionId).exec db =
        .ok builder) :
    ∃ base, builder =
        .new handle.catalog handle.ident base ∧
      (∀ t ∈ baseTransactionId, base = t) ∧
      (baseTransactionId = none →
        ∃ row, db.findTable handle.ident = some row ∧
          row.currentTransactionId = some base) := by
  cases baseTransactionId with
  | some t =>
      refine ⟨t, (Except.ok.inj hWrite).symm, ?_, ?_⟩
      · simp
      · intro hNone
        cases hNone
  | none =>
      unfold write at hWrite
      rw [Query.exec_bind] at hWrite
      rcases bind_ok.mp hWrite with
        ⟨base, hCurrent, hBuilder⟩
      exact ⟨base, (Except.ok.inj hBuilder).symm, nofun,
        fun _ => exec_currentTransactionId.mp hCurrent⟩

end TableHandle

end Planar
