import Mathlib.Data.List.AList
import Planar.Catalog.Events

/-
  The difference between two snapshots of a table.

  Main declarations:
    * `projectChange`, `projectDeltaRange`
    * `diffTable`
-/

------------------------------------------------------------
-- Projecting Events
------------------------------------------------------------

namespace Planar

abbrev FileMap := AList fun _ : Uuid => File

/- The files of a map, in no particular order. -/
def FileMap.intoValues (files : FileMap) : List File :=
  files.entries.map Sigma.snd

/- The two maps that the projection keeps. -/
structure NetChanges where
  added : FileMap := ∅
  removed : FileMap := ∅

/- The effect of one file change on the net changes. -/
def projectChange
    (net : NetChanges)
    (change : TxnFileChange) : NetChanges :=
  let fileUuid := change.file.fileUuid
  match change.kind with
  | .added =>
      { added := net.added.insert fileUuid change.file
        removed := net.removed.erase fileUuid }
  | .removed =>
      match net.added.lookup fileUuid with
      | some _ =>
          { net with added := net.added.erase fileUuid }
      | none =>
          { net with
            removed :=
              net.removed.insert fileUuid change.file }

/- Project a net table delta from transaction events. -/
def projectDeltaRange
    (fromTransactionId toTransactionId : TxnId)
    (events : List TxnEvent)
    (newSchema : Option Schema)
    (newProperties : Option TableProperties) :
    TableDelta :=
  let net := (events.flatMap TxnEvent.fileChanges).foldl
    projectChange {}
  { fromTransactionId := fromTransactionId
    toTransactionId := toTransactionId
    addedFiles := net.added.intoValues
    removedFiles := net.removed.intoValues
    newSchema := newSchema
    newProperties := newProperties }

------------------------------------------------------------
-- Diffing a Table
------------------------------------------------------------

/- Compute the difference between two transactions. -/
def diffTable
    (ext : External)
    (catalog : SqlCatalog)
    (ident : TableIdent)
    (fromTransactionId toTransactionId : TxnId) :
    CatalogQuery TableDelta := do
  let events ← listTransactionEvents ext catalog ident
    ⟨some fromTransactionId, toTransactionId⟩
  let fromView ←
    readTable ext catalog ident (some fromTransactionId)
  let toView ←
    readTable ext catalog ident (some toTransactionId)
  let newSchema :=
    if fromView.schema.schemaUuid ≠
        toView.schema.schemaUuid then
      some toView.schema
    else none
  let newProperties :=
    if fromView.properties ≠ toView.properties then
      some toView.properties
    else none
  pure (projectDeltaRange fromTransactionId toTransactionId
    events newSchema newProperties)

end Planar
