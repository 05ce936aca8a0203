import Planar.Catalog.ChunkedStatements
import Planar.History.Entries

/-
  What the parts of a commit do to the database when they
  succeed: the loops over chunks act like one statement.

  Main declarations:
    * `Entry.transactionRow`, `stampedRow`,
      `SchemaContents.columnRows`
    * `exec_appendFiles`, `exec_deleteFiles`
-/

------------------------------------------------------------
-- Rows of Contents
------------------------------------------------------------

namespace Planar

/- The row of `transactions` for an entry. -/
def Entry.transactionRow
    (tableUuid : Uuid)
    (e : Entry) : TransactionRow :=
  { transactionId := e.transactionId
    tableUuid := tableUuid
    transactionTimestamp := e.timestamp
    parentTransactionId := e.parentTransactionId }

/- The row of a file of a table, with its stamps. -/
def stampedRow
    (ext : External)
    (tableUuid : Uuid)
    (s : Stamped FileContents TxnId) : FileRow :=
  { fileUuid := s.item.fileUuid
    tableUuid := tableUuid
    fileFormat := s.item.fileFormat.asStr
    filePath := s.item.filePath
    recordCount := s.item.recordCount
    fileSizeBytes := s.item.fileSizeBytes
    addedInTransactionId := s.opened
    removedInTransactionId := s.closed
    partitionValues :=
      s.item.partitionValues.map ext.jsonToString
    formatOptions :=
      s.item.formatOptions.map ext.jsonToString }

/- The rows of appended files. -/
def appendedRows
    (ext : External)
    (tableUuid : Uuid)
    (transactionId : TxnId)
    (files : List FileContents) : List FileRow :=
  files.map fun f =>
    stampedRow ext tableUuid ⟨f, transactionId, none⟩

/- The rows of the columns of a schema. -/
def SchemaContents.columnRows
    (ext : External)
    (s : SchemaContents) : List ColumnRow :=
  s.columns.mapIdx fun i column =>
    { columnUuid := column.1
      schemaUuid := s.schemaUuid
      columnName := column.2.name
      columnType := encodeDataType ext column.2.columnType
      ordinalPosition := asI32 ((i + 1 : Nat) : Int)
      isNullable := column.2.isNullable }

theorem SchemaSpec.columnRows_contents
    (ext : External)
    (draws : Draws)
    (op : Nat)
    (spec : SchemaSpec) :
    (spec.contents draws op).columnRows ext =
      columnRows ext (draws.schemaUuid op)
        (draws.columnUuid op) 0 spec.columns := by
  apply List.ext_getElem?
  intro i
  simp [SchemaSpec.contents, SchemaContents.columnRows,
    columnRows, Function.comp_def]

------------------------------------------------------------
-- Appending Files
------------------------------------------------------------

/- A row that is built has passed its validation. -/
theorem fileRow_ok
    {ext : External}
    {tableUuid : Uuid}
    {transactionId : TxnId}
    {fresh : Uuid}
    {f : FileSpec}
    {row : FileRow}
    (hOk :
      fileRow ext tableUuid transactionId fresh f =
        .ok row) :
    f.validate ext = .ok () ∧
      row = stampedRow ext tableUuid
        ⟨f.contents fresh, transactionId, none⟩ := by
  rcases bind_ok.mp hOk with ⟨u, hValid, hRest⟩
  rcases bind_ok.mp hRest with ⟨partition, hPartition, hRest⟩
  rcases bind_ok.mp hRest with ⟨format, hFormat, hEnd⟩
  rcases Except.ok.inj hEnd with rfl
  rcases serializeJsonOptional_ok hPartition with rfl
  rcases serializeJsonOptional_ok hFormat with rfl
  exact ⟨hValid, rfl⟩

theorem fileRows_ok
    {ext : External}
    {tableUuid : Uuid}
    {transactionId : TxnId}
    {fileUuid : Nat → Uuid}
    {start : Nat}
    {files : List FileSpec}
    {rows : List FileRow}
    (hOk :
      fileRows ext tableUuid transactionId fileUuid start
        files = .ok rows) :
    (∀ f ∈ files, f.validate ext = .ok ()) ∧
      rows = appendedRows ext tableUuid transactionId
        (files.mapIdx fun i f =>
          f.contents (fileUuid (start + i))) := by
  have hEach (i : Nat) (f : FileSpec) (row : FileRow) :
      fileRow ext tableUuid transactionId (fileUuid i) f =
          .ok row →
        f.validate ext = .ok () ∧
          row = stampedRow ext tableUuid
            ⟨f.contents (fileUuid i), transactionId,
              none⟩ :=
    fileRow_ok
  rw [fileRows_eq] at hOk
  rw [appendedRows, map_mapIdx]
  exact buildFrom_ok hEach hOk

/- Appending files is one insert of valid files. -/
theorem exec_appendFiles
    {ext : External}
    {tableUuid : Uuid}
    {transactionId : TxnId}
    {fileUuid : Nat → Uuid}
    {files : List FileSpec}
    {v v' : Database}
    (hExec :
      (appendFiles ext tableUuid transactionId fileUuid
        files).exec sqlStore v = .ok ((), v')) :
    asU32 files.length ≤ maxFilesPerAppend ∧
      (∀ f ∈ files, f.validate ext = .ok ()) ∧
      v' = v.effect (.insertFiles
        (appendedRows ext tableUuid transactionId
          (files.mapIdx fun i f =>
            f.contents (fileUuid i)))) := by
  unfold appendFiles at hExec
  split at hExec
  · cases hExec
  rename_i hLimit
  rcases exec_insertFileChunks.mp hExec with
    ⟨rows, hRows, _, hEffect⟩
  rcases fileRows_ok hRows with ⟨hValid, rfl⟩
  simp only [Nat.zero_add] at hEffect
  exact ⟨Nat.le_of_not_lt hLimit, hValid, hEffect⟩

------------------------------------------------------------
-- Deleting Files
------------------------------------------------------------

/- Deleting files is one update. -/
theorem exec_deleteFiles
    {tableUuid : Uuid}
    {transactionId : TxnId}
    {fileUuids : List Uuid}
    {v v' : Database}
    (hExec :
      (deleteFiles tableUuid transactionId fileUuids).exec
        sqlStore v = .ok ((), v')) :
    asU32 fileUuids.length ≤ maxFilesPerDelete ∧
      v' = v.effect (.markFilesRemoved transactionId
        tableUuid fileUuids) := by
  unfold deleteFiles at hExec
  split at hExec
  · cases hExec
  rename_i hLimit
  rcases exec_markFileChunks.mp hExec with ⟨_, hEffect⟩
  exact ⟨Nat.le_of_not_lt hLimit, hEffect⟩

end Planar
