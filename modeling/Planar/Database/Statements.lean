import Mathlib.Data.List.Perm.Basic
import Planar.Database.Rows
import Planar.Foundations.Transaction

/-
  The SQL statements of the catalog and the constraints that
  the database checks for them.

  Main declarations:
    * `Statement`, `Statement.keys`, `Statement.references`
    * `Database.effect`, `Database.check`
    * `sqlStore`
    * `Database.keyList_effect`
-/

------------------------------------------------------------
-- Statements
------------------------------------------------------------

namespace Planar

/- The inserts and updates of the catalog. -/
inductive Statement where
  | insertTable (row : TableRow)
  | insertTransaction (row : TransactionRow)
  | insertSchema (row : SchemaRow)
  | insertColumns (rows : List ColumnRow)
  | insertFiles (rows : List FileRow)
  | markFilesRemoved
      (transactionId : TxnId) (tableUuid : Uuid)
      (fileUuids : List Uuid)
  | closeSchema
      (transactionId : TxnId) (schemaUuid : Uuid)
  | initTableHead
      (schemaUuid : Uuid) (transactionId : TxnId)
      (tableUuid : Uuid)
  | advanceTableHead
      (transactionId : TxnId) (schemaUuid : Option Uuid)
      (properties : String) (tableUuid : Uuid)
  deriving DecidableEq

/- The keys of the rows that a statement inserts. -/
def Statement.keys : Statement → List Key
| .insertTable row => row.keys
| .insertTransaction row => row.keys
| .insertSchema row => row.keys
| .insertColumns rows => rows.flatMap ColumnRow.keys
| .insertFiles rows => rows.flatMap FileRow.keys
| _ => []

/-
  The condition `removed_in_transaction_id IS NULL AND
  table_uuid = .. AND file_uuid IN (..)`.
-/
def FileRow.isLiveIn
    (tableUuid : Uuid)
    (fileUuids : List Uuid)
    (row : FileRow) : Bool :=
  row.tableUuid = tableUuid &&
    row.removedInTransactionId.isNone &&
    row.fileUuid ∈ fileUuids

/-
  The rows that a statement refers to by foreign keys; an
  update that matches no row refers to nothing.
-/
def Statement.references
    (db : Database) : Statement → List Key
| .insertTable _ => []
| .insertTransaction row => row.references
| .insertSchema row => row.references
| .insertColumns rows => rows.flatMap ColumnRow.references
| .insertFiles rows => rows.flatMap FileRow.references
| .markFilesRemoved transactionId tableUuid fileUuids =>
    if db.files.any (FileRow.isLiveIn tableUuid fileUuids)
    then [.transaction transactionId] else []
| .closeSchema transactionId schemaUuid =>
    if db.schemas.any fun row => row.schemaUuid = schemaUuid
    then [.transaction transactionId] else []
| .initTableHead _ _ _ => []
| .advanceTableHead _ _ _ _ => []

------------------------------------------------------------
-- Effects and Checks
------------------------------------------------------------

/- Set `removed_in_transaction_id` of the matching row. -/
def FileRow.markRemoved
    (transactionId : TxnId)
    (tableUuid : Uuid)
    (fileUuids : List Uuid)
    (row : FileRow) : FileRow :=
  if row.isLiveIn tableUuid fileUuids then
    { row with removedInTransactionId := some transactionId }
  else row

/- Set `valid_to_transaction_id` of the matching row. -/
def SchemaRow.close
    (transactionId : TxnId)
    (schemaUuid : Uuid)
    (row : SchemaRow) : SchemaRow :=
  if row.schemaUuid = schemaUuid then
    { row with validToTransactionId := some transactionId }
  else row

/- Set the head of the matching table. -/
def TableRow.initHead
    (schemaUuid : Uuid)
    (transactionId : TxnId)
    (tableUuid : Uuid)
    (row : TableRow) : TableRow :=
  if row.tableUuid = tableUuid then
    { row with
      currentSchemaUuid := some schemaUuid
      currentTransactionId := some transactionId }
  else row

/- Set the head and the properties of the matching table. -/
def TableRow.advanceHead
    (transactionId : TxnId)
    (schemaUuid : Option Uuid)
    (properties : String)
    (tableUuid : Uuid)
    (row : TableRow) : TableRow :=
  if row.tableUuid = tableUuid then
    { row with
      currentTransactionId := some transactionId
      currentSchemaUuid := schemaUuid
      properties := some properties }
  else row

namespace Database

/- The rows after a statement. -/
def effect (db : Database) : Statement → Database
| .insertTable row =>
    { db with tables := db.tables ++ [row] }
| .insertTransaction row =>
    { db with transactions := db.transactions ++ [row] }
| .insertSchema row =>
    { db with schemas := db.schemas ++ [row] }
| .insertColumns rows =>
    { db with columns := db.columns ++ rows }
| .insertFiles rows =>
    { db with files := db.files ++ rows }
| .markFilesRemoved transactionId tableUuid fileUuids =>
    { db with
      files := db.files.map
        (FileRow.markRemoved transactionId tableUuid
          fileUuids) }
| .closeSchema transactionId schemaUuid =>
    { db with
      schemas := db.schemas.map
        (SchemaRow.close transactionId schemaUuid) }
| .initTableHead schemaUuid transactionId tableUuid =>
    { db with
      tables := db.tables.map
        (TableRow.initHead schemaUuid transactionId
          tableUuid) }
| .advanceTableHead transactionId schemaUuid properties
    tableUuid =>
    { db with
      tables := db.tables.map
        (TableRow.advanceHead transactionId schemaUuid
          properties tableUuid) }

/- Uniqueness constraints, then foreign keys. -/
def check (db : Database) (s : Statement) : Result Unit :=
  if (∃ k ∈ s.keys, k ∈ db.keyList) ∨ ¬ s.keys.Nodup then
    fault (.storage .uniqueViolation)
  else if ∀ k ∈ s.references db, k ∈ db.keyList then
    .ok ()
  else
    fault (.storage .foreignKeyViolation)

end Database

@[simp] theorem FileRow.keys_markRemoved
    (transactionId : TxnId)
    (tableUuid : Uuid)
    (fileUuids : List Uuid)
    (row : FileRow) :
    (row.markRemoved transactionId tableUuid
      fileUuids).keys = row.keys := by
  unfold FileRow.markRemoved
  split <;> rfl

theorem FileRow.markRemoved_tableUuid
    (transactionId : TxnId)
    (tableUuid : Uuid)
    (fileUuids : List Uuid)
    (row : FileRow) :
    (row.markRemoved transactionId tableUuid
      fileUuids).tableUuid = row.tableUuid := by
  unfold markRemoved
  split <;> rfl

theorem SchemaRow.schemaUuid_close
    (transactionId : TxnId)
    (schemaUuid : Uuid)
    (row : SchemaRow) :
    (row.close transactionId schemaUuid).schemaUuid =
      row.schemaUuid := by
  unfold close
  split <;> rfl

@[simp] theorem SchemaRow.keys_close
    (transactionId : TxnId)
    (schemaUuid : Uuid)
    (row : SchemaRow) :
    (row.close transactionId schemaUuid).keys =
      row.keys := by
  unfold SchemaRow.close
  split <;> rfl

@[simp] theorem TableRow.keys_initHead
    (schemaUuid : Uuid)
    (transactionId : TxnId)
    (tableUuid : Uuid)
    (row : TableRow) :
    (row.initHead schemaUuid transactionId
      tableUuid).keys = row.keys := by
  unfold TableRow.initHead
  split <;> rfl

@[simp] theorem TableRow.keys_advanceHead
    (transactionId : TxnId)
    (schemaUuid : Option Uuid)
    (properties : String)
    (tableUuid : Uuid)
    (row : TableRow) :
    (row.advanceHead transactionId schemaUuid properties
      tableUuid).keys = row.keys := by
  unfold TableRow.advanceHead
  split <;> rfl

namespace Database

/- A statement adds its keys and keeps all others. -/
theorem keyList_effect
    (db : Database)
    (s : Statement) :
    (db.effect s).keyList.Perm (db.keyList ++ s.keys) := by
  have hMove {α : Type} (new after : List α) :
      (new ++ after).Perm (after ++ new) :=
    List.perm_append_comm
  cases s with
  | insertTable row =>
      simpa [keyList, effect, Statement.keys,
        List.perm_append_left_iff] using
        hMove row.keys
          (db.transactions.flatMap TransactionRow.keys ++
            (db.schemas.flatMap SchemaRow.keys ++
              (db.columns.flatMap ColumnRow.keys ++
                db.files.flatMap FileRow.keys)))
  | insertTransaction row =>
      simpa [keyList, effect, Statement.keys,
        List.perm_append_left_iff] using
        hMove row.keys
          (db.schemas.flatMap SchemaRow.keys ++
            (db.columns.flatMap ColumnRow.keys ++
              db.files.flatMap FileRow.keys))
  | insertSchema row =>
      simpa [keyList, effect, Statement.keys,
        List.perm_append_left_iff] using
        hMove row.keys
          (db.columns.flatMap ColumnRow.keys ++
            db.files.flatMap FileRow.keys)
  | insertColumns rows =>
      simpa [keyList, effect, Statement.keys,
        List.perm_append_left_iff] using
        hMove (rows.flatMap ColumnRow.keys)
          (db.files.flatMap FileRow.keys)
  | insertFiles rows =>
      simp [keyList, effect, Statement.keys]
  | markFilesRemoved transactionId tableUuid fileUuids =>
      simp [keyList, effect, Statement.keys,
        List.flatMap_map]
  | closeSchema transactionId schemaUuid =>
      simp [keyList, effect, Statement.keys,
        List.flatMap_map]
  | initTableHead schemaUuid transactionId tableUuid =>
      simp [keyList, effect, Statement.keys,
        List.flatMap_map]
  | advanceTableHead transactionId schemaUuid properties
      tableUuid =>
      simp [keyList, effect, Statement.keys,
        List.flatMap_map]

/- What an accepted statement brings and refers to. -/
theorem check_ok
    {db : Database}
    {s : Statement} :
    db.check s = .ok () ↔
      (∀ k ∈ s.keys, k ∉ db.keyList) ∧ s.keys.Nodup ∧
        ∀ k ∈ s.references db, k ∈ db.keyList := by
  unfold check
  split
  · rename_i hClash
    constructor
    · intro hOk
      cases hOk
    · rintro ⟨hFresh, hNodup, _⟩
      rcases hClash with ⟨k, hKey, hUsed⟩ | hTwice
      · exact absurd hUsed (hFresh k hKey)
      · exact absurd hNodup hTwice
  · rename_i hClash
    rw [not_or, not_not] at hClash
    have hFresh : ∀ k ∈ s.keys, k ∉ db.keyList :=
      fun k hKey hUsed => hClash.1 ⟨k, hKey, hUsed⟩
    split
    · rename_i hRefers
      simp only [true_iff]
      exact ⟨hFresh, hClash.2, hRefers⟩
    · rename_i hRefers
      constructor
      · intro hOk
        cases hOk
      · intro hAll
        exact absurd hAll.2.2 hRefers

/- Keys stay unique. -/
theorem nodup_keyList_effect
    {db : Database}
    {s : Statement}
    (hNodup : db.keyList.Nodup)
    (hCheck : db.check s = .ok ()) :
    (db.effect s).keyList.Nodup := by
  rcases check_ok.mp hCheck with ⟨hFresh, hKeys, _⟩
  rw [(keyList_effect db s).nodup_iff]
  apply List.nodup_append.mpr
  refine ⟨hNodup, hKeys, ?_⟩
  rintro k hOld k' hNew rfl
  exact hFresh k hNew hOld

end Database

/- The database as a store with unique keys. -/
def sqlStore : Store Database Statement Key Fault where
  check s db := db.check s
  effect s db := db.effect s
  keys := Statement.keys
  holds db k := k ∈ db.keyList
  fresh_of_check := fun hCheck =>
    (Database.check_ok.mp hCheck).1
  holds_effect s db k := by
    rw [(Database.keyList_effect db s).mem_iff,
      List.mem_append]

@[simp] theorem sqlStore_check
    (s : Statement)
    (db : Database) :
    sqlStore.check s db = db.check s := rfl

@[simp] theorem sqlStore_effect
    (s : Statement)
    (db : Database) :
    sqlStore.effect s db = db.effect s := rfl

end Planar
