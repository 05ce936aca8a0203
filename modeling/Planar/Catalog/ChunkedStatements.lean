import Planar.Catalog.Commit
import Planar.Foundations.Batches

/-
  The statements of the catalog about many rows, and its
  loops over chunks as loops over batches.

  Main declarations:
    * `batched_insertFiles`, `batched_insertColumns`,
      `batched_markFilesRemoved`
    * `insertFileChunks_eq`, `markFileChunks_eq`,
      `insertColumnChunks_eq`
    * `exec_insertFileChunks`, `exec_markFileChunks`,
      `exec_insertColumns`
-/

------------------------------------------------------------
-- Statements for Many Rows
------------------------------------------------------------

namespace Planar

/- An insert of many rows checks and adds them in order. -/
theorem batched_of_insert
    {α : Type}
    {stmt : List α → Statement}
    {keys references : α → List Key}
    (hKeys : ∀ rows, (stmt rows).keys = rows.flatMap keys)
    (hReferences : ∀ db rows,
      (stmt rows).references db = rows.flatMap references)
    (hApart : ∀ a b, ∀ k ∈ references a, k ∉ keys b)
    (hNil : ∀ db : Database, db.effect (stmt []) = db)
    (hAppend : ∀ (db : Database) (first second : List α),
      db.effect (stmt (first ++ second)) =
        (db.effect (stmt first)).effect (stmt second)) :
    sqlStore.Batched stmt where
  check_nil db := by
    apply Database.check_ok.mpr
    rw [hKeys, hReferences]
    exact ⟨nofun, List.nodup_nil, nofun⟩
  effect_nil := hNil
  effect_append := hAppend
  check_append db first second := by
    have hHolds (k : Key) :
        k ∈ (db.effect (stmt first)).keyList ↔
          k ∈ db.keyList ∨ k ∈ first.flatMap keys := by
      rw [(Database.keyList_effect db _).mem_iff,
        List.mem_append, hKeys]
    have hForeign : ∀ k ∈ second.flatMap references,
        k ∉ first.flatMap keys := by
      intro k hRefers hOwn
      rcases List.mem_flatMap.mp hRefers with ⟨a, _, ha⟩
      rcases List.mem_flatMap.mp hOwn with ⟨b, _, hb⟩
      exact hApart a b k ha hb
    change db.check _ = .ok () ↔ db.check _ = .ok () ∧
      (db.effect (stmt first)).check _ = .ok ()
    rw [Database.check_ok, Database.check_ok,
      Database.check_ok]
    simp only [hKeys, hReferences, List.flatMap_append,
      List.nodup_append, List.forall_mem_append, hHolds]
    constructor
    · rintro ⟨⟨hFresh, hFresh'⟩, ⟨hNodup, hNodup', hSplit⟩,
        hRefers, hRefers'⟩
      refine ⟨⟨hFresh, hNodup, hRefers⟩, ?_, hNodup',
        fun k hKey => .inl (hRefers' k hKey)⟩
      rintro k hKey (hUsed | hFirst)
      · exact hFresh' k hKey hUsed
      · exact hSplit k hFirst k hKey rfl
    · rintro ⟨⟨hFresh, hNodup, hRefers⟩, hFresh', hNodup',
        hRefers'⟩
      refine ⟨⟨hFresh, fun k hKey hUsed =>
        hFresh' k hKey (.inl hUsed)⟩,
        ⟨hNodup, hNodup', ?_⟩, hRefers, ?_⟩
      · rintro k hFirst k' hKey rfl
        exact hFresh' k hKey (.inr hFirst)
      · intro k hKey
        exact (hRefers' k hKey).resolve_right
          (hForeign k hKey)

theorem batched_insertFiles :
    sqlStore.Batched Statement.insertFiles := by
  refine batched_of_insert (fun _ => rfl) (fun _ _ => rfl)
    ?_ ?_ ?_
  · intro a b k hRefers hOwn
    rw [List.mem_singleton.mp hOwn] at hRefers
    simp [FileRow.references] at hRefers
  · intro db
    simp [Database.effect]
  · intro db first second
    simp [Database.effect]

theorem batched_insertColumns :
    sqlStore.Batched Statement.insertColumns := by
  refine batched_of_insert (fun _ => rfl) (fun _ _ => rfl)
    ?_ ?_ ?_
  · intro a b k hRefers hOwn
    rw [List.mem_singleton.mp hRefers] at hOwn
    simp [ColumnRow.keys] at hOwn
  · intro db
    simp [Database.effect]
  · intro db first second
    simp [Database.effect]

/- Marking twice in one transaction is marking once. -/
theorem FileRow.markRemoved_markRemoved
    (transactionId : TxnId)
    (tableUuid : Uuid)
    (first second : List Uuid)
    (row : FileRow) :
    (row.markRemoved transactionId tableUuid
        first).markRemoved transactionId tableUuid second =
      row.markRemoved transactionId tableUuid
        (first ++ second) := by
  by_cases hTable : row.tableUuid = tableUuid
  · by_cases hLive : row.removedInTransactionId.isNone
    · by_cases hFirst : row.fileUuid ∈ first
      · simp [markRemoved, isLiveIn, hTable, hLive, hFirst]
      · simp [markRemoved, isLiveIn, hTable, hLive, hFirst]
    · simp [markRemoved, isLiveIn, hTable, hLive]
  · simp [markRemoved, isLiveIn, hTable]

theorem FileRow.markRemoved_nil
    (transactionId : TxnId)
    (tableUuid : Uuid)
    (row : FileRow) :
    row.markRemoved transactionId tableUuid [] = row := by
  simp [markRemoved, isLiveIn]

theorem FileRow.isLiveIn_append
    (tableUuid : Uuid)
    (first second : List Uuid)
    (row : FileRow) :
    row.isLiveIn tableUuid (first ++ second) = true ↔
      row.isLiveIn tableUuid first = true ∨
        row.isLiveIn tableUuid second = true := by
  simp only [isLiveIn, Bool.and_eq_true, List.mem_append,
    decide_eq_true_eq]
  tauto

/- A row that was marked is not live any more. -/
theorem FileRow.isLiveIn_markRemoved
    (transactionId : TxnId)
    (tableUuid : Uuid)
    (first second : List Uuid)
    (row : FileRow) :
    (row.markRemoved transactionId tableUuid
        first).isLiveIn tableUuid second = true ↔
      row.isLiveIn tableUuid first ≠ true ∧
        row.isLiveIn tableUuid second = true := by
  unfold markRemoved
  by_cases hLive : row.isLiveIn tableUuid first = true
  · rw [if_pos hLive]
    refine iff_of_false ?_ fun h => h.1 hLive
    simp [isLiveIn]
  · rw [if_neg hLive]
    exact (and_iff_right hLive).symm

theorem Database.check_markFilesRemoved
    {db : Database}
    {transactionId : TxnId}
    {tableUuid : Uuid}
    {fileUuids : List Uuid} :
    db.check (.markFilesRemoved transactionId tableUuid
        fileUuids) = .ok () ↔
      ((∃ row ∈ db.files,
          row.isLiveIn tableUuid fileUuids = true) →
        Key.transaction transactionId ∈ db.keyList) := by
  rw [check_ok, Statement.references, ← List.any_eq_true]
  by_cases hLive :
      db.files.any (FileRow.isLiveIn tableUuid fileUuids) =
        true
  · rw [if_pos hLive]
    simp [Statement.keys, hLive]
  · rw [if_neg hLive]
    simp [Statement.keys, hLive]

/- Marking files in two steps is marking them at once. -/
theorem batched_markFilesRemoved
    (transactionId : TxnId)
    (tableUuid : Uuid) :
    sqlStore.Batched
      (Statement.markFilesRemoved transactionId
        tableUuid) where
  check_nil db := by
    apply Database.check_markFilesRemoved.mpr
    rintro ⟨row, _, hLive⟩
    simp [FileRow.isLiveIn] at hLive
  effect_nil db := by
    have hSame :
        FileRow.markRemoved transactionId tableUuid [] =
          id := by
      funext row
      exact row.markRemoved_nil transactionId tableUuid
    simp only [sqlStore_effect, Database.effect, hSame,
      List.map_id]
  check_append db first second := by
    have hHolds (k : Key) :
        k ∈ (db.effect (.markFilesRemoved transactionId
            tableUuid first)).keyList ↔
          k ∈ db.keyList := by
      rw [(Database.keyList_effect db _).mem_iff]
      simp [Statement.keys]
    have hAfter :
        (∃ row ∈ (db.effect (.markFilesRemoved transactionId
            tableUuid first)).files,
          row.isLiveIn tableUuid second = true) ↔
        ∃ row ∈ db.files,
          row.isLiveIn tableUuid first ≠ true ∧
            row.isLiveIn tableUuid second = true := by
      simp only [Database.effect, List.mem_map]
      constructor
      · rintro ⟨_, ⟨row, hMem, rfl⟩, hLive⟩
        exact ⟨row, hMem,
          (row.isLiveIn_markRemoved ..).mp hLive⟩
      · rintro ⟨row, hMem, hLive⟩
        exact ⟨_, ⟨row, hMem, rfl⟩,
          (row.isLiveIn_markRemoved ..).mpr hLive⟩
    simp only [sqlStore_check, sqlStore_effect,
      Database.check_markFilesRemoved, hHolds, hAfter,
      FileRow.isLiveIn_append]
    constructor
    · intro hRefers
      constructor
      · rintro ⟨row, hMem, hLive⟩
        exact hRefers ⟨row, hMem, .inl hLive⟩
      · rintro ⟨row, hMem, _, hLive⟩
        exact hRefers ⟨row, hMem, .inr hLive⟩
    · rintro ⟨hRefers, hRefers'⟩ ⟨row, hMem, hLive⟩
      by_cases hFirst :
          row.isLiveIn tableUuid first = true
      · exact hRefers ⟨row, hMem, hFirst⟩
      · exact hRefers'
          ⟨row, hMem, hFirst, hLive.resolve_left hFirst⟩
  effect_append db first second := by
    simp only [sqlStore_effect, Database.effect,
      List.map_map, Function.comp_def,
      FileRow.markRemoved_markRemoved]

------------------------------------------------------------
-- The Loops of the Catalog
------------------------------------------------------------

/- The row of one column, by its position in the schema. -/
def columnRow
    (ext : External)
    (schemaUuid : Uuid)
    (columnUuid : Nat → Uuid)
    (i : Nat)
    (column : ColumnSpec) : ColumnRow :=
  { columnUuid := columnUuid i
    schemaUuid := schemaUuid
    columnName := column.name
    columnType := encodeDataType ext column.columnType
    ordinalPosition := asI32 ((i + 1 : Nat) : Int)
    isNullable := column.isNullable }

theorem fileRows_eq
    (ext : External)
    (tableUuid : Uuid)
    (transactionId : TxnId)
    (fileUuid : Nat → Uuid)
    (start : Nat)
    (files : List FileSpec) :
    fileRows ext tableUuid transactionId fileUuid start
        files =
      buildFrom
        (fun i f =>
          fileRow ext tableUuid transactionId (fileUuid i) f)
        start files := by
  induction files generalizing start with
  | nil => rfl
  | cons f rest ih =>
      rw [fileRows, buildFrom, ih]

theorem insertFileChunks_eq
    (ext : External)
    (tableUuid : Uuid)
    (transactionId : TxnId)
    (fileUuid : Nat → Uuid)
    (start : Nat)
    (pieces : List (List FileSpec)) :
    insertFileChunks ext tableUuid transactionId fileUuid
        start pieces =
      Tx.inBatches
        (fun i f =>
          fileRow ext tableUuid transactionId (fileUuid i) f)
        .insertFiles start pieces := by
  induction pieces generalizing start with
  | nil => rfl
  | cons chunk rest ih =>
      rw [insertFileChunks, Tx.inBatches, fileRows_eq]
      simp only [ih]

theorem markFileChunks_eq
    (tableUuid : Uuid)
    (transactionId : TxnId)
    (start : Nat)
    (pieces : List (List Uuid)) :
    markFileChunks tableUuid transactionId pieces =
      Tx.inBatches (fun _ fileUuid => .ok fileUuid)
        (.markFilesRemoved transactionId tableUuid) start
        pieces := by
  induction pieces generalizing start with
  | nil => rfl
  | cons chunk rest ih =>
      rw [markFileChunks, Tx.inBatches,
        buildFrom_total fun _ _ _ => rfl,
        ih (start + chunk.length), mapIdx_const,
        List.map_id']
      rfl

theorem columnRows_eq
    (ext : External)
    (schemaUuid : Uuid)
    (columnUuid : Nat → Uuid)
    (start : Nat)
    (chunk : List ColumnSpec) :
    columnRows ext schemaUuid columnUuid start chunk =
      chunk.mapIdx fun i column =>
        columnRow ext schemaUuid columnUuid (start + i)
          column :=
  rfl

/- The index of a chunk gives the position of its start. -/
theorem insertColumnChunks_eq
    (ext : External)
    (schemaUuid : Uuid)
    (columnUuid : Nat → Uuid)
    (size fuel chunkIndex : Nat)
    (columns : List ColumnSpec) :
    insertColumnChunks ext schemaUuid columnUuid size
        chunkIndex (chunkLoop size fuel columns) =
      Tx.inBatches
        (fun i column =>
          .ok (columnRow ext schemaUuid columnUuid i column))
        .insertColumns (chunkIndex * size)
        (chunkLoop size fuel columns) := by
  induction fuel generalizing chunkIndex columns with
  | zero => rfl
  | succ fuel ih =>
      cases columns with
      | nil => rfl
      | cons column rest =>
          have hNext :
              insertColumnChunks ext schemaUuid columnUuid
                  size (chunkIndex + 1)
                  (chunkLoop size fuel
                    ((column :: rest).drop size)) =
                Tx.inBatches
                  (fun i column =>
                    .ok (columnRow ext schemaUuid columnUuid
                      i column))
                  .insertColumns
                  (chunkIndex * size +
                    ((column :: rest).take size).length)
                  (chunkLoop size fuel
                    ((column :: rest).drop size)) := by
            by_cases hLast :
                (column :: rest).length ≤ size
            · rw [List.drop_eq_nil_of_le hLast]
              cases fuel <;> rfl
            · have hFull :
                  ((column :: rest).take size).length =
                    size := by
                rw [List.length_take]
                omega
              rw [ih, hFull, Nat.add_mul, Nat.one_mul]
          rw [chunkLoop, insertColumnChunks, Tx.inBatches,
            buildFrom_total fun _ _ _ => rfl, columnRows_eq]
          simp only [hNext]
          rfl

------------------------------------------------------------
-- What the Loops Do
------------------------------------------------------------

variable
  {ext : External}
  {tableUuid schemaUuid : Uuid}
  {transactionId : TxnId}
  {fileUuid columnUuid : Nat → Uuid}
  {db db' : Database}

/- The chunks of files act like one insert of their rows. -/
theorem exec_insertFileChunks
    {files : List FileSpec} :
    (insertFileChunks ext tableUuid transactionId fileUuid 0
        (chunks batchInsertFilesChunk files)).exec sqlStore
          db = .ok ((), db') ↔
      ∃ rows,
        fileRows ext tableUuid transactionId fileUuid 0
            files = .ok rows ∧
          db.check (.insertFiles rows) = .ok () ∧
          db' = db.effect (.insertFiles rows) := by
  rw [insertFileChunks_eq, fileRows_eq,
    Tx.exec_inBatches batched_insertFiles,
    flatten_chunks (by decide)]
  rfl

/- The chunks of UUIDs act like one update. -/
theorem exec_markFileChunks
    {fileUuids : List Uuid} :
    (markFileChunks tableUuid transactionId
        (chunks batchDeleteFilesChunk fileUuids)).exec
          sqlStore db = .ok ((), db') ↔
      db.check (.markFilesRemoved transactionId tableUuid
          fileUuids) = .ok () ∧
        db' = db.effect (.markFilesRemoved transactionId
          tableUuid fileUuids) := by
  rw [markFileChunks_eq _ _ 0,
    Tx.exec_inBatches (batched_markFilesRemoved _ _),
    flatten_chunks (by decide),
    buildFrom_total fun _ _ _ => rfl, mapIdx_const,
    List.map_id']
  constructor
  · rintro ⟨uuids, hUuids, hOk⟩
    cases hUuids
    exact hOk
  · intro hOk
    exact ⟨fileUuids, rfl, hOk⟩

/- The chunks of columns act like one insert. -/
theorem exec_insertColumns
    {kind : DbKind}
    {columns : List ColumnSpec} :
    (insertColumns ext kind schemaUuid columnUuid
        columns).exec sqlStore db = .ok ((), db') ↔
      db.check (.insertColumns (columnRows ext schemaUuid
          columnUuid 0 columns)) = .ok () ∧
        db' = db.effect (.insertColumns (columnRows ext
          schemaUuid columnUuid 0 columns)) := by
  have hSize : 0 < batchInsertColumnsChunk kind := by
    rw [batchInsertColumnsChunk_eq]
    decide
  unfold insertColumns chunks
  rw [insertColumnChunks_eq, Nat.zero_mul,
    Tx.exec_inBatches batched_insertColumns,
    flatten_chunkLoop hSize (Nat.le_refl _),
    buildFrom_total fun _ _ _ => rfl, columnRows_eq]
  constructor
  · rintro ⟨rows, hRows, hOk⟩
    cases hRows
    exact hOk
  · intro hOk
    exact ⟨_, rfl, hOk⟩

end Planar
