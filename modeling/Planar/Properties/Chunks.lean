import Planar.Catalog.ChunkedStatements
import Planar.Catalog.Placeholders
import Planar.Properties.TimeTravel
import Planar.Properties.WideSchemas

/-
  The chunked statements against one statement for each
  element.

  Main declarations:
    * `insertFilesOneByOne`, `markFilesOneByOne`,
      `insertColumnsOneByOne`
    * `ChunksFaithful`, `ChunksFit`
    * `chunksFaithful_iff`
-/

------------------------------------------------------------
-- Statements One by One
------------------------------------------------------------

namespace Planar

/- One insert for each file, in the order of the list. -/
def insertFilesOneByOne
    (ext : External)
    (tableUuid : Uuid)
    (transactionId : TxnId)
    (fileUuid : Nat → Uuid)
    (files : List FileSpec) : CatalogTx Unit :=
  Tx.oneByOne
    (fun i f =>
      fileRow ext tableUuid transactionId (fileUuid i) f)
    .insertFiles 0 files

/- One update for each file UUID. -/
def markFilesOneByOne
    (tableUuid : Uuid)
    (transactionId : TxnId)
    (fileUuids : List Uuid) : CatalogTx Unit :=
  Tx.oneByOne (fun _ fileUuid => .ok fileUuid)
    (.markFilesRemoved transactionId tableUuid) 0 fileUuids

/- One insert for each column. -/
def insertColumnsOneByOne
    (ext : External)
    (schemaUuid : Uuid)
    (columnUuid : Nat → Uuid)
    (columns : List ColumnSpec) : CatalogTx Unit :=
  Tx.oneByOne
    (fun i column =>
      .ok (columnRow ext schemaUuid columnUuid i column))
    .insertColumns 0 columns

------------------------------------------------------------
-- Ordinals and Placeholders
------------------------------------------------------------

/- The rows that the loop over the chunks inserts. -/
def columnChunkRows
    (ext : External)
    (schemaUuid : Uuid)
    (columnUuid : Nat → Uuid)
    (chunkSize chunkIndex : Nat) :
    List (List ColumnSpec) → List (List ColumnRow)
| [] => []
| chunk :: rest =>
    columnRows ext schemaUuid columnUuid
      (chunkIndex * chunkSize) chunk ::
        columnChunkRows ext schemaUuid columnUuid chunkSize
          (chunkIndex + 1) rest

theorem insertColumnChunks_rows
    (ext : External)
    (schemaUuid : Uuid)
    (columnUuid : Nat → Uuid)
    (chunkSize chunkIndex : Nat)
    (pieces : List (List ColumnSpec)) :
    insertColumnChunks ext schemaUuid columnUuid chunkSize
        chunkIndex pieces =
      (columnChunkRows ext schemaUuid columnUuid chunkSize
        chunkIndex pieces).foldr
          (fun rows rest => do
            Tx.execute (.insertColumns rows)
            rest)
          (pure ()) := by
  induction pieces generalizing chunkIndex with
  | nil => rfl
  | cons chunk rest ih =>
      rw [insertColumnChunks, columnChunkRows,
        List.foldr_cons, ih]

/- The rows of two runs of columns, one after the other. -/
theorem columnRows_append
    (ext : External)
    (schemaUuid : Uuid)
    (columnUuid : Nat → Uuid)
    (start : Nat)
    (first second : List ColumnSpec) :
    columnRows ext schemaUuid columnUuid start
        (first ++ second) =
      columnRows ext schemaUuid columnUuid start first ++
        columnRows ext schemaUuid columnUuid
          (start + first.length) second := by
  unfold columnRows
  rw [List.mapIdx_append]
  congr 1
  apply List.ext_getElem?
  intro i
  have hIndex :
      start + (i + first.length) =
        start + first.length + i := by omega
  simp only [List.getElem?_mapIdx]
  rw [hIndex]

theorem flatten_columnChunkRows
    {ext : External}
    {schemaUuid : Uuid}
    {columnUuid : Nat → Uuid}
    {size fuel chunkIndex : Nat}
    {columns : List ColumnSpec}
    (hSize : 0 < size)
    (hFuel : columns.length ≤ fuel) :
    (columnChunkRows ext schemaUuid columnUuid size
        chunkIndex (chunkLoop size fuel columns)).flatten =
      columnRows ext schemaUuid columnUuid
        (chunkIndex * size) columns := by
  induction fuel generalizing chunkIndex columns with
  | zero =>
      rw [List.length_eq_zero_iff.mp
        (Nat.le_zero.mp hFuel)]
      rfl
  | succ fuel ih =>
      cases columns with
      | nil => rfl
      | cons column rest =>
          have hRest :
              ((column :: rest).drop size).length ≤
                fuel := by
            rw [List.length_drop]
            omega
          rw [chunkLoop, columnChunkRows, List.flatten_cons,
            ih hRest]
          have hSplit :=
            List.take_append_drop size (column :: rest)
          by_cases hLast : (column :: rest).length ≤ size
          · rw [List.drop_eq_nil_of_le hLast,
              List.take_of_length_le hLast]
            exact List.append_nil _
          · have hFull :
                ((column :: rest).take size).length =
                  size := by
              rw [List.length_take]
              omega
            conv_rhs => rw [← hSplit]
            rw [columnRows_append, hFull, Nat.add_mul,
              Nat.one_mul]

theorem asI32_lt
    (n : Int) :
    asI32 n < 2 ^ 31 :=
  Int.bmod_lt (by decide)

/- Positions come out while they fit in an `i32`. -/
theorem positions_iff
    {α : Type}
    {l : List α} :
    (l.mapIdx fun i _ => asI32 ((i + 1 : Nat) : Int)) =
        (List.range' 1 l.length).map
          (fun n : Nat => (n : Int)) ↔
      l.length < 2 ^ 31 := by
  constructor
  · intro hEq
    by_cases hEmpty : l.length = 0
    · omega
    · have hLast : l.length - 1 < l.length := by
        omega
      have hAt := congrArg (·[l.length - 1]?) hEq
      simp only [List.getElem?_map,
        List.getElem?_mapIdx] at hAt
      rw [List.getElem?_range' hLast,
        List.getElem?_eq_getElem hLast] at hAt
      simp only [Option.map_some, Option.some.injEq] at hAt
      have hLess :=
        asI32_lt ((l.length - 1 + 1 : Nat) : Int)
      rw [hAt] at hLess
      omega
  · intro hFits
    apply List.ext_getElem
    · simp
    · intro i hLeft hRight
      have hIndex : i < l.length := by
        simpa using hLeft
      have hCast :
          asI32 ((i + 1 : Nat) : Int) =
            ((i + 1 : Nat) : Int) :=
        asI32_of_lt (by omega)
      simp only [List.getElem_map, List.getElem_mapIdx,
        List.getElem_range', hCast]
      omega

/- The ordinals are the positions of the columns. -/
theorem ordinals_iff
    {ext : External}
    {schemaUuid : Uuid}
    {columnUuid : Nat → Uuid}
    {columns : List ColumnSpec} :
    (columnRows ext schemaUuid columnUuid 0 columns).map
          ColumnRow.ordinalPosition =
        (List.range' 1 columns.length).map
          (fun n : Nat => (n : Int)) ↔
      columns.length < 2 ^ 31 := by
  rw [columnRows, map_mapIdx]
  simp only [Nat.zero_add]
  exact positions_iff

/-
  The chunked statements of a commit and of a creation: they
  end like one statement for each element, the ordinals are
  the positions, and each placeholder has its value.
-/
structure ChunksFaithful
    (ext : External)
    (kind : DbKind)
    (chunkSize : Nat)
    (files : List FileSpec)
    (fileUuids : List Uuid)
    (columns : List ColumnSpec) : Prop where
  sameFiles : ∀ tableUuid transactionId fileUuid db,
    (Tx.exec sqlStore db
        (insertFileChunks ext tableUuid transactionId
          fileUuid 0 (chunks chunkSize files))).toOption =
      (Tx.exec sqlStore db
        (insertFilesOneByOne ext tableUuid transactionId
          fileUuid files)).toOption
  sameRemovals : ∀ tableUuid transactionId db,
    (Tx.exec sqlStore db
        (markFileChunks tableUuid transactionId
          (chunks chunkSize fileUuids))).toOption =
      (Tx.exec sqlStore db
        (markFilesOneByOne tableUuid transactionId
          fileUuids)).toOption
  sameColumns : ∀ schemaUuid columnUuid db,
    (Tx.exec sqlStore db
        (insertColumnChunks ext schemaUuid columnUuid
          chunkSize 0 (chunks chunkSize columns))).toOption =
      (Tx.exec sqlStore db
        (insertColumnsOneByOne ext schemaUuid columnUuid
          columns)).toOption
  ordinals : ∀ schemaUuid columnUuid,
    (columnChunkRows ext schemaUuid columnUuid chunkSize 0
        (chunks chunkSize columns)).flatten.map
          ColumnRow.ordinalPosition =
      (List.range' 1 columns.length).map
        (fun n : Nat => (n : Int))
  boundFiles : ∀ chunk ∈ chunks chunkSize files,
    ∀ rows : List FileRow, rows.length = chunk.length →
      Bound
        (insertPlaceholders kind fileInsertParamsPerRow
          rows.length)
        (rows.map FileRow.binds)
  boundRemovals : ∀ chunk ∈ chunks chunkSize fileUuids,
    ∀ tableUuid transactionId,
      Bound [deletePlaceholders kind chunk.length]
        [deleteBinds transactionId tableUuid chunk]
  boundColumns : ∀ chunk ∈ chunks chunkSize columns,
    ∀ rows : List ColumnRow, rows.length = chunk.length →
      Bound
        (insertPlaceholders kind columnInsertParamsPerRow
          rows.length)
        (rows.map ColumnRow.binds)

/-
  The ordinals fit in an `i32`, and on Postgres the numbers
  of the parameters of each insert fit in a `u32`.
-/
def ChunksFit
    (kind : DbKind)
    (chunkSize : Nat)
    (files : List FileSpec)
    (columns : List ColumnSpec) : Prop :=
  columns.length < 2 ^ 31 ∧
    (kind = .postgres →
      min chunkSize files.length *
          fileInsertParamsPerRow < 2 ^ 32 ∧
        min chunkSize columns.length *
          columnInsertParamsPerRow < 2 ^ 32)

/- The placeholders of all chunks of an insert. -/
theorem forall_bound_iff
    {α ρ : Type}
    [Nonempty ρ]
    {paramsPerRow : Nat}
    (binds : ρ → List BindValue)
    (hWidth : ∀ row, (binds row).length = paramsPerRow)
    (kind : DbKind)
    (chunkSize : Nat)
    (l : List α) :
    (∀ chunk ∈ chunks chunkSize l, ∀ rows : List ρ,
        rows.length = chunk.length →
          Bound
            (insertPlaceholders kind paramsPerRow
              rows.length)
            (rows.map binds)) ↔
      (kind = .postgres →
        min chunkSize l.length * paramsPerRow < 2 ^ 32) := by
  have hBound (rows : List ρ) :
      Bound
          (insertPlaceholders kind paramsPerRow rows.length)
          (rows.map binds) ↔
        (kind = .postgres →
          rows.length * paramsPerRow < 2 ^ 32) := by
    have hAll : ∀ row ∈ rows.map binds,
        row.length = paramsPerRow := by
      intro row hMem
      rcases List.mem_map.mp hMem with ⟨r, _, rfl⟩
      exact hWidth r
    have hIff :
        Bound
            (insertPlaceholders kind paramsPerRow
              (rows.map binds).length)
            (rows.map binds) ↔ _ :=
      bound_insert_iff hAll
    rwa [List.length_map] at hIff
  have hChunks :
      (∀ chunk ∈ chunks chunkSize l,
        kind = .postgres →
          chunk.length * paramsPerRow < 2 ^ 32) ↔
      (kind = .postgres →
        min chunkSize l.length * paramsPerRow < 2 ^ 32) := by
    apply forall_chunks_length
      (P := fun n =>
        kind = .postgres → n * paramsPerRow < 2 ^ 32)
    · intro m n hLe hFits hKind
      have hMul := Nat.mul_le_mul_right paramsPerRow hLe
      exact Nat.lt_of_le_of_lt hMul (hFits hKind)
    · intro _
      rw [Nat.zero_mul]
      decide
  rw [← hChunks]
  constructor
  · intro hAll chunk hMem
    have hRows :
        (List.replicate chunk.length
          (Classical.arbitrary ρ)).length = chunk.length :=
      List.length_replicate
    have hFits := (hBound _).mp (hAll chunk hMem _ hRows)
    rwa [hRows] at hFits
  · intro hAll chunk hMem rows hRows
    apply (hBound rows).mpr
    rw [hRows]
    exact hAll chunk hMem

instance instNonemptyFileRow : Nonempty FileRow :=
  ⟨⟨0, 0, "", "", 0, 0, 0, none, none, none⟩⟩

instance instNonemptyColumnRow : Nonempty ColumnRow :=
  ⟨⟨0, 0, "", [], 0, false⟩⟩

/- The ordinals of all chunks together. -/
theorem chunkOrdinals_iff
    {ext : External}
    {schemaUuid : Uuid}
    {columnUuid : Nat → Uuid}
    {chunkSize : Nat}
    {columns : List ColumnSpec}
    (hSize : 0 < chunkSize) :
    (columnChunkRows ext schemaUuid columnUuid chunkSize 0
          (chunks chunkSize columns)).flatten.map
            ColumnRow.ordinalPosition =
        (List.range' 1 columns.length).map
          (fun n : Nat => (n : Int)) ↔
      columns.length < 2 ^ 31 := by
  have hFlat :
      (columnChunkRows ext schemaUuid columnUuid chunkSize 0
          (chunks chunkSize columns)).flatten =
        columnRows ext schemaUuid columnUuid
          (0 * chunkSize) columns :=
    flatten_columnChunkRows hSize (Nat.le_refl _)
  rw [hFlat, Nat.zero_mul]
  exact ordinals_iff

/-
  The chunked statements are faithful exactly while their
  counters do not wrap.
-/
theorem chunksFaithful_iff
    {ext : External}
    {kind : DbKind}
    {chunkSize : Nat}
    {files : List FileSpec}
    {fileUuids : List Uuid}
    {columns : List ColumnSpec}
    (hSize : 0 < chunkSize) :
    ChunksFaithful ext kind chunkSize files fileUuids
        columns ↔
      ChunksFit kind chunkSize files columns := by
  have hFiles :=
    forall_bound_iff FileRow.binds FileRow.length_binds
      kind chunkSize files
  have hColumns :=
    forall_bound_iff ColumnRow.binds
      ColumnRow.length_binds kind chunkSize columns
  constructor
  · intro hFaithful
    have hOrdinals :=
      chunkOrdinals_iff hSize |>.mp
        (hFaithful.ordinals 0 fun _ => 0)
    exact ⟨hOrdinals, fun hKind =>
      ⟨hFiles.mp hFaithful.boundFiles hKind,
        hColumns.mp hFaithful.boundColumns hKind⟩⟩
  · rintro ⟨hOrdinals, hCounters⟩
    constructor
    case sameFiles =>
      intro tableUuid transactionId fileUuid db
      rw [insertFileChunks_eq]
      exact Tx.toOption_inBatches batched_insertFiles
        (flatten_chunks hSize files) db
    case sameRemovals =>
      intro tableUuid transactionId db
      rw [markFileChunks_eq _ _ 0]
      exact Tx.toOption_inBatches
        (batched_markFilesRemoved transactionId tableUuid)
        (flatten_chunks hSize fileUuids) db
    case sameColumns =>
      intro schemaUuid columnUuid db
      rw [chunks, insertColumnChunks_eq, Nat.zero_mul]
      exact Tx.toOption_inBatches batched_insertColumns
        (flatten_chunks hSize columns) db
    case ordinals =>
      intro schemaUuid columnUuid
      exact (chunkOrdinals_iff hSize).mpr hOrdinals
    case boundFiles =>
      exact hFiles.mpr fun hKind => (hCounters hKind).1
    case boundRemovals =>
      intro chunk _ tableUuid transactionId
      exact bound_delete kind transactionId tableUuid chunk
    case boundColumns =>
      exact hColumns.mpr fun hKind => (hCounters hKind).2

theorem chunksFaithful_sample :
    0 < batchInsertFilesChunk ∧
      ChunksFaithful sampleExternal .postgres
        batchInsertFilesChunk [] [1, 1]
        (wideSchema 250).columns := by
  have hSize : 0 < batchInsertFilesChunk := by
    decide
  refine ⟨hSize, (chunksFaithful_iff hSize).mpr ?_⟩
  unfold ChunksFit
  rw [length_wideSchema]
  decide

/-
  A schema of 2^32 + 1 columns is accepted, and the last
  columns do not get their positions as ordinals.
-/
theorem chunksFaithful_wide :
    (wideSchema (2 ^ 32 + 1)).validate = .ok () ∧
      ¬ ChunksFaithful sampleExternal .sqlite
        (batchInsertColumnsChunk .sqlite) [] []
        (wideSchema (2 ^ 32 + 1)).columns := by
  refine ⟨validate_wideSchema (by decide) (by decide), ?_⟩
  intro hFaithful
  have hFew :=
    (chunkOrdinals_iff (by decide)).mp
      (hFaithful.ordinals 0 fun _ => 0)
  rw [length_wideSchema] at hFew
  omega

end Planar
