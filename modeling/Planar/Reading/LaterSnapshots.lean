import Planar.Reading.LaterReads
import Planar.Reading.Success

/-
  What a later read of the same snapshot returns: the view
  of the read before, with the stamps that later
  transactions have set.

  Main declarations:
    * `TableView.after`
    * `Grown.selectSchema`, `Grown.visibleFiles`
    * `Grown.exec_fetchSchema`, `Grown.exec_fetchFiles`
    * `Grown.readParts`
-/

------------------------------------------------------------
-- Later Views
------------------------------------------------------------

namespace Planar

variable
  {ext : External}
  {kind : DbKind}
  {ident : TableIdent}
  {tableUuid : Uuid}
  {h more : History}
  {t : TxnId}

/-
  The view with the stamps of later transactions, and with
  the properties of the time when it is read.
-/
def TableView.after
    (more : History)
    (properties : TableProperties)
    (view : TableView) : TableView :=
  { view with
    schema := view.schema.after more
    files := view.files.map (File.after more)
    properties := properties }

/- A stamp of a later transaction hides nothing before. -/
theorem FileRow.isVisibleAt_after
    (hLater : ∀ i ∈ more.ids, t < i)
    (row : FileRow) :
    (row.after more).isVisibleAt t = row.isVisibleAt t := by
  unfold FileRow.isVisibleAt FileRow.after
  congr 1
  cases row.removedInTransactionId with
  | some removedIn => rfl
  | none =>
      cases hRemoval : removalIn more row.fileUuid with
      | none => rfl
      | some i =>
          exact decide_eq_true
            (hLater i (mem_ids_of_removalIn hRemoval))

theorem mem_ids_of_replacementIn
    {i : TxnId}
    (hReplacement : replacementIn more = some i) :
    i ∈ more.ids := by
  unfold replacementIn at hReplacement
  rcases Option.map_eq_some_iff.mp hReplacement with
    ⟨p, hHead, rfl⟩
  exact History.mem_ids_of_mem_schemaPoints
    (List.mem_of_mem_head? hHead)

theorem SchemaRow.isValidAt_after
    (hLater : ∀ i ∈ more.ids, t < i)
    (row : SchemaRow) :
    (row.after more).isValidAt t = row.isValidAt t := by
  unfold SchemaRow.isValidAt SchemaRow.after
  congr 1
  cases row.validToTransactionId with
  | some validTo => rfl
  | none =>
      cases hReplacement : replacementIn more with
      | none => rfl
      | some i =>
          exact decide_eq_true
            (hLater i (mem_ids_of_replacementIn hReplacement))

------------------------------------------------------------
-- Databases that Have Grown
------------------------------------------------------------

namespace Grown

variable {db db' : Database}

/- The schema in force at an older transaction. -/
theorem validSchemas
    (hGrown : Grown ext db db' tableUuid h more)
    (hLater : ∀ i ∈ more.ids, t < i) :
    (db'.schemasOf tableUuid).filter
        (SchemaRow.isValidAt t) =
      ((db.schemasOf tableUuid).filter
        (SchemaRow.isValidAt t)).map
          (SchemaRow.after more) := by
  rcases hGrown.schemasOf with ⟨new, hSchemas, hNew⟩
  rw [hSchemas]
  apply filter_map_append
  · intro row _
    exact row.isValidAt_after hLater
  · intro row hRow
    rw [Bool.eq_false_iff]
    intro hValid
    rw [SchemaRow.isValidAt, Bool.and_eq_true] at hValid
    exact absurd (of_decide_eq_true hValid.1)
      (not_le.mpr (hLater _ (hNew row hRow)))

/- Where only one schema is valid, the order is of no account. -/
theorem selectSchema
    (hGrown : Grown ext db db' tableUuid h more)
    (hLater : ∀ i ∈ more.ids, t < i)
    (hOne :
      ((db.schemasOf tableUuid).filter
        (SchemaRow.isValidAt t)).length ≤ 1) :
    Planar.selectSchema ext tableUuid t db' =
      (Planar.selectSchema ext tableUuid t db).map
        (SchemaRow.after more) := by
  unfold Planar.selectSchema
  rw [hGrown.validSchemas hLater]
  rcases nil_or_singleton hOne with hNone | ⟨row, hRow⟩
  · rw [hNone, List.map_nil,
      RowOrder.first_eq_none_iff.mpr rfl]
    rfl
  · rw [hRow, List.map_singleton, RowOrder.first_singleton,
      RowOrder.first_singleton]
    rfl

/- The files visible at an older transaction. -/
theorem visibleFiles
    (hGrown : Grown ext db db' tableUuid h more)
    (hLater : ∀ i ∈ more.ids, t < i) :
    db'.visibleFiles tableUuid t =
      (db.visibleFiles tableUuid t).map
        (FileRow.after more) := by
  rcases hGrown.filesOf with ⟨new, hFiles, hNew⟩
  unfold Database.visibleFiles
  rw [hFiles]
  apply filter_map_append
  · intro row _
    exact row.isVisibleAt_after hLater
  · intro row hRow
    rw [Bool.eq_false_iff]
    intro hVisible
    rw [FileRow.isVisibleAt, Bool.and_eq_true] at hVisible
    exact absurd (of_decide_eq_true hVisible.1)
      (not_le.mpr (hLater _ (hNew row hRow).1))

theorem exec_fetchSchema
    {schema : Schema}
    (hGrown : Grown ext db db' tableUuid h more)
    (hLater : ∀ i ∈ more.ids, t < i)
    (hOne :
      ((db.schemasOf tableUuid).filter
        (SchemaRow.isValidAt t)).length ≤ 1)
    (hOk :
      (fetchSchema ext kind ident tableUuid t).exec db =
        .ok schema) :
    (fetchSchema ext kind ident tableUuid t).exec db' =
      .ok (schema.after more) := by
  unfold fetchSchema at hOk ⊢
  rw [Query.exec_bind_of_ok (Query.exec_fetch ..)] at hOk ⊢
  rw [hGrown.selectSchema hLater hOne]
  cases hFound : Planar.selectSchema ext tableUuid t db with
  | none =>
      rw [hFound] at hOk
      cases hOk
  | some row =>
      rw [hFound] at hOk
      dsimp only [Option.map_some] at hOk ⊢
      rw [Query.exec_bind] at hOk ⊢
      rcases bind_ok.mp hOk with ⟨columns, hColumns, hRest⟩
      have hColumns' := hGrown.exec_fetchColumns
        (mem_selectSchema hFound).1 hColumns
      exact bind_ok.mpr
        ⟨columns, hColumns', decodeSchema_after hRest⟩

/- The same files are fetched, in some order. -/
theorem exec_fetchFiles
    {files : List File}
    (hGrown : Grown ext db db' tableUuid h more)
    (hLater : ∀ i ∈ more.ids, t < i)
    (hOk :
      (fetchFiles ext tableUuid t).exec db = .ok files) :
    ∃ files',
      (fetchFiles ext tableUuid t).exec db' = .ok files' ∧
      files'.Perm (files.map (File.after more)) := by
  rcases filesSeen_of_exec hOk with
    ⟨hFew, decoded, hDecoded, hPerm⟩
  have hAfter := decodeFiles_after more hDecoded
  rw [← hGrown.visibleFiles hLater] at hAfter
  have hLimit :
      (decoded.map (File.after more)).length ≤
        maxFilesPerQuery := by
    rw [List.length_map,
      ← (decodeFiles_ok hDecoded).length_eq]
    exact hFew
  rcases (exec_fetchFiles_of_decodes hAfter).1 hLimit with
    ⟨files', hFiles', hSame⟩
  exact ⟨files', hFiles', hSame.trans (hPerm.symm.map _)⟩

end Grown

------------------------------------------------------------
-- Reading Again
------------------------------------------------------------

/-
  The parts of the same read of a database that has grown,
  where one schema was valid.
-/
theorem Grown.readParts
    {catalog : SqlCatalog}
    {db db' : Database}
    {row row' : TableRow}
    {view : TableView}
    {files : List File}
    {properties : TableProperties}
    (hGrown : Grown ext db db' row.tableUuid h more)
    (hLater : ∀ i ∈ more.ids, t < i)
    (hOne :
      ((db.schemasOf row.tableUuid).filter
        (SchemaRow.isValidAt t)).length ≤ 1)
    (hUuid : row'.tableUuid = row.tableUuid)
    (hReader : row'.minReaderVersion = row.minReaderVersion)
    (hParsed :
      parseTableProperties ext row'.properties =
        .ok properties)
    (hFiles :
      (fetchFiles ext row.tableUuid t).exec db' =
        .ok files)
    (hParts :
      ReadParts ext catalog ident t db row view) :
    ReadParts ext catalog ident t db' row'
      { view.after more properties with files := files } := by
  constructor
  case viewIdent => exact hParts.viewIdent
  case tableUuid => exact hParts.tableUuid.trans hUuid.symm
  case transactionId => exact hParts.transactionId
  case properties => exact hParsed
  case reader => exact hReader ▸ hParts.reader
  case schema =>
    exact hUuid ▸ hGrown.exec_fetchSchema hLater hOne
      hParts.schema
  case files => exact hUuid ▸ hFiles
  case stats => exact hParts.stats

end Planar
