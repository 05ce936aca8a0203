import Planar.Reading.Success

/-
  What a read takes of a history whose ids are in any order:
  the files and the version whose intervals of ids contain
  the transaction.

  Main declarations:
    * `History.filesAt`, `History.versionAt`
    * `History.CanReadAt`
    * `ReadParts.canReadAt`, `Holds.exists_readParts`
-/

------------------------------------------------------------
-- Intervals of Ids
------------------------------------------------------------

namespace Planar

namespace History

/- The files whose interval contains the transaction. -/
def filesAt
    (h : History)
    (t : TxnId) : List FileContents :=
  ((stampLog h.fileLog).filter (Stamped.visibleAt t)).map
    Stamped.item

/-
  The version that a database takes at a transaction: the
  first, in its own order, of those whose interval contains
  it.
-/
def versionAt
    (h : History)
    (orders : RowOrders)
    (tableUuid : Uuid)
    (t : TxnId) : Option SchemaRow :=
  orders.validSchemas.first
    ((schemaRows tableUuid h.schemaPoints).filter
      (SchemaRow.isValidAt t))

/-
  There is a version to be taken, and neither its columns
  nor the files are more than a read returns.
-/
structure CanReadAt
    (h : History)
    (orders : RowOrders)
    (tableUuid : Uuid)
    (t : TxnId) : Prop where
  version :
    ∃ row ∈ h.versionAt orders tableUuid t,
      ∃ p ∈ h.schemaPoints,
        p.2.schemaUuid = row.schemaUuid ∧
        p.2.columns.length ≤ maxColumnsPerSchema
  files : (h.filesAt t).length ≤ maxFilesPerQuery

end History

variable
  {ext : External}
  {catalog : SqlCatalog}
  {ident : TableIdent}
  {db : Database}
  {tableUuid : Uuid}
  {h : History}
  {t : TxnId}

theorem Stored.selectSchema_versionAt
    (hStored : Stored ext db tableUuid h) :
    selectSchema ext tableUuid t db =
      h.versionAt ext.orders tableUuid t := by
  rw [selectSchema, hStored.schemas, History.versionAt]

theorem Stored.length_visibleFiles
    (hStored : Stored ext db tableUuid h) :
    (db.visibleFiles tableUuid t).length =
      (h.filesAt t).length := by
  rw [hStored.visibleFiles_eq, History.filesAt,
    List.length_map, List.length_map]

------------------------------------------------------------
-- Reads at a Transaction
------------------------------------------------------------

/- What a read has returned could be read. -/
theorem ReadParts.canReadAt
    {row : TableRow}
    {view : TableView}
    (hParts : ReadParts ext catalog ident t db row view)
    (hStored : Stored ext db row.tableUuid h) :
    h.CanReadAt ext.orders row.tableUuid t := by
  rcases (schemaSeen_of_exec hParts.schema).seen with
    ⟨version, columns, hVersion, hLimit, _, _⟩
  have hRow := (mem_selectSchema hVersion).1
  rw [hStored.schemas] at hRow
  rcases exists_point_of_mem hRow with ⟨p, hPoint, hUuid⟩
  rw [hStored.selectSchema_versionAt] at hVersion
  constructor
  case version =>
    refine ⟨version, hVersion, p, hPoint, hUuid, ?_⟩
    rw [← hUuid, length_selectColumns
      (hStored.columns p hPoint)] at hLimit
    omega
  case files =>
    rw [← hStored.length_visibleFiles]
    exact (filesSeen_of_exec hParts.files).limit

/- The files are fetched up to the limit. -/
theorem Holds.exec_fetchFiles_at
    (hHolds : Holds ext db tableUuid h)
    (hSerialized : Serialized ext db.jsonTexts)
    (hReads : ReadsBack ext h)
    (hFew : (h.filesAt t).length ≤ maxFilesPerQuery) :
    ∃ files,
      (fetchFiles ext tableUuid t).exec db = .ok files := by
  have hOk :
      decodeFiles ext (db.visibleFiles tableUuid t) =
        .ok (((stampLog h.fileLog).filter
          (Stamped.visibleAt t)).map
            (stampedFile tableUuid)) := by
    rw [hHolds.visibleFiles_eq]
    apply decodeFiles_of_holds hHolds.toStored hSerialized
      (fun s hs => List.mem_of_mem_filter hs)
    intro s hs v hv
    have hFile : s.item ∈ h.appended := by
      rw [← History.items_fileLog]
      exact List.mem_map_of_mem (List.mem_of_mem_filter hs)
    rcases List.mem_flatMap.mp hFile with
      ⟨e, hEntry, hItem⟩
    exact hReads.files e hEntry _ hItem v hv
  rw [History.filesAt, List.length_map] at hFew
  rcases (exec_fetchFiles_of_decodes hOk).1
    (by rwa [List.length_map]) with ⟨files, hFiles, _⟩
  exact ⟨files, hFiles⟩

/- On SQLite the schema is fetched up to the limit. -/
theorem Stored.exec_fetchSchema_at
    (hStored : Stored ext db tableUuid h)
    (hReads : ReadsBack ext h)
    (hCan : h.CanReadAt ext.orders tableUuid t) :
    ∃ schema,
      (fetchSchema ext .sqlite ident tableUuid t).exec db =
        .ok schema := by
  rcases hCan.version with
    ⟨row, hVersion, p, hPoint, hUuid, hCount⟩
  rcases exec_fetchColumns_of_reads
    (hStored.columns p hPoint) hCount
    (hReads.types p hPoint) "column count" with
    ⟨columns, hColumns⟩
  rcases decodeSchema_sqlite row columns with
    ⟨schema, hSchema⟩
  rw [hUuid] at hColumns
  refine ⟨schema, ?_⟩
  rw [fetchSchema,
    Query.exec_bind_of_ok (Query.exec_fetch ..),
    hStored.selectSchema_versionAt, Option.mem_def.mp hVersion]
  dsimp only
  rw [Query.exec_bind_of_ok hColumns, Query.exec_lift,
    hSchema]

/- On SQLite all that can be read is read. -/
theorem Holds.exists_readParts
    {row : TableRow}
    {properties : TableProperties}
    (hHolds : Holds ext db row.tableUuid h)
    (hSerialized : Serialized ext db.jsonTexts)
    (hReads : ReadsBack ext h)
    (hKind : catalog.kind = .sqlite)
    (hParsed :
      parseTableProperties ext row.properties =
        .ok properties)
    (hReader :
      catalog.ensureReaderProtocolCompatible ident
        row.minReaderVersion = .ok ())
    (hCan : h.CanReadAt ext.orders row.tableUuid t) :
    ∃ view, ReadParts ext catalog ident t db row view := by
  apply exists_readParts_iff.mpr
  refine ⟨⟨_, hParsed⟩, hReader, ?_, ?_⟩
  · rw [hKind]
    exact hHolds.toStored.exec_fetchSchema_at hReads hCan
  · exact hHolds.exec_fetchFiles_at hSerialized hReads
      hCan.files

end Planar
