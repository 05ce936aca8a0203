import Planar.History.StoredTexts
import Planar.Reading.Records

/-
  What the readers decode when all that is stored reads
  back, and when a read of the head succeeds.

  Main declarations:
    * `Serves`, `Readable`
    * `succeeds_fetchSchema`
    * `exec_fetchFiles`, `exec_readHead`
    * `ReadParts`, `exec_readRow_iff`
-/

------------------------------------------------------------
-- Rows That Decode
------------------------------------------------------------

namespace Planar

variable
  {ext : External}
  {tableUuid : Uuid}

theorem parseJsonOptional_of_reads
    {value : Option Json}
    (hSize : ∀ v ∈ value, ext.FitsJson v)
    (hReads : ∀ v ∈ value, ext.ReadsJson v) :
    parseJsonOptional ext (value.map ext.jsonToString) =
      .ok value := by
  cases value with
  | none => rfl
  | some v =>
      exact bind_ok.mpr
        ⟨v, parseJsonText_of_reads (hSize v rfl)
          (hReads v rfl), rfl⟩

theorem decodeFile_of_reads
    {s : Stamped FileContents TxnId}
    (hSize : ∀ v ∈ s.item.jsonValues, ext.FitsJson v)
    (hReads : ∀ v ∈ s.item.jsonValues, ext.ReadsJson v) :
    decodeFile ext (stampedRow ext tableUuid s) =
      .ok (stampedFile tableUuid s) := by
  have hPartition :=
    @parseJsonOptional_of_reads _ s.item.partitionValues
      (fun v hv => hSize v
        (List.mem_append_left _ (by simpa using hv)))
      (fun v hv => hReads v
        (List.mem_append_left _ (by simpa using hv)))
  have hFormat :=
    @parseJsonOptional_of_reads _ s.item.formatOptions
      (fun v hv => hSize v
        (List.mem_append_right _ (by simpa using hv)))
      (fun v hv => hReads v
        (List.mem_append_right _ (by simpa using hv)))
  exact bind_ok.mpr ⟨_, hPartition,
    bind_ok.mpr ⟨_, hFormat, rfl⟩⟩

theorem decodeFiles_of_reads
    {items : List (Stamped FileContents TxnId)}
    (hSize : ∀ s ∈ items, ∀ v ∈ s.item.jsonValues,
      ext.FitsJson v)
    (hReads : ∀ s ∈ items, ∀ v ∈ s.item.jsonValues,
      ext.ReadsJson v) :
    decodeFiles ext
        (items.map (stampedRow ext tableUuid)) =
      .ok (items.map (stampedFile tableUuid)) := by
  induction items with
  | nil => rfl
  | cons s rest ih =>
      have hRest := ih
        (fun s' hs => hSize s' (List.mem_cons_of_mem _ hs))
        (fun s' hs => hReads s' (List.mem_cons_of_mem _ hs))
      exact bind_ok.mpr ⟨_,
        decodeFile_of_reads
          (hSize s List.mem_cons_self)
          (hReads s List.mem_cons_self),
        bind_ok.mpr ⟨_, hRest, rfl⟩⟩

theorem decodeColumns_of_reads
    {rows : List ColumnRow}
    {specs : List ColumnSpec}
    (hRows : List.Forall₂ (ColumnRow.Encodes ext) rows specs)
    (hReads : ∀ c ∈ specs, ext.ReadsType c.columnType) :
    ∃ columns, decodeColumns ext rows = .ok columns := by
  induction hRows with
  | nil => exact ⟨[], rfl⟩
  | @cons row c rows specs hRow hRest ih =>
      rcases ih fun c hc =>
          hReads c (List.mem_cons_of_mem _ hc) with
        ⟨columns, hColumns⟩
      have hType : decodeDataType ext row.columnType =
          .ok c.columnType := by
        rw [hRow.columnType]
        exact decodeDataType_encodeDataType
          (hReads c List.mem_cons_self)
      exact ⟨_, bind_ok.mpr ⟨_,
        bind_ok.mpr ⟨_, hType, rfl⟩,
        bind_ok.mpr ⟨_, hColumns, rfl⟩⟩⟩

------------------------------------------------------------
-- Databases That Serve a History
------------------------------------------------------------

/-
  The database holds a past of a table, maybe with more
  after it, and every JSON text in it is within the limit.
-/
structure Serves
    (ext : External)
    (tableUuid : Uuid)
    (past : History)
    (Later : History → Prop)
    (db : Database) : Prop where
  holds : ∃ later, Later later ∧
    Holds ext db tableUuid (past ++ later)
  serialized : Serialized ext db.jsonTexts

/-
  What a past stores can be read back: all values read back,
  and the number of columns was not cut by the cast to 32
  bits.
-/
structure Readable
    (ext : External)
    (past : History) : Prop
    extends ReadsBack ext past where
  columns : ∀ p ∈ past.schemaPoints,
    p.2.columns.length < 2 ^ 32

theorem Readable.past
    {past later : History}
    (hReadable : Readable ext (past ++ later)) :
    Readable ext past where
  toReadsBack := hReadable.toReadsBack.past
  columns p hPoint := hReadable.columns p (by simp [hPoint])

theorem fits_of_serialized
    {db : Database}
    {value : Json}
    (hSerialized : Serialized ext db.jsonTexts)
    (hText : ext.jsonToString value ∈ db.jsonTexts) :
    ext.FitsJson value := by
  rcases hSerialized _ hText with ⟨v, hValue⟩
  exact (serializeJson_ok hValue).2

/- The values of a stored file are within the limit. -/
theorem fits_of_row
    {db : Database}
    {s : Stamped FileContents TxnId}
    (hSerialized : Serialized ext db.jsonTexts)
    (hRow : stampedRow ext tableUuid s ∈ db.files) :
    ∀ v ∈ s.item.jsonValues, ext.FitsJson v := by
  intro v hValue
  apply fits_of_serialized hSerialized
  refine List.mem_append_right _
    (List.mem_flatMap.mpr ⟨_, hRow, ?_⟩)
  rcases List.mem_append.mp hValue with hIn | hIn
  · refine List.mem_append_left _ ?_
    simp only [stampedRow, Option.mem_toList] at hIn ⊢
    rw [Option.mem_def.mp hIn]
    rfl
  · refine List.mem_append_right _ ?_
    simp only [stampedRow, Option.mem_toList] at hIn ⊢
    rw [Option.mem_def.mp hIn]
    rfl

/- Rows that stand for readable items decode. -/
theorem decodeFiles_of_holds
    {db : Database}
    {h : History}
    {items : List (Stamped FileContents TxnId)}
    (hStored : Stored ext db tableUuid h)
    (hSerialized : Serialized ext db.jsonTexts)
    (hItems : ∀ s ∈ items, s ∈ stampLog h.fileLog)
    (hReads : ∀ s ∈ items, ∀ v ∈ s.item.jsonValues,
      ext.ReadsJson v) :
    decodeFiles ext
        (items.map (stampedRow ext tableUuid)) =
      .ok (items.map (stampedFile tableUuid)) := by
  apply decodeFiles_of_reads _ hReads
  intro s hs
  have hRow : stampedRow ext tableUuid s ∈
      db.filesOf tableUuid := by
    rw [hStored.files]
    exact List.mem_map_of_mem (hItems s hs)
  exact fits_of_row hSerialized (List.mem_of_mem_filter hRow)

/- Within the cast, a validated schema is within the limit. -/
theorem columns_le_of_valid
    {s : SchemaContents}
    (hValid : (SchemaSpec.mk s.specs).validate = .ok ())
    (hCast : s.columns.length < 2 ^ 32) :
    s.columns.length ≤ maxColumnsPerSchema := by
  have hLimit := (SchemaSpec.validate_ok hValid).2.1
  have hLength : s.specs.length = s.columns.length := by
    simp [SchemaContents.specs]
  rw [hLength, asU32_of_lt hCast] at hLimit
  exact hLimit

/- A read selects as many columns, up to beyond its limit. -/
theorem length_selectColumns
    {db : Database}
    {s : SchemaContents}
    (hColumns :
      db.columnsOf s.schemaUuid = s.columnRows ext) :
    (selectColumns s.schemaUuid db).length =
      min (maxColumnsPerSchema + 1) s.columns.length := by
  rw [selectColumns, List.length_take,
    List.length_insertionSort, hColumns,
    SchemaContents.columnRows, List.length_mapIdx]

/- The columns of a stored schema can be fetched. -/
theorem exec_fetchColumns_of_reads
    {db : Database}
    {s : SchemaContents}
    (hColumns :
      db.columnsOf s.schemaUuid = s.columnRows ext)
    (hCount : s.columns.length ≤ maxColumnsPerSchema)
    (hTypes : ∀ c ∈ s.specs, ext.ReadsType c.columnType)
    (what : String) :
    ∃ columns,
      (fetchColumns ext what s.schemaUuid).exec db =
        .ok columns := by
  have hLimit : (selectColumns s.schemaUuid db).length ≤
      maxColumnsPerSchema := by
    rw [length_selectColumns hColumns]
    omega
  rcases decodeColumns_of_reads (encodes_columnRows ext s)
    hTypes with ⟨columns, hDecode⟩
  refine ⟨columns, ?_⟩
  rw [fetchColumns,
    Query.exec_bind_of_ok (Query.exec_fetch ..),
    if_neg (Nat.not_lt.mpr hLimit), Query.exec_lift,
    selectColumns_eq hColumns hLimit, hDecode]

section Queries

variable
  {kind : DbKind}
  {ident : TableIdent}
  {past : History}
  {Later : History → Prop}
  {Good : Database → Prop}

/- The columns of a stored schema can be fetched. -/
theorem succeeds_fetchColumns
    {p : TxnId × SchemaContents}
    (hGood : ∀ db, Good db →
      Serves ext tableUuid past Later db)
    (hReadable : Readable ext past)
    (hPoint : p ∈ past.schemaPoints)
    (what : String) :
    Query.Succeeds Good (fun _ => True)
      (fetchColumns ext what p.2.schemaUuid) := by
  apply Query.succeeds_fetch_bind
  intro db hDb
  rcases (hGood db hDb).holds with ⟨later, _, hHolds⟩
  have hMember : p ∈ History.schemaPoints (past ++ later) := by
    rw [History.schemaPoints_append]
    exact List.mem_append_left _ hPoint
  have hColumns := hHolds.columns p hMember
  have hCount :=
    columns_le_of_valid (hHolds.lawful.valid p hMember)
      (hReadable.columns p hPoint)
  have hLimit : (selectColumns p.2.schemaUuid db).length ≤
      maxColumnsPerSchema := by
    rw [length_selectColumns hColumns]
    omega
  rcases decodeColumns_of_reads
    (encodes_columnRows ext p.2)
    (hReadable.types p hPoint) with ⟨columns, hDecode⟩
  rw [if_neg (Nat.not_lt.mpr hLimit)]
  refine Query.succeeds_lift (a := columns) ?_ trivial
  rw [selectColumns_eq hColumns hLimit, hDecode]

/- SQLite decodes every time stamp. -/
theorem decodeSchema_sqlite
    (row : SchemaRow)
    (columns : List Column) :
    ∃ schema, decodeSchema .sqlite row columns =
      .ok schema :=
  ⟨_, bind_ok.mpr ⟨_, rfl, rfl⟩⟩

------------------------------------------------------------
-- Reads of the Head
------------------------------------------------------------

/- The schema in force at the end of a past is found. -/
theorem succeeds_fetchSchema
    {t : TxnId}
    (hGood : ∀ db, Good db →
      Serves ext tableUuid past
        (fun later => ∀ i ∈ later.ids, t < i) db)
    (hReadable : Readable ext past)
    (hPast : past ≠ [])
    (hIds : ∀ i ∈ past.ids, i ≤ t) :
    Query.Succeeds Good (fun _ => True)
      (fetchSchema ext .sqlite ident tableUuid t) := by
  apply Query.succeeds_fetch_bind
  intro db hDb
  rcases (hGood db hDb).holds with ⟨later, hLater, hHolds⟩
  have hPoints := History.schemaPoints_ne_nil
    (History.created_past hHolds.lawful.created hPast)
  rcases hLast : past.schemaPoints.getLast? with _ | last
  · exact absurd (List.getLast?_eq_none_iff.mp hLast)
      hPoints
  rw [hHolds.selectSchema_eq hIds hLater hLast]
  have hPoint := List.mem_of_getLast? hLast
  apply (succeeds_fetchColumns hGood hReadable hPoint
    "column count").bind
  intro columns _
  rcases decodeSchema_sqlite
    (versionRow tableUuid (past.schemaPoints.length - 1)
      ⟨last.2, last.1,
        later.schemaPoints.head?.map Prod.fst⟩) columns with
    ⟨schema, hSchema⟩
  exact Query.succeeds_lift hSchema trivial

end Queries

/-
  Rows that decode are fetched in some order, unless there
  are more than the limit.
-/
theorem exec_fetchFiles_of_decodes
    {db : Database}
    {t : TxnId}
    {files : List File}
    (hOk :
      decodeFiles ext (db.visibleFiles tableUuid t) =
        .ok files) :
    (files.length ≤ maxFilesPerQuery →
      ∃ fetched,
        (fetchFiles ext tableUuid t).exec db = .ok fetched ∧
        fetched.Perm files) ∧
    (maxFilesPerQuery < files.length →
      (fetchFiles ext tableUuid t).exec db =
        fault (.limitExceeded
          s!"file count exceeds limit of {maxFilesPerQuery}"
        )) := by
  have hLength :
      (db.visibleFiles tableUuid t).length = files.length :=
    (decodeFiles_ok hOk).length_eq
  unfold fetchFiles
  rw [Query.exec_bind_of_ok (Query.exec_fetch ..)]
  constructor
  · intro hFew
    rw [← hLength] at hFew
    rw [if_neg (length_selectVisible.not.mpr
      (Nat.not_lt.mpr hFew)), selectVisible_eq hFew]
    rcases filesOf_perm
      (ext.orders.visibleFiles.perm _).symm hOk with
      ⟨fetched, hFetched, hPerm⟩
    exact ⟨fetched, hFetched, hPerm.symm⟩
  · intro hMany
    rw [← hLength] at hMany
    rw [if_pos (length_selectVisible.mpr hMany)]
    rfl

/- What decides whether the files can be fetched. -/
theorem exists_fetchFiles_iff
    {db : Database}
    {t : TxnId} :
    (∃ files,
      (fetchFiles ext tableUuid t).exec db = .ok files) ↔
      (db.visibleFiles tableUuid t).length ≤
          maxFilesPerQuery ∧
        ∃ files,
          decodeFiles ext (db.visibleFiles tableUuid t) =
            .ok files := by
  constructor
  · rintro ⟨files, hOk⟩
    rcases filesSeen_of_exec hOk with
      ⟨hFew, decoded, hDecoded, _⟩
    exact ⟨hFew, decoded, hDecoded⟩
  · rintro ⟨hFew, files, hOk⟩
    rw [(decodeFiles_ok hOk).length_eq] at hFew
    rcases (exec_fetchFiles_of_decodes hOk).1 hFew with
      ⟨fetched, hFetched, _⟩
    exact ⟨fetched, hFetched⟩

/-
  The files of a past are fetched unless there are more than
  the limit.
-/
theorem exec_fetchFiles
    {db : Database}
    {past later : History}
    {t : TxnId}
    (hHolds : Holds ext db tableUuid (past ++ later))
    (hSerialized : Serialized ext db.jsonTexts)
    (hReads : ReadsBack ext past)
    (hPast : ∀ i ∈ past.ids, i ≤ t)
    (hLater : ∀ i ∈ later.ids, t < i) :
    (past.files.length ≤ maxFilesPerQuery →
      ∃ files, (fetchFiles ext tableUuid t).exec db =
        .ok files) ∧
    (maxFilesPerQuery < past.files.length →
      (fetchFiles ext tableUuid t).exec db =
        fault (.limitExceeded
          s!"file count exceeds limit of {maxFilesPerQuery}"
        )) := by
  have hVisible := visible_fileLog hPast hLater
  have hOk :
      decodeFiles ext (db.visibleFiles tableUuid t) =
        .ok (((stampLog
          (History.fileLog (past ++ later))).filter
            (Stamped.visibleAt t)).map
              (stampedFile tableUuid)) := by
    rw [hHolds.visibleFiles_eq]
    apply decodeFiles_of_holds hHolds.toStored hSerialized
      (fun s hs => List.mem_of_mem_filter hs)
    intro s hs v hv
    have hFile : s.item ∈ past.files := by
      rw [← hVisible]
      exact List.mem_map_of_mem hs
    rcases History.mem_files hFile with ⟨e, hEntry, hItem⟩
    exact hReads.files e hEntry _ hItem v hv
  have hLength :
      ((stampLog
        (History.fileLog (past ++ later))).filter
          (Stamped.visibleAt t)).length =
        past.files.length := by
    rw [← hVisible, List.length_map]
  have hFetch := exec_fetchFiles_of_decodes hOk
  rw [List.length_map, hLength] at hFetch
  refine ⟨fun hFew => ?_, hFetch.2⟩
  rcases hFetch.1 hFew with ⟨files, hFiles, _⟩
  exact ⟨files, hFiles⟩

theorem exec_fetchHeadFiles
    {db : Database}
    {h : History}
    {t : TxnId}
    (hHolds : Holds ext db tableUuid h)
    (hSerialized : Serialized ext db.jsonTexts)
    (hReads : ReadsBack ext h)
    (hIds : ∀ i ∈ h.ids, i ≤ t) :
    (h.files.length ≤ maxFilesPerQuery →
      ∃ files, (fetchFiles ext tableUuid t).exec db =
        .ok files) ∧
    (maxFilesPerQuery < h.files.length →
      (fetchFiles ext tableUuid t).exec db =
        fault (.limitExceeded
          s!"file count exceeds limit of {maxFilesPerQuery}"
        )) := by
  have hNone : ∀ i ∈ History.ids [], t < i := by
    simp [History.ids]
  rw [← List.append_nil h] at hHolds
  exact exec_fetchFiles hHolds hSerialized hReads hIds hNone

/- No call of the catalog writes statistics. -/
theorem exec_fetchStats
    {tableUuid : Uuid}
    {t : TxnId}
    {kind : DbKind}
    (hStats : db.tableStats = []) :
    (fetchStats kind tableUuid t).exec db = .ok none := by
  simp only [fetchStats, Query.exec_bind, Query.exec_fetch,
    Query.exec_lift, hStats]
  rfl

/- The stored properties of a table are parsed. -/
theorem Tracked.parsesProperties
    {db : Database}
    {row : TableRow}
    {h : History}
    (hTracked : Tracked ext db row h)
    (hRow : row ∈ db.tables)
    (hSerialized : Serialized ext db.jsonTexts)
    (hReads : ReadsBack ext h) :
    parseTableProperties ext row.properties =
      .ok h.properties := by
  have hText :
      ext.jsonToString (storedProperties ext h).toJson ∈
        db.jsonTexts := by
    apply List.mem_append_left
    refine List.mem_flatMap.mpr ⟨row, hRow, ?_⟩
    rw [TableRow.jsonTexts, hTracked.properties]
    exact List.mem_singleton_self _
  rw [hTracked.properties]
  rw [hReads.storedProperties_eq] at hText ⊢
  exact bind_ok.mpr ⟨_,
    parseJsonText_of_reads
      (fits_of_serialized hSerialized hText)
      (hReads.properties h [] (List.append_nil h).symm),
    TableProperties.fromJson_toJson _⟩

/- A read of the head is as good as the files it fetches. -/
theorem exec_readHead
    {catalog : SqlCatalog}
    {ident : TableIdent}
    {db : Database}
    {row : TableRow}
    {h : History}
    {t : TxnId}
    (hKind : catalog.kind = .sqlite)
    (hFound : db.findTable ident = some row)
    (hReader : row.minReaderVersion ≤ catalog.readerVersion)
    (hTracked : Tracked ext db row h)
    (hHolds : Holds ext db row.tableUuid h)
    (hSerialized : Serialized ext db.jsonTexts)
    (hReadable : Readable ext h)
    (hLast : h.ids.getLast? = some t)
    (hIds : ∀ i ∈ h.ids, i ≤ t) :
    ∃ view : List File → TableView,
      (readTable ext catalog ident none).exec db =
        ((fetchFiles ext row.tableUuid t).exec db).map
          view := by
  have hProperties :
      parseTableProperties ext row.properties =
        .ok h.properties :=
    hTracked.parsesProperties
      (List.mem_of_find?_eq_some hFound) hSerialized
      hReadable.toReadsBack
  have hProtocol :
      catalog.ensureReaderProtocolCompatible ident
        row.minReaderVersion = .ok () :=
    if_neg (by omega)
  have hServes : Serves ext row.tableUuid h
      (fun later => ∀ i ∈ later.ids, t < i) db :=
    ⟨⟨[], by simp [History.ids],
      (List.append_nil h).symm ▸ hHolds⟩, hSerialized⟩
  have hFetch : Query.Succeeds (· = db) (fun _ => True)
      (fetchSchema ext .sqlite ident row.tableUuid t) :=
    succeeds_fetchSchema (fun x hx => hx ▸ hServes)
      hReadable (History.ne_nil_of_last hLast) hIds
  rcases hFetch.exec rfl with ⟨schema, hSchema, _⟩
  refine ⟨fun files =>
    { ident := ident
      tableUuid := row.tableUuid
      transactionId := t
      schema := schema
      files := files
      properties := h.properties
      stats := none }, ?_⟩
  rw [← hKind] at hSchema
  have hRow :
      (Query.fetch fun v : Database =>
          v.findTable ident : CatalogQuery _).exec db =
        .ok (some row) := by
    rw [Query.exec_fetch, hFound]
  have hHead :
      requireHead row.currentTransactionId = .ok t := by
    rw [hTracked.head, hLast]
    rfl
  have hCheck :
      (checkInHistory row.tableUuid t t).exec db =
        .ok () := by
    unfold checkInHistory
    rw [if_pos rfl]
    rfl
  unfold readTable
  rw [Query.exec_bind_of_ok hRow]
  dsimp only
  unfold readRow
  rw [Query.exec_lift_bind_of_ok hProperties,
    Query.exec_lift_bind_of_ok hProtocol,
    Query.exec_lift_bind_of_ok hHead]
  dsimp only
  rw [Option.getD_none, Query.exec_bind_of_ok hCheck,
    Query.exec_bind_of_ok hSchema, Query.exec_bind]
  cases (fetchFiles ext row.tableUuid t).exec db with
  | error e => rfl
  | ok files =>
      change Query.exec db (fetchStats catalog.kind
        row.tableUuid t >>= _) = _
      rw [Query.exec_bind_of_ok
        (exec_fetchStats hHolds.stats)]
      rfl

------------------------------------------------------------
-- Parts of a Read
------------------------------------------------------------

/- What a read has found and fetched. -/
structure ReadParts
    (ext : External)
    (catalog : SqlCatalog)
    (ident : TableIdent)
    (t : TxnId)
    (db : Database)
    (row : TableRow)
    (view : TableView) : Prop where
  viewIdent : view.ident = ident
  tableUuid : view.tableUuid = row.tableUuid
  transactionId : view.transactionId = t
  properties :
    parseTableProperties ext row.properties =
      .ok view.properties
  reader :
    catalog.ensureReaderProtocolCompatible ident
      row.minReaderVersion = .ok ()
  schema :
    (fetchSchema ext catalog.kind ident row.tableUuid
      t).exec db = .ok view.schema
  files :
    (fetchFiles ext row.tableUuid t).exec db =
      .ok view.files
  stats : view.stats = none

theorem exec_readRow_iff
    {catalog : SqlCatalog}
    {ident : TableIdent}
    (atTransactionId : Option TxnId)
    {db : Database}
    {row : TableRow}
    {current : TxnId}
    {view : TableView}
    (hStats : db.tableStats = [])
    (hHead : row.currentTransactionId = some current)
    (hCheck :
      (checkInHistory row.tableUuid current
        (atTransactionId.getD current)).exec db = .ok ()) :
    (readRow ext catalog ident atTransactionId row).exec
        db = .ok view ↔
      ReadParts ext catalog ident
        (atTransactionId.getD current) db row view := by
  have hCurrent : requireHead row.currentTransactionId =
      .ok current := requireHead_ok.mpr hHead
  unfold readRow
  rw [Query.exec_bind, bind_ok]
  constructor
  · rintro ⟨properties, hProperties, hRest⟩
    rw [Query.exec_bind, bind_ok] at hRest
    rcases hRest with ⟨u, hReader, hRest⟩
    rw [Query.exec_lift_bind_of_ok hCurrent] at hRest
    dsimp only at hRest
    rw [Query.exec_bind_of_ok hCheck, Query.exec_bind,
      bind_ok] at hRest
    rcases hRest with ⟨schema, hSchema, hRest⟩
    rw [Query.exec_bind, bind_ok] at hRest
    rcases hRest with ⟨files, hFiles, hRest⟩
    rw [Query.exec_bind_of_ok (exec_fetchStats hStats),
      Query.exec_pure, Except.ok.injEq] at hRest
    subst hRest
    exact ⟨rfl, rfl, rfl, hProperties, hReader, hSchema,
      hFiles, rfl⟩
  · intro h
    refine ⟨view.properties, h.properties, ?_⟩
    rw [Query.exec_lift_bind_of_ok h.reader,
      Query.exec_lift_bind_of_ok hCurrent]
    dsimp only
    rw [Query.exec_bind_of_ok hCheck,
      Query.exec_bind_of_ok h.schema,
      Query.exec_bind_of_ok h.files,
      Query.exec_bind_of_ok (exec_fetchStats hStats),
      Query.exec_pure, ← h.viewIdent, ← h.tableUuid,
      ← h.transactionId, ← h.stats]

/- A read is as good as its parts. -/
theorem exists_readParts_iff
    {catalog : SqlCatalog}
    {ident : TableIdent}
    {db : Database}
    {row : TableRow}
    {t : TxnId} :
    (∃ view, ReadParts ext catalog ident t db row view) ↔
      (∃ properties,
        parseTableProperties ext row.properties =
          .ok properties) ∧
      catalog.ensureReaderProtocolCompatible ident
        row.minReaderVersion = .ok () ∧
      (∃ schema,
        (fetchSchema ext catalog.kind ident row.tableUuid
          t).exec db = .ok schema) ∧
      ∃ files,
        (fetchFiles ext row.tableUuid t).exec db =
          .ok files := by
  constructor
  · rintro ⟨view, hParts⟩
    exact ⟨⟨_, hParts.properties⟩, hParts.reader,
      ⟨_, hParts.schema⟩, _, hParts.files⟩
  · rintro ⟨⟨properties, hProperties⟩, hReader,
      ⟨schema, hSchema⟩, files, hFiles⟩
    exact ⟨⟨ident, row.tableUuid, t, schema, files,
        properties, none⟩,
      rfl, rfl, rfl, hProperties, hReader, hSchema, hFiles,
      rfl⟩

end Planar
