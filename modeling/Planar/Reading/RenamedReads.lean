import Planar.History.RenamedCalls
import Planar.Reading.IdIntervals

/-
  Reads of a table under other transaction ids.  They return
  the same, with the other ids, where the intervals of the
  other ids contain the same files and the same version.

  Main declarations:
    * `RenamedRows`
    * `RenamedRows.fetchSchema`, `RenamedRows.fetchFiles`
    * `SameContents`, `History.SameAt`
    * `History.sameAt_of_increasing`
    * `History.SameAt.readParts`, `sameAt_of_readParts`
-/

------------------------------------------------------------
-- Records with Other Ids
------------------------------------------------------------

namespace Planar

def Schema.rename
    (ρ : TxnId → TxnId)
    (schema : Schema) : Schema :=
  { schema with
    validFromTransactionId :=
      ρ schema.validFromTransactionId
    validToTransactionId :=
      schema.validToTransactionId.map ρ }

def File.rename
    (ρ : TxnId → TxnId)
    (file : File) : File :=
  { file with
    addedInTransactionId := ρ file.addedInTransactionId
    removedInTransactionId :=
      file.removedInTransactionId.map ρ }

variable
  {ext : External}
  {kind : DbKind}
  {ρ : TxnId → TxnId}
  {db db' : Database}
  {ident : TableIdent}
  {tableUuid : Uuid}
  {ids : List TxnId}
  {t : TxnId}

theorem decodeFile_rename
    (ext : External)
    (ρ : TxnId → TxnId)
    (row : FileRow) :
    decodeFile ext (row.rename ρ) =
      (decodeFile ext row).map (File.rename ρ) := by
  unfold decodeFile FileRow.rename
  cases parseJsonOptional ext row.partitionValues with
  | error e => rfl
  | ok partition =>
      cases parseJsonOptional ext row.formatOptions <;> rfl

theorem decodeFiles_rename
    (ext : External)
    (ρ : TxnId → TxnId)
    (rows : List FileRow) :
    decodeFiles ext (rows.map (FileRow.rename ρ)) =
      (decodeFiles ext rows).map
        (List.map (File.rename ρ)) := by
  induction rows with
  | nil => rfl
  | cons row rest ih =>
      rw [List.map_cons, decodeFiles, decodeFiles,
        decodeFile_rename, ih]
      cases decodeFile ext row with
      | error e => rfl
      | ok file => cases decodeFiles ext rest <;> rfl

theorem decodeSchema_rename
    (kind : DbKind)
    (ρ : TxnId → TxnId)
    (row : SchemaRow)
    (columns : List Column) :
    decodeSchema kind (row.rename ρ) columns =
      (decodeSchema kind row columns).map
        (Schema.rename ρ) := by
  cases kind <;> rfl

/- What reads back does so under other ids. -/
theorem ReadsBack.rename
    {h : History}
    (hReads : ReadsBack ext h)
    (ρ : TxnId → TxnId) :
    ReadsBack ext (h.rename ρ) where
  types := by
    intro p hPoint
    rw [History.schemaPoints_rename] at hPoint
    rcases List.mem_map.mp hPoint with ⟨q, hOld, rfl⟩
    exact hReads.types q hOld
  files := by
    intro e hEntry
    rcases List.mem_map.mp hEntry with ⟨e₀, hOld, rfl⟩
    exact hReads.files e₀ hOld
  properties := by
    intro past later hSplit
    rcases List.map_eq_append_iff.mp hSplit with
      ⟨past₀, later₀, rfl, rfl, rfl⟩
    have hSame :
        History.properties (past₀.map (Entry.rename ρ)) =
          History.properties past₀ :=
      List.foldl_map
    rw [hSame]
    exact hReads.properties past₀ later₀ rfl

------------------------------------------------------------
-- Databases with Other Ids
------------------------------------------------------------

/-
  Two databases have the same rows of a table, under other
  ids for the transactions of its chain.
-/
structure RenamedRows
    (ρ : TxnId → TxnId)
    (db db' : Database)
    (tableUuid : Uuid) : Prop where
  schemas :
    db'.schemasOf tableUuid =
      (db.schemasOf tableUuid).map (SchemaRow.rename ρ)
  columns : ∀ s ∈ db.schemasOf tableUuid,
    db'.columnsOf s.schemaUuid = db.columnsOf s.schemaUuid
  files :
    db'.filesOf tableUuid =
      (db.filesOf tableUuid).map (FileRow.rename ρ)

theorem Holds.renamedRows
    {h : History}
    (hHolds : Holds ext db tableUuid h)
    (hHolds' : Holds ext db' tableUuid (h.rename ρ)) :
    RenamedRows ρ db db' tableUuid := by
  constructor
  case schemas =>
    rw [hHolds'.schemas, hHolds.schemas,
      History.schemaPoints_rename, schemaRows_rename]
  case columns =>
    intro s hSchema
    rw [hHolds.schemas] at hSchema
    rcases exists_point_of_mem hSchema with
      ⟨p, hPoint, hEq⟩
    have hPoint' : (ρ p.1, p.2) ∈
        (h.rename ρ).schemaPoints := by
      rw [History.schemaPoints_rename]
      exact List.mem_map_of_mem
        (f := fun q : TxnId × SchemaContents =>
          (ρ q.1, q.2)) hPoint
    rw [← hEq]
    exact (hHolds'.columns _ hPoint').trans
      (hHolds.columns p hPoint).symm
  case files =>
    rw [hHolds'.files, hHolds.files, fileRowsOf_rename]

------------------------------------------------------------
-- Reads of Renamed Rows
------------------------------------------------------------

/- A transaction of the chain is found from its head. -/
theorem Chained.exec_checkInHistory
    {current : TxnId}
    (hChained : Chained db tableUuid ids)
    (hHead : ids.getLast? = some current)
    (hMember : t ∈ ids) :
    (checkInHistory tableUuid current t).exec db =
      .ok () := by
  rcases List.getLast?_eq_some_iff.mp hHead with
    ⟨before, rfl⟩
  have hGrows : GrowsFrom (fun _ _ => False) id tableUuid
      (before ++ [current]) db := by
    intro db₁ hSteps
    rw [eq_of_still hSteps]
    exact ⟨[], by rwa [List.append_nil]⟩
  have hResult := runs_checkInHistory hGrows
    (Query.runs_exec db (checkInHistory tableUuid current t))
  rwa [if_pos hMember] at hResult

namespace RenamedRows

theorem fetchSchema
    (hRenamed : RenamedRows ρ db db' tableUuid)
    (hVersion :
      selectSchema ext tableUuid (ρ t) db' =
        (selectSchema ext tableUuid t db).map
          (SchemaRow.rename ρ)) :
    ((fetchSchema ext kind ident tableUuid (ρ t)).exec
        db').toOption =
      ((fetchSchema ext kind ident tableUuid t).exec
        db).toOption.map (Schema.rename ρ) := by
  apply Query.toOption_exec_bind
    (g := Option.map (SchemaRow.rename ρ))
  · rw [Query.exec_fetch, Query.exec_fetch, hVersion]
    rfl
  · rintro (_ | row) hFound
    · rfl
    · have hRow : row ∈ db.schemasOf tableUuid := by
        rw [Query.exec_fetch, Except.ok.injEq] at hFound
        exact (mem_selectSchema hFound).1
      apply Query.toOption_exec_bind (g := id)
      · rw [Option.map_id]
        exact congrArg Except.toOption
          (exec_fetchColumns_congr
            (hRenamed.columns row hRow) _)
      · intro columns _
        rw [Query.exec_lift, Query.exec_lift, id,
          decodeSchema_rename]
        cases decodeSchema kind row columns <;> rfl

/- The same files count under the other ids. -/
theorem visibleFiles
    (hRenamed : RenamedRows ρ db db' tableUuid)
    (hVisible : ∀ row ∈ db.filesOf tableUuid,
      (row.rename ρ).isVisibleAt (ρ t) =
        row.isVisibleAt t) :
    db'.visibleFiles tableUuid (ρ t) =
      (db.visibleFiles tableUuid t).map
        (FileRow.rename ρ) := by
  rw [Database.visibleFiles, Database.visibleFiles,
    hRenamed.files, List.filter_map]
  congr 1
  exact List.filter_congr hVisible

theorem fetchFiles
    (hVisible :
      db'.visibleFiles tableUuid (ρ t) =
        (db.visibleFiles tableUuid t).map
          (FileRow.rename ρ)) :
    (∃ files, (fetchFiles ext tableUuid (ρ t)).exec db' =
        .ok files) ↔
      ∃ files, (fetchFiles ext tableUuid t).exec db =
        .ok files := by
  rw [exists_fetchFiles_iff, exists_fetchFiles_iff, hVisible,
    List.length_map, decodeFiles_rename]
  refine and_congr_right fun _ => ?_
  cases decodeFiles ext (db.visibleFiles tableUuid t) with
  | error e => exact Iff.rfl
  | ok files =>
      exact iff_of_true ⟨_, rfl⟩ ⟨_, rfl⟩

end RenamedRows

------------------------------------------------------------
-- Contents of Two Reads
------------------------------------------------------------

/-
  Two views have the same set of files and the same schema,
  up to the names of the transactions.
-/
structure SameContents
    (ρ : TxnId → TxnId)
    (view view' : TableView) : Prop where
  files : ∀ file,
    file ∈ view'.files ↔
      file ∈ view.files.map (File.rename ρ)
  schema : view'.schema = view.schema.rename ρ

/-
  With the other ids the intervals of the same files contain
  the transaction, and the database takes the same version.
-/
structure History.SameAt
    (h : History)
    (orders : RowOrders)
    (tableUuid : Uuid)
    (ρ : TxnId → TxnId)
    (t : TxnId) : Prop where
  files : ∀ s ∈ stampLog h.fileLog,
    (s.rename ρ).visibleAt (ρ t) = s.visibleAt t
  version :
    (h.rename ρ).versionAt orders tableUuid (ρ t) =
      (h.versionAt orders tableUuid t).map
        (SchemaRow.rename ρ)

------------------------------------------------------------
-- Ids in the Same Order
------------------------------------------------------------

/- An index on the start of the interval, as SQLite has it. -/
def schemasByStart : RowOrder SchemaRow :=
  .sorted fun row row' =>
    row.validFromTransactionId ≤
      row'.validFromTransactionId

namespace History

variable {h : History}

/- Names in the order of the ids keep what is visible. -/
theorem visibleAt_of_strictMono
    (hMono : StrictMonoOn ρ {t | t ∈ h.ids})
    (hMember : t ∈ h.ids) :
    ∀ s ∈ stampLog h.fileLog,
      (s.rename ρ).visibleAt (ρ t) = s.visibleAt t := by
  intro s hs
  have hStamps :=
    stampsIn_stampLog (P := (· ∈ h.ids)) h.fileLog
      (fun entry hEntry => mem_ids_of_mem_fileLog hEntry)
      s hs
  exact Stamped.visibleAt_rename hMono hStamps hMember

/- They keep which versions are valid. -/
theorem validRows_of_strictMono
    (hMono : StrictMonoOn ρ {t | t ∈ h.ids})
    (hMember : t ∈ h.ids) :
    (schemaRows tableUuid (h.rename ρ).schemaPoints).filter
        (SchemaRow.isValidAt (ρ t)) =
      ((schemaRows tableUuid h.schemaPoints).filter
        (SchemaRow.isValidAt t)).map
          (SchemaRow.rename ρ) := by
  rw [schemaPoints_rename, schemaRows_rename,
    List.filter_map]
  congr 1
  apply List.filter_congr
  intro row hRow
  rcases List.mem_mapIdx.mp hRow with ⟨i, hi, rfl⟩
  have hStamps :=
    stampsIn_succession (P := (· ∈ h.ids)) h.schemaPoints
      (fun p hPoint => mem_ids_of_mem_schemaPoints hPoint)
      _ (List.getElem_mem hi)
  change (SchemaRow.rename ρ _).isValidAt (ρ t) = _
  rw [← versionRow_rename, isValidAt_versionRow,
    isValidAt_versionRow]
  exact Stamped.visibleAt_rename hMono hStamps hMember

/-
  With increasing ids in both runs one version is valid, so
  that every database takes it.
-/
theorem sameAt_of_increasing
    (hHolds : Holds ext db tableUuid h)
    (hIds : h.ids.Pairwise (· < ·))
    (hIds' : (h.ids.map ρ).Pairwise (· < ·))
    (hMember : t ∈ h.ids) :
    h.SameAt ext.orders tableUuid ρ t where
  files := visibleAt_of_strictMono
    (strictMonoOn_of_pairwise hIds hIds') hMember
  version := by
    have hMono := strictMonoOn_of_pairwise hIds hIds'
    rcases hHolds.validSchema hIds hMember with
      ⟨_, _, _, _, _, _, hValid⟩
    rw [hHolds.schemas] at hValid
    rw [versionAt, versionAt,
      validRows_of_strictMono hMono hMember, hValid,
      List.map_singleton, RowOrder.first_singleton,
      RowOrder.first_singleton]
    rfl

/- Such an index needs only names in the order of the ids. -/
theorem sameAt_of_strictMono
    {orders : RowOrders}
    (hIndex : orders.validSchemas = schemasByStart)
    (hMono : StrictMonoOn ρ {t | t ∈ h.ids})
    (hMember : t ∈ h.ids) :
    h.SameAt orders tableUuid ρ t where
  files := visibleAt_of_strictMono hMono hMember
  version := by
    rw [versionAt, versionAt, hIndex,
      validRows_of_strictMono hMono hMember]
    apply RowOrder.first_sorted_map
    have hStart : ∀ row ∈
        (schemaRows tableUuid h.schemaPoints).filter
          (SchemaRow.isValidAt t),
        row.validFromTransactionId ∈ h.ids := by
      intro row hRow
      rcases List.mem_mapIdx.mp (List.mem_of_mem_filter hRow)
        with ⟨i, hi, rfl⟩
      exact (stampsIn_succession (P := (· ∈ h.ids))
        h.schemaPoints
        (fun p hPoint => mem_ids_of_mem_schemaPoints hPoint)
        _ (List.getElem_mem hi)).1
    intro a ha b hb
    exact (hMono.le_iff_le (hStart a ha) (hStart b hb)).symm

end History

section Contents

variable
  {h : History}
  {catalog : SqlCatalog}
  {row : TableRow}

/- Where the same counts, both reads return the same. -/
theorem History.SameAt.readParts
    (hSame : h.SameAt ext.orders row.tableUuid ρ t)
    (hHolds : Holds ext db row.tableUuid h)
    (hHolds' : Holds ext db' row.tableUuid (h.rename ρ)) :
    ((∃ view, ReadParts ext catalog ident (ρ t) db'
        (row.rename ρ) view) ↔
      ∃ view, ReadParts ext catalog ident t db row view) ∧
    ∀ view view',
      ReadParts ext catalog ident t db row view →
      ReadParts ext catalog ident (ρ t) db' (row.rename ρ)
        view' →
      SameContents ρ view view' := by
  have hRenamed := hHolds.renamedRows hHolds'
  have hVersion :
      selectSchema ext row.tableUuid (ρ t) db' =
        (selectSchema ext row.tableUuid t db).map
          (SchemaRow.rename ρ) := by
    rw [hHolds.toStored.selectSchema_versionAt,
      hHolds'.toStored.selectSchema_versionAt]
    exact hSame.version
  have hVisible :
      db'.visibleFiles row.tableUuid (ρ t) =
        (db.visibleFiles row.tableUuid t).map
          (FileRow.rename ρ) := by
    apply hRenamed.visibleFiles
    intro r hr
    rw [hHolds.files] at hr
    rcases List.mem_map.mp hr with ⟨s, hs, rfl⟩
    change (stampedRow ext row.tableUuid
      (s.rename ρ)).isVisibleAt (ρ t) = _
    rw [isVisibleAt_stampedRow, isVisibleAt_stampedRow]
    exact hSame.files s hs
  have hSchema :
      ((fetchSchema ext catalog.kind ident row.tableUuid
          (ρ t)).exec db').toOption =
        ((fetchSchema ext catalog.kind ident row.tableUuid
          t).exec db).toOption.map (Schema.rename ρ) :=
    hRenamed.fetchSchema hVersion
  constructor
  · rw [exists_readParts_iff, exists_readParts_iff]
    refine and_congr_right fun _ => and_congr_right fun _ =>
      and_congr ?_ (RenamedRows.fetchFiles hVisible)
    exact exists_ok_of_toOption hSchema
  · intro view view' hParts hParts'
    constructor
    case files =>
      rcases filesSeen_of_exec hParts.files with
        ⟨_, decoded, hDecoded, hPerm⟩
      rcases filesSeen_of_exec hParts'.files with
        ⟨_, decoded', hDecoded', hPerm'⟩
      have hAll : decoded' = decoded.map (File.rename ρ) := by
        change decodeFiles ext
          (db'.visibleFiles row.tableUuid (ρ t)) = _
            at hDecoded'
        rw [hVisible, decodeFiles_rename, hDecoded]
          at hDecoded'
        exact (Except.ok.inj hDecoded').symm
      intro file
      rw [hPerm'.mem_iff, hAll,
        (hPerm.map (File.rename ρ)).mem_iff]
    case schema =>
      have hBoth := hSchema
      change ((Planar.fetchSchema ext catalog.kind ident
        (row.rename ρ).tableUuid (ρ t)).exec db').toOption =
          _ at hBoth
      rw [hParts.schema, hParts'.schema] at hBoth
      exact Option.some.inj hBoth

/- A row is read when its interval contains the id. -/
theorem FilesSeen.visibleAt_iff
    {files : List File}
    {s : Stamped FileContents TxnId}
    (hSeen : FilesSeen ext tableUuid t db files)
    (hHolds : Holds ext db tableUuid h)
    (hRow : s ∈ stampLog h.fileLog) :
    s.visibleAt t = true ↔
      s.item.fileUuid ∈ files.map File.fileUuid := by
  rcases hSeen.decoded with ⟨decoded, hOk, hPerm⟩
  rw [(hPerm.map File.fileUuid).mem_iff,
    decodeFiles_fileUuid hOk, hHolds.visibleFiles_eq,
    List.map_map]
  constructor
  · intro hVisible
    exact List.mem_map_of_mem
      (f := FileRow.fileUuid ∘ stampedRow ext tableUuid)
      (List.mem_filter.mpr ⟨hRow, hVisible⟩)
  · intro hUuid
    rcases List.mem_map.mp hUuid with ⟨s', hs', hEq⟩
    rcases List.mem_filter.mp hs' with ⟨hRow', hVisible⟩
    have hNodup : ((stampLog h.fileLog).map fun s =>
        s.item.fileUuid).Nodup := by
      have hAll := hHolds.appended_nodup
      rw [← History.items_fileLog, List.map_map] at hAll
      exact hAll
    rwa [← List.inj_on_of_nodup_map hNodup hRow' hRow hEq]

/- Reads that return the same have met the same. -/
theorem sameAt_of_readParts
    {view view' : TableView}
    (hHolds : Holds ext db row.tableUuid h)
    (hHolds' : Holds ext db' row.tableUuid (h.rename ρ))
    (hParts : ReadParts ext catalog ident t db row view)
    (hParts' :
      ReadParts ext catalog ident (ρ t) db' (row.rename ρ)
        view')
    (hContents : SameContents ρ view view') :
    h.SameAt ext.orders row.tableUuid ρ t := by
  constructor
  case files =>
    intro s hs
    have hs' : s.rename ρ ∈
        stampLog (h.rename ρ).fileLog := by
      rw [History.fileLog_rename, stampLog_rename]
      exact List.mem_map_of_mem hs
    rw [Bool.eq_iff_iff,
      (filesSeen_of_exec hParts'.files).visibleAt_iff
        hHolds' hs',
      (filesSeen_of_exec hParts.files).visibleAt_iff
        hHolds hs]
    change s.item.fileUuid ∈ _ ↔ _
    simp only [List.mem_map]
    constructor
    · rintro ⟨f', hFile', hUuid⟩
      rw [hContents.files] at hFile'
      rcases List.mem_map.mp hFile' with ⟨f, hFile, rfl⟩
      exact ⟨f, hFile, hUuid⟩
    · rintro ⟨f, hFile, hUuid⟩
      exact ⟨f.rename ρ, (hContents.files _).mpr
        (List.mem_map_of_mem hFile), hUuid⟩
  case version =>
    rcases (schemaSeen_of_exec hParts.schema).seen with
      ⟨version, columns, hVersion, _, _, hDecoded⟩
    rcases (schemaSeen_of_exec hParts'.schema).seen with
      ⟨version', columns', hVersion', _, _, hDecoded'⟩
    have hMember := (mem_selectSchema hVersion).1
    have hMember' := (mem_selectSchema hVersion').1
    have hRenamed := hHolds.renamedRows hHolds'
    change version' ∈ db'.schemasOf row.tableUuid at hMember'
    rw [hRenamed.schemas] at hMember'
    rcases List.mem_map.mp hMember' with ⟨v, hv, rfl⟩
    -- the two rows are the same version, by its UUID
    have hUuid : v.schemaUuid = version.schemaUuid := by
      have hSchema := hContents.schema
      rw [decodeSchema_ok hDecoded,
        decodeSchema_ok hDecoded'] at hSchema
      exact congrArg Schema.schemaUuid hSchema
    have hNodup :
        ((db.schemasOf row.tableUuid).map
          SchemaRow.schemaUuid).Nodup :=
      hHolds.sound.schemaUuids.sublist
        (List.filter_sublist.map _)
    have hSame : v = version :=
      List.inj_on_of_nodup_map hNodup hv hMember hUuid
    rw [← hHolds.toStored.selectSchema_versionAt,
      ← hHolds'.toStored.selectSchema_versionAt,
      hVersion, Option.map_some, ← hSame]
    exact hVersion'

end Contents

end Planar
