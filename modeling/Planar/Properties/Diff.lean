import Planar.Properties.TimeTravel
import Planar.Reading.RangeChanges

/-
  A diff is exactly the difference of the two snapshots.

  Main declarations:
    * `TableDelta.IsDifference`
    * `TableDelta.applyTo`
    * `World.Reachable.diff`
-/

------------------------------------------------------------
-- Differences of Views
------------------------------------------------------------

namespace Planar

/- The delta has each file in which the views differ once. -/
structure TableDelta.IsDifference
    (delta : TableDelta)
    (fromView toView : TableView) : Prop where
  added : delta.addedFiles.Perm
    (toView.files.filter fun f => f ∉ fromView.files)
  removed : delta.removedFiles.Perm
    (fromView.files.filter fun f => f ∉ toView.files)
  addedNodup : (delta.addedFiles.map File.fileUuid).Nodup
  removedNodup :
    (delta.removedFiles.map File.fileUuid).Nodup

/- The view with the changes of a delta. -/
def TableDelta.applyTo
    (delta : TableDelta)
    (view : TableView) : TableView :=
  { view with
    transactionId := delta.toTransactionId
    files :=
      view.files.filter (fun f => f ∉ delta.removedFiles) ++
        delta.addedFiles
    schema := delta.newSchema.getD view.schema }

/- What was taken away comes back by adding it. -/
theorem TableDelta.IsDifference.files_applyTo
    {delta : TableDelta}
    {fromView toView : TableView}
    (hDelta : delta.IsDifference fromView toView)
    (hFrom : fromView.files.Nodup)
    (hTo : toView.files.Nodup) :
    (delta.applyTo fromView).files.Perm toView.files := by
  have hAdded : ∀ f, f ∈ delta.addedFiles ↔
      f ∈ toView.files ∧ f ∉ fromView.files := by
    intro f
    rw [hDelta.added.mem_iff, List.mem_filter,
      decide_eq_true_iff]
  have hRemoved : ∀ f, f ∈ delta.removedFiles ↔
      f ∈ fromView.files ∧ f ∉ toView.files := by
    intro f
    rw [hDelta.removed.mem_iff, List.mem_filter,
      decide_eq_true_iff]
  have hNodup : (delta.applyTo fromView).files.Nodup := by
    apply List.Nodup.append
    · exact hFrom.filter _
    · exact hDelta.addedNodup.of_map _
    · intro f hKept hNew
      exact ((hAdded f).mp hNew).2
        (List.mem_of_mem_filter hKept)
  rw [List.perm_ext_iff_of_nodup hNodup hTo]
  intro f
  rw [applyTo, List.mem_append, List.mem_filter,
    decide_eq_true_iff, hAdded, hRemoved]
  constructor
  · rintro (⟨hIn, hStays⟩ | ⟨hIn, _⟩)
    · by_contra hOut
      exact hStays ⟨hIn, hOut⟩
    · exact hIn
  · intro hIn
    by_cases hBefore : f ∈ fromView.files
    · exact .inl ⟨hBefore, fun hGone => hGone.2 hIn⟩
    · exact .inr ⟨hIn, hBefore⟩

------------------------------------------------------------
-- Net Changes Between Two Reads
------------------------------------------------------------

variable
  {ext : External}
  {kind : DbKind}
  {db : Database}
  {tableUuid : Uuid}

/- The files of a map are those of its keys. -/
theorem mem_intoValues
    {files : FileMap}
    (hSound : db.Sound)
    (hValues : ∀ p ∈ files.entries,
      p.2.fileUuid = p.1 ∧ db.HasFile ext tableUuid p.2)
    (f : File) :
    f ∈ files.intoValues ↔
      db.HasFile ext tableUuid f ∧ f.fileUuid ∈ files := by
  unfold FileMap.intoValues
  rw [List.mem_map]
  constructor
  · rintro ⟨p, hEntry, rfl⟩
    rcases hValues p hEntry with ⟨hKey, hFile⟩
    refine ⟨hFile, ?_⟩
    rw [hKey]
    exact List.mem_keys_of_mem hEntry
  · rintro ⟨hFile, hKey⟩
    rcases List.exists_of_mem_keys hKey with
      ⟨g, hEntry⟩
    rcases hValues _ hEntry with ⟨hUuid, hHas⟩
    exact ⟨_, hEntry,
      hSound.hasFile_unique hHas hFile hUuid⟩

theorem nodup_intoValues
    {files : FileMap}
    (hValues : ∀ p ∈ files.entries,
      p.2.fileUuid = p.1 ∧ db.HasFile ext tableUuid p.2) :
    (files.intoValues.map File.fileUuid).Nodup := by
  have hKeys : files.intoValues.map File.fileUuid =
      files.keys :=
    FileMap.ByUuid.uuids_intoValues
      fun p hEntry => (hValues p hEntry).1
  rw [hKeys]
  exact files.keys_nodup

/- The files read at the end of a past. -/
structure FilesRead
    (ext : External)
    (db : Database)
    (tableUuid : Uuid)
    (past : History)
    (files : List File) : Prop where
  uuids : (files.map File.fileUuid).Perm past.fileUuids
  nodup : (files.map File.fileUuid).Nodup
  hasFile : ∀ f ∈ files, db.HasFile ext tableUuid f

theorem FilesSeen.read
    {t : TxnId}
    {files : List File}
    {past later : History}
    (hSeen : FilesSeen ext tableUuid t db files)
    (hHolds : Holds ext db tableUuid (past ++ later))
    (hPast : ∀ i ∈ past.ids, i ≤ t)
    (hLater : ∀ i ∈ later.ids, t < i) :
    FilesRead ext db tableUuid past files := by
  rcases hSeen.decoded with ⟨decoded, hOk, hPerm⟩
  have hUuids : (files.map File.fileUuid).Perm
      ((db.visibleFiles tableUuid t).map
        FileRow.fileUuid) := by
    rw [← decodeFiles_fileUuid hOk]
    exact hPerm.map File.fileUuid
  constructor
  case uuids =>
    refine hUuids.trans (.of_eq ?_)
    rw [hHolds.visibleFiles_eq,
      History.fileUuids, ← visible_fileLog hPast hLater,
      List.map_map, List.map_map]
    rfl
  case nodup =>
    rw [hUuids.nodup_iff]
    exact (hHolds.sound.filesOf_nodup tableUuid).sublist
      (List.filter_sublist.map _)
  case hasFile =>
    intro f hFile
    exact hasFile_of_decodeFiles
      (fun _ hRow => List.mem_of_mem_filter hRow) hOk f
      (hPerm.mem_iff.mp hFile)

theorem FilesRead.mem_iff
    {past : History}
    {files : List File}
    (hRead : FilesRead ext db tableUuid past files)
    (hSound : db.Sound)
    (f : File) :
    f ∈ files ↔
      db.HasFile ext tableUuid f ∧
        f.fileUuid ∈ past.fileUuids := by
  constructor
  · intro hFile
    refine ⟨hRead.hasFile f hFile, ?_⟩
    exact hRead.uuids.mem_iff.mp (List.mem_map_of_mem hFile)
  · rintro ⟨hHas, hUuid⟩
    rw [← hRead.uuids.mem_iff] at hUuid
    rcases List.mem_map.mp hUuid with ⟨g, hFile, hEq⟩
    rw [← hSound.hasFile_unique (hRead.hasFile g hFile)
      hHas hEq]
    exact hFile

/- Net changes between two reads are their difference. -/
theorem NetOf.isDifference
    {before after : History}
    {net : NetChanges}
    {fromView toView : TableView}
    {delta : TableDelta}
    (hNet :
      NetOf (db.HasFile ext tableUuid)
        (fun k => k ∈ before.fileUuids)
        (fun k => k ∈ after.fileUuids) net)
    (hSound : db.Sound)
    (hFrom :
      FilesRead ext db tableUuid before fromView.files)
    (hTo : FilesRead ext db tableUuid after toView.files)
    (hAdded : delta.addedFiles = net.added.intoValues)
    (hRemoved :
      delta.removedFiles = net.removed.intoValues) :
    delta.IsDifference fromView toView := by
  have hAddedNodup := nodup_intoValues hNet.addedValues
  have hRemovedNodup := nodup_intoValues hNet.removedValues
  rw [← hAdded] at hAddedNodup
  rw [← hRemoved] at hRemovedNodup
  refine ⟨?_, ?_, hAddedNodup, hRemovedNodup⟩
  · rw [List.perm_ext_iff_of_nodup
      (hAddedNodup.of_map _)
      ((hTo.nodup.of_map _).filter _)]
    intro f
    rw [hAdded, mem_intoValues hSound hNet.addedValues,
      hNet.addedKeys, List.mem_filter, decide_eq_true_iff,
      hTo.mem_iff hSound, hFrom.mem_iff hSound]
    constructor
    · rintro ⟨hHas, hIn, hOut⟩
      exact ⟨⟨hHas, hIn⟩, fun hOld => hOut hOld.2⟩
    · rintro ⟨⟨hHas, hIn⟩, hOut⟩
      exact ⟨hHas, hIn, fun hOld => hOut ⟨hHas, hOld⟩⟩
  · rw [List.perm_ext_iff_of_nodup
      (hRemovedNodup.of_map _)
      ((hFrom.nodup.of_map _).filter _)]
    intro f
    rw [hRemoved, mem_intoValues hSound hNet.removedValues,
      hNet.removedKeys, List.mem_filter, decide_eq_true_iff,
      hTo.mem_iff hSound, hFrom.mem_iff hSound]
    constructor
    · rintro ⟨hHas, hIn, hOut⟩
      exact ⟨⟨hHas, hIn⟩, fun hNew => hOut hNew.2⟩
    · rintro ⟨⟨hHas, hIn⟩, hOut⟩
      exact ⟨hHas, hIn, fun hNew => hOut ⟨hHas, hNew⟩⟩

------------------------------------------------------------
-- Schemas of Two Reads
------------------------------------------------------------

/- The row and the columns that a read of a schema uses. -/
theorem SchemaSeen.eq
    {t : TxnId}
    {rowDb columnDb : Database}
    {schema : Schema}
    {row : SchemaRow}
    (hSeen :
      SchemaSeen ext kind tableUuid t rowDb columnDb schema)
    (hRow :
      selectSchema ext tableUuid t rowDb = some row) :
    ∃ columns,
      decodeColumns ext
        (selectColumns row.schemaUuid columnDb) =
          .ok columns ∧
      decodeSchema kind row columns = .ok schema := by
  rcases hSeen.seen with
    ⟨row', columns, hFound, _, hColumns, hSchema⟩
  rw [hRow, Option.some.injEq] at hFound
  subst hFound
  exact ⟨columns, hColumns, hSchema⟩

/- The schema changes with the first one of a range. -/
theorem schemas_of_range
    {s t : TxnId}
    {before range later : History}
    {fromSchema toSchema : Schema}
    (hHolds :
      Holds ext db tableUuid (before ++ range ++ later))
    (hFrom :
      SchemaSeen ext kind tableUuid s db db fromSchema)
    (hTo : SchemaSeen ext kind tableUuid t db db toSchema)
    (hBefore : before ≠ [])
    (hPast : ∀ i ∈ before.ids, i ≤ s)
    (hLater : ∀ i ∈ History.ids (range ++ later), s < i)
    (hPast' : ∀ i ∈ History.ids (before ++ range), i ≤ t)
    (hLater' : ∀ i ∈ later.ids, t < i) :
    (range.schemaPoints = [] → toSchema = fromSchema) ∧
    (range.schemaPoints ≠ [] →
      fromSchema.schemaUuid ≠ toSchema.schemaUuid) := by
  have hStored := hHolds.toStored
  have hStored' := hStored
  rw [List.append_assoc] at hStored
  have hCreated :=
    History.created_past (by
      have h := hHolds.lawful.created
      rwa [List.append_assoc] at h) hBefore
  have hPoints := History.schemaPoints_ne_nil hCreated
  rcases hLast : before.schemaPoints.getLast? with _ | last
  · exact absurd (List.getLast?_eq_none_iff.mp hLast)
      hPoints
  have hRow := hStored.selectSchema_eq hPast
    hLater hLast
  rcases hFrom.eq hRow with ⟨columns, hColumns, hSchema⟩
  constructor
  · intro hNone
    have hLast' :
        (History.schemaPoints
          (before ++ range)).getLast? = some last := by
      rw [History.schemaPoints_append, hNone,
        List.append_nil, hLast]
    have hRow' := hStored'.selectSchema_eq hPast' hLater'
      hLast'
    rw [History.schemaPoints_append, hNone,
      List.append_nil] at hRow'
    rw [History.schemaPoints_append, hNone,
      List.nil_append] at hRow hColumns hSchema
    rcases hTo.eq hRow' with
      ⟨columns', hColumns', hSchema'⟩
    have hSame : columns' = columns :=
      Except.ok.inj (hColumns'.symm.trans hColumns)
    rw [hSame] at hSchema'
    exact Except.ok.inj (hSchema'.symm.trans hSchema)
  · intro hSome
    rcases hNew : range.schemaPoints.getLast? with _ | new
    · exact absurd (List.getLast?_eq_none_iff.mp hNew)
        hSome
    have hLast' :
        (History.schemaPoints
          (before ++ range)).getLast? = some new := by
      rw [History.schemaPoints_append,
        List.getLast?_append_of_ne_nil _ hSome, hNew]
    have hRow' := hStored'.selectSchema_eq hPast' hLater'
      hLast'
    rcases hTo.eq hRow' with
      ⟨columns', hColumns', hSchema'⟩
    rw [decodeSchema_ok hSchema, decodeSchema_ok hSchema']
    have hNodup := hStored'.schemaUuids_nodup hHolds.sound
    rw [List.append_assoc, History.schemaPoints_append,
      History.schemaPoints_append, List.map_append,
      List.map_append] at hNodup
    exact (List.nodup_append.mp hNodup).2.2 _
      (List.mem_map_of_mem
        (List.mem_of_getLast? hLast)) _
      (List.mem_append_left _
        (List.mem_map_of_mem (List.mem_of_getLast? hNew)))

------------------------------------------------------------
-- The Diff of a Table
------------------------------------------------------------

/- A diff lists the events and reads the table twice. -/
theorem exec_diffTable
    {catalog : SqlCatalog}
    {ident : TableIdent}
    {s t : TxnId}
    {delta : TableDelta}
    (hDiff :
      (diffTable ext catalog ident s t).exec db =
        .ok delta) :
    ∃ events fromView toView,
      (listTransactionEvents ext catalog ident
        ⟨some s, t⟩).exec db = .ok events ∧
      (readTable ext catalog ident (some s)).exec db =
        .ok fromView ∧
      (readTable ext catalog ident (some t)).exec db =
        .ok toView ∧
      delta = projectDeltaRange s t events
        (if fromView.schema.schemaUuid ≠
            toView.schema.schemaUuid then
          some toView.schema else none)
        (if fromView.properties ≠ toView.properties then
          some toView.properties else none) := by
  simp only [diffTable, Query.exec_bind, Query.exec_pure]
    at hDiff
  rcases bind_ok.mp hDiff with ⟨events, hList, hDiff⟩
  rcases bind_ok.mp hDiff with ⟨fromView, hFrom, hDiff⟩
  rcases bind_ok.mp hDiff with ⟨toView, hTo, hDiff⟩
  exact ⟨events, fromView, toView, hList, hFrom, hTo,
    (Except.ok.inj hDiff).symm⟩

/-
  Whenever a diff succeeds, so do the reads at its ends, and
  it has exactly the files in which the two views differ,
  and the last schema when the range brought one.  Applying
  it to the first view gives the files and the schema of the
  second one.
-/
theorem World.Reachable.diff
    {catalog : SqlCatalog}
    {ident : TableIdent}
    {s t : TxnId}
    {w : World}
    {delta : TableDelta}
    (hReach : w.Reachable ext)
    (hOrdered : w.Ordered)
    (hDiff :
      (diffTable ext catalog ident s t).exec w.database =
        .ok delta) :
    ∃ fromView toView before range later,
      (readTable ext catalog ident (some s)).exec
        w.database = .ok fromView ∧
      (readTable ext catalog ident (some t)).exec
        w.database = .ok toView ∧
      w.history ident = before ++ range ++ later ∧
      before.ids.getLast? = some s ∧
      range.ids.getLast? = some t ∧
      delta.IsDifference fromView toView ∧
      delta.newSchema =
        (if range.schemaPoints = [] then none
          else some toView.schema) ∧
      (delta.applyTo fromView).files.Perm toView.files ∧
      (delta.applyTo fromView).schema = toView.schema := by
  have hInv := hReach.inv
  rcases exec_diffTable hDiff with
    ⟨events, fromView, toView, hList, hFrom, hTo, rfl⟩
  rcases exec_listTransactionEvents hInv hList with
    ⟨row, before, range, later, hLog⟩
  rcases exec_readTable hInv hFrom with ⟨row₁, hSeen₁⟩
  rcases exec_readTable hInv hTo with ⟨row₂, hSeen₂⟩
  -- all three calls find the same row
  have hRow₁ : row₁ = row :=
    hInv.sound.ident_unique hSeen₁.found hLog.found
      (hSeen₁.rowIdent.trans hLog.rowIdent.symm)
  have hRow₂ : row₂ = row :=
    hInv.sound.ident_unique hSeen₂.found hLog.found
      (hSeen₂.rowIdent.trans hLog.rowIdent.symm)
  subst hRow₁ hRow₂
  have hHolds := hInv.holds hLog.found
  rw [hLog.rowIdent] at hHolds
  have hIncreasing :=
    hOrdered.history hHolds.lawful.linked
  have hSplit := hLog.split
  rw [hSplit] at hHolds hIncreasing
  have hIncreasing' := hIncreasing
  rw [List.append_assoc] at hIncreasing'
  have hStart := hLog.start
  have hStop : (History.ids (before ++ range)).getLast? =
      some t := by
    have hRange : range.ids ≠ [] := by
      intro hNil
      have hEnd := hLog.stop
      rw [hNil] at hEnd
      cases hEnd
    rw [History.ids_append,
      List.getLast?_append_of_ne_nil _ hRange, hLog.stop]
  have hAt₁ : fromView.transactionId = s :=
    Option.some.inj hSeen₁.requested
  have hAt₂ : toView.transactionId = t :=
    Option.some.inj hSeen₂.requested
  have hFiles₁ := hSeen₁.files
  have hFiles₂ := hSeen₂.files
  have hSchema₁ := hSeen₁.schema
  have hSchema₂ := hSeen₂.schema
  rw [hAt₁] at hFiles₁ hSchema₁
  rw [hAt₂] at hFiles₂ hSchema₂
  -- with increasing ids the pasts are what counts at both
  have hPast₁ := History.ids_le_of_past hIncreasing' hStart
  have hLater₁ := History.lt_of_later hIncreasing' hStart
  have hPast₂ := History.ids_le_of_past hIncreasing hStop
  have hLater₂ := History.lt_of_later hIncreasing hStop
  have hRead₁ := hFiles₁.read (by
    rw [List.append_assoc] at hHolds
    exact hHolds) hPast₁ hLater₁
  have hRead₂ := hFiles₂.read hHolds hPast₂ hLater₂
  have hNet := netOf_events hLog.events hHolds
  have hDelta : (projectDeltaRange s t events
      (if fromView.schema.schemaUuid ≠
          toView.schema.schemaUuid then
        some toView.schema else none)
      (if fromView.properties ≠ toView.properties then
        some toView.properties else none)).IsDifference
        fromView toView :=
    hNet.isDifference hInv.sound hRead₁ hRead₂ rfl rfl
  have hSchemas := schemas_of_range hHolds hSchema₁
    hSchema₂ (History.ne_nil_of_last hStart) hPast₁ hLater₁
    hPast₂ hLater₂
  refine ⟨fromView, toView, before, range, later, hFrom,
    hTo, hSplit, hStart, hLog.stop, hDelta, ?_,
    hDelta.files_applyTo (hRead₁.nodup.of_map _)
      (hRead₂.nodup.of_map _), ?_⟩
  · by_cases hNone : range.schemaPoints = []
    · simp [projectDeltaRange, hSchemas.1 hNone, hNone]
    · simp [projectDeltaRange, hSchemas.2 hNone, hNone]
  · by_cases hNone : range.schemaPoints = []
    · simp [TableDelta.applyTo, projectDeltaRange,
        hSchemas.1 hNone]
    · simp [TableDelta.applyTo, projectDeltaRange,
        hSchemas.2 hNone]

theorem diff_sample :
    ∃ delta,
      (diffTable sampleExternal sampleCatalog sampleIdent
        1 3).exec sampleWorld.database = .ok delta ∧
      ∃ fromView toView before range later,
        (readTable sampleExternal sampleCatalog sampleIdent
          (some 1)).exec sampleWorld.database =
            .ok fromView ∧
        (readTable sampleExternal sampleCatalog sampleIdent
          (some 3)).exec sampleWorld.database =
            .ok toView ∧
        sampleWorld.history sampleIdent =
          before ++ range ++ later ∧
        before.ids.getLast? = some 1 ∧
        range.ids.getLast? = some 3 ∧
        delta.IsDifference fromView toView ∧
        delta.newSchema =
          (if range.schemaPoints = [] then none
            else some toView.schema) ∧
        (delta.applyTo fromView).files.Perm toView.files ∧
        (delta.applyTo fromView).schema =
          toView.schema := by
  have hOk :
      ((diffTable sampleExternal sampleCatalog sampleIdent
        1 3).exec sampleWorld.database).isOk = true := by
    decide +kernel
  rcases exists_of_isOk hOk with ⟨delta, hDiff⟩
  exact ⟨delta, hDiff,
    (World.reachable_run sampleExternal sampleCalls).diff
      (by decide +kernel) hDiff⟩

end Planar
