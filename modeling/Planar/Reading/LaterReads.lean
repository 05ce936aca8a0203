import Planar.Foundations.LaterStamps
import Planar.Reading.EventLog

/-
  What a later listing of the same range returns: the events
  of the listing before, with the stamps that the
  transactions in between have set.  The stamps may move the
  rows within an index, so the file changes of an event can
  come in another order.

  Main declarations:
    * `removalIn`, `replacementIn`
    * `TxnEvent.after`, `TxnEvent.Alike`
    * `Grown`
    * `Grown.exec_readEvents`
-/

------------------------------------------------------------
-- Later Stamps
------------------------------------------------------------

namespace Planar

/- The change lists the file in a deletion. -/
def Change.removes (fileUuid : Uuid) : Change → Bool
| .deleteFiles fileUuids => fileUuid ∈ fileUuids
| _ => false

/- The first of the entries that removes a live file. -/
def removalIn
    (more : History)
    (fileUuid : Uuid) : Option TxnId :=
  more.findSome? fun e =>
    if e.changes.any (Change.removes fileUuid) then
      some e.transactionId
    else none

/- The first of the entries that replaces the schema. -/
def replacementIn (more : History) : Option TxnId :=
  more.schemaPoints.head?.map Prod.fst

theorem closesAt_edits
    (e : Entry)
    (f : FileContents) :
    closesAt e.transactionId e.edits f =
      if e.changes.any (Change.removes f.fileUuid) then
        some e.transactionId
      else none := by
  have hAny :
      e.edits.any (Edit.retires f) =
        e.changes.any (Change.removes f.fileUuid) := by
    unfold Entry.edits
    rw [List.any_filterMap]
    congr 1
    funext change
    cases change <;> rfl
  unfold closesAt
  rw [hAny]

theorem closingTime_fileLog
    (more : History)
    (f : FileContents) :
    closingTime more.fileLog f =
      removalIn more f.fileUuid := by
  unfold closingTime removalIn History.fileLog
  rw [List.findSome?_map]
  congr 1
  funext e
  exact closesAt_edits e f

theorem mem_ids_of_removalIn
    {more : History}
    {fileUuid : Uuid}
    {t : TxnId}
    (hRemoval : removalIn more fileUuid = some t) :
    t ∈ more.ids := by
  rcases List.exists_of_findSome?_eq_some hRemoval with
    ⟨e, hEntry, hTime⟩
  split at hTime
  · rw [← Option.some.inj hTime]
    exact List.mem_map_of_mem hEntry
  · cases hTime

theorem replacementIn_eq_none
    {more : History} :
    replacementIn more = none ↔ more.schemaPoints = [] := by
  simp [replacementIn]

def FileRow.after
    (more : History)
    (row : FileRow) : FileRow :=
  { row with
    removedInTransactionId :=
      row.removedInTransactionId.or
        (removalIn more row.fileUuid) }

def SchemaRow.after
    (more : History)
    (row : SchemaRow) : SchemaRow :=
  { row with
    validToTransactionId :=
      row.validToTransactionId.or (replacementIn more) }

def File.after
    (more : History)
    (file : File) : File :=
  { file with
    removedInTransactionId :=
      file.removedInTransactionId.or
        (removalIn more file.fileUuid) }

def Schema.after
    (more : History)
    (schema : Schema) : Schema :=
  { schema with
    validToTransactionId :=
      schema.validToTransactionId.or
        (replacementIn more) }

def TxnFileChange.after
    (more : History)
    (change : TxnFileChange) : TxnFileChange :=
  { change with file := change.file.after more }

def TxnSchemaChange.after
    (more : History)
    (change : TxnSchemaChange) : TxnSchemaChange :=
  { change with schema := change.schema.after more }

/- The event with the stamps of later transactions. -/
def TxnEvent.after
    (more : History)
    (event : TxnEvent) : TxnEvent :=
  { event with
    fileChanges :=
      event.fileChanges.map (TxnFileChange.after more)
    schemaChange :=
      event.schemaChange.map (TxnSchemaChange.after more) }

/-
  Two events are the same but for the order of the files
  among those of one kind.
-/
structure TxnEvent.Alike (event event' : TxnEvent) :
    Prop where
  transactionId : event.transactionId = event'.transactionId
  kinds :
    event.fileChanges.map TxnFileChange.kind =
      event'.fileChanges.map TxnFileChange.kind
  fileChanges : event.fileChanges.Perm event'.fileChanges
  schemaChange : event.schemaChange = event'.schemaChange

/- Later listings have the same transactions. -/
theorem TxnEvent.Alike.transactionIds
    {more : History}
    {events events' : List TxnEvent}
    (hAlike :
      List.Forall₂ TxnEvent.Alike events'
        (events.map (TxnEvent.after more))) :
    events'.map TxnEvent.transactionId =
      events.map TxnEvent.transactionId := by
  rw [List.forall₂_map_right_iff] at hAlike
  induction hAlike with
  | nil => rfl
  | cons hEvent _ ih =>
      rw [List.map_cons, List.map_cons, ih,
        hEvent.transactionId]
      rfl

------------------------------------------------------------
-- Decoding Later Rows
------------------------------------------------------------

variable
  {ext : External}
  {kind : DbKind}
  {tableUuid : Uuid}
  {more : History}

theorem decodeFile_after
    {row : FileRow}
    {file : File}
    (hOk : decodeFile ext row = .ok file) :
    decodeFile ext (row.after more) =
      .ok (file.after more) := by
  rcases bind_ok.mp hOk with ⟨partition, hPartition, hRest⟩
  rcases bind_ok.mp hRest with ⟨format, hFormat, hFile⟩
  rw [← Except.ok.inj hFile]
  exact bind_ok.mpr ⟨partition, hPartition,
    bind_ok.mpr ⟨format, hFormat, rfl⟩⟩

theorem decodeSchema_after
    {row : SchemaRow}
    {columns : List Column}
    {schema : Schema}
    (hOk : decodeSchema kind row columns = .ok schema) :
    decodeSchema kind (row.after more) columns =
      .ok (schema.after more) := by
  rcases bind_ok.mp hOk with ⟨createdAt, hTime, hSchema⟩
  rw [← Except.ok.inj hSchema]
  exact bind_ok.mpr ⟨createdAt, hTime, rfl⟩

/- A row keeps the stamp that it was asked by. -/
theorem stampOf_after
    {changeKind : TxnFileChangeKind}
    {row : FileRow}
    {t : TxnId}
    (hStamp : changeKind.stampOf row = .ok t) :
    changeKind.stampOf (row.after more) = .ok t := by
  cases changeKind with
  | added => exact hStamp
  | removed =>
      unfold TxnFileChangeKind.stampOf FileRow.after at *
      cases hRemoved : row.removedInTransactionId with
      | none =>
          rw [hRemoved] at hStamp
          cases hStamp
      | some removedIn =>
          rw [hRemoved] at hStamp
          exact hStamp

theorem stampOf_map_after
    {changeKind : TxnFileChangeKind}
    {rows : List FileRow}
    {t : TxnId}
    (more : History)
    (hStamps : ∀ row ∈ rows,
      changeKind.stampOf row = .ok t) :
    ∀ row ∈ rows.map (FileRow.after more),
      changeKind.stampOf row = .ok t := by
  intro row hRow
  rcases List.mem_map.mp hRow with ⟨before, hBefore, rfl⟩
  exact stampOf_after (hStamps before hBefore)

theorem decodeFiles_after
    {rows : List FileRow}
    {files : List File}
    (more : History)
    (hOk : decodeFiles ext rows = .ok files) :
    decodeFiles ext (rows.map (FileRow.after more)) =
      .ok (files.map (File.after more)) := by
  induction rows generalizing files with
  | nil =>
      rw [← Except.ok.inj hOk]
      rfl
  | cons row rest ih =>
      rcases bind_ok.mp hOk with ⟨file, hFile, hRest⟩
      rcases bind_ok.mp hRest with ⟨files', hFiles, hCons⟩
      rw [← Except.ok.inj hCons]
      exact bind_ok.mpr ⟨_, decodeFile_after hFile,
        bind_ok.mpr ⟨_, ih hFiles, rfl⟩⟩

theorem fileChanges_after
    {changeKind : TxnFileChangeKind}
    {t : TxnId}
    {count count' : Nat}
    {rows : List FileRow}
    {changes : List TxnFileChange}
    (more : History)
    (hStamps : ∀ row ∈ rows,
      changeKind.stampOf row = .ok t)
    (hOk :
      fileChanges ext changeKind count rows =
        .ok (changes, count')) :
    fileChanges ext changeKind count
        (rows.map (FileRow.after more)) =
      .ok (changes.map (TxnFileChange.after more),
        count') := by
  rcases (fileChanges_iff hStamps).mp hOk with
    ⟨files, hFiles, rfl, hCount, hLimit⟩
  apply (fileChanges_iff
    (stampOf_map_after more hStamps)).mpr
  refine ⟨_, decodeFiles_after more hFiles, ?_, ?_, ?_⟩
  · rw [changesOf, changesOf, List.map_map, List.map_map]
    rfl
  · rw [List.length_map]
    exact hCount
  · intro hSome
    exact hLimit fun hNone => hSome (by rw [hNone]; rfl)

------------------------------------------------------------
-- Databases that Have Grown
------------------------------------------------------------

/-
  The database holds a history of the table, the other one
  holds a longer one, and its ids are distinct.
-/
structure Grown
    (ext : External)
    (db db' : Database)
    (tableUuid : Uuid)
    (h more : History) : Prop where
  before : Stored ext db tableUuid h
  after : Stored ext db' tableUuid (h ++ more)
  nodup : (h ++ more : History).ids.Nodup

namespace Grown

variable
  {db db' : Database}
  {h : History}
  {t : TxnId}

/- An id of the history is none of the new ids. -/
theorem not_mem
    (hGrown : Grown ext db db' tableUuid h more)
    (hOld : t ∈ h.ids) :
    t ∉ more.ids := by
  have hNodup := hGrown.nodup
  rw [History.ids_append] at hNodup
  exact fun hNew =>
    (List.nodup_append.mp hNodup).2.2 t hOld t hNew rfl

theorem stampedRow_until
    (s : Stamped FileContents TxnId) :
    stampedRow ext tableUuid
        (s.until (closingTime more.fileLog s.item)) =
      (stampedRow ext tableUuid s).after more := by
  rw [closingTime_fileLog]
  rfl

theorem filesOf
    (hGrown : Grown ext db db' tableUuid h more) :
    ∃ new,
      db'.filesOf tableUuid =
          (db.filesOf tableUuid).map (FileRow.after more) ++
            new ∧
        ∀ row ∈ new,
          row.addedInTransactionId ∈ more.ids ∧
            ∀ t, row.removedInTransactionId = some t →
              t ∈ more.ids := by
  rcases stampLog_append h.fileLog more.fileLog with
    ⟨new, hRows, hNew⟩
  have hTimes : more.fileLog.map Prod.fst = more.ids := by
    simp [History.fileLog, History.ids]
  refine ⟨new.map (stampedRow ext tableUuid), ?_, ?_⟩
  · rw [hGrown.after.files, hGrown.before.files, fileRowsOf,
      fileRowsOf, History.fileLog_append, hRows,
      List.map_append, List.map_map, List.map_map]
    congr 1
    apply List.map_congr_left
    intro s _
    exact stampedRow_until s
  · intro row hRow
    rcases List.mem_map.mp hRow with ⟨s, hs, rfl⟩
    have hStamps := hNew s hs
    rw [hTimes] at hStamps
    exact ⟨hStamps.1, fun t ht => hStamps.2 t ht⟩

/- An older transaction has changed the same files. -/
theorem changedFiles
    (hGrown : Grown ext db db' tableUuid h more)
    (hOld : t ∈ h.ids)
    (changeKind : TxnFileChangeKind) :
    db'.changedFiles tableUuid changeKind t =
      (db.changedFiles tableUuid changeKind t).map
        (FileRow.after more) := by
  rcases hGrown.filesOf with ⟨new, hFiles, hNew⟩
  have hOther := hGrown.not_mem hOld
  unfold Database.changedFiles
  rw [hFiles]
  cases changeKind with
  | added =>
      apply filter_map_append
      · intro row _
        rfl
      · intro row hRow
        apply decide_eq_false
        rintro rfl
        exact hOther (hNew row hRow).1
  | removed =>
      apply filter_map_append
      · intro row _
        simp only [FileRow.after, decide_eq_decide,
          Option.or_eq_some_iff]
        constructor
        · rintro (hSame | ⟨_, hNew⟩)
          · exact hSame
          · exact absurd (mem_ids_of_removalIn hNew) hOther
        · exact .inl
      · intro row hRow
        apply decide_eq_false
        exact fun hStamp =>
          hOther ((hNew row hRow).2 t hStamp)

/-
  The changes of an older transaction are read again.  They
  were within the limit, so all rows had been selected.
-/
theorem fileChanges
    {changeKind : TxnFileChangeKind}
    {count count' : Nat}
    {changes : List TxnFileChange}
    (hGrown : Grown ext db db' tableUuid h more)
    (hOld : t ∈ h.ids)
    (hOk :
      Planar.fileChanges ext changeKind count
          (selectChanged ext changeKind tableUuid t db) =
        .ok (changes, count')) :
    ∃ changes',
      Planar.fileChanges ext changeKind count
          (selectChanged ext changeKind tableUuid t db') =
        .ok (changes', count') ∧
      changes'.map TxnFileChange.kind =
        (changes.map (TxnFileChange.after more)).map
          TxnFileChange.kind ∧
      changes'.Perm
        (changes.map (TxnFileChange.after more)) := by
  have hStamps :
      ∀ row ∈ selectChanged ext changeKind tableUuid t db,
        changeKind.stampOf row = .ok t :=
    stampOf_selectChanged changeKind db
  have hRows := hGrown.changedFiles hOld changeKind
  have hFew :
      (db.changedFiles tableUuid changeKind t).length ≤
        maxFilesPerQuery := by
    have hBound := length_of_fileChanges hStamps hOk
    by_contra hMany
    have hAll : maxFilesPerQuery <
        (selectChanged ext changeKind tableUuid t
          db).length :=
      length_selectChanged.mpr (Nat.not_le.mp hMany)
    exact absurd hBound (Nat.not_le.mpr hAll)
  have hFew' :
      (db'.changedFiles tableUuid changeKind t).length ≤
        maxFilesPerQuery := by
    rw [hRows, List.length_map]
    exact hFew
  have hLater := fileChanges_after more hStamps hOk
  have hPerm :
      (selectChanged ext changeKind tableUuid t db').Perm
        ((selectChanged ext changeKind tableUuid t db).map
          (FileRow.after more)) := by
    rw [selectChanged_eq hFew, selectChanged_eq hFew', hRows]
    exact (RowOrder.perm _ _).trans
      ((RowOrder.perm _ _).symm.map _)
  exact fileChanges_perm (stampOf_map_after more hStamps)
    hPerm hLater

theorem versionRow_until
    (position : Nat)
    (s : Stamped SchemaContents TxnId) :
    versionRow tableUuid position
        (s.until (replacementIn more)) =
      (versionRow tableUuid position s).after more := by
  simp only [versionRow, SchemaRow.after, Stamped.until]

theorem schemasOf
    (hGrown : Grown ext db db' tableUuid h more) :
    ∃ new,
      db'.schemasOf tableUuid =
          (db.schemasOf tableUuid).map
              (SchemaRow.after more) ++ new ∧
        ∀ row ∈ new,
          row.validFromTransactionId ∈ more.ids := by
  refine ⟨(succession more.schemaPoints).mapIdx fun i =>
    versionRow tableUuid
      (i + (succession h.schemaPoints).length), ?_, ?_⟩
  · rw [hGrown.after.schemas, hGrown.before.schemas,
      schemaRows, schemaRows, History.schemaPoints_append,
      succession_append, List.mapIdx_append, mapIdx_map,
      map_mapIdx, List.length_map]
    simp only [← versionRow_until]
    rfl
  · intro row hRow
    rcases List.mem_mapIdx.mp hRow with ⟨i, hi, rfl⟩
    have hOpened :
        ((succession more.schemaPoints)[i]).opened ∈
          more.schemaPoints.map Prod.fst := by
      rw [← opened_succession]
      exact List.mem_map_of_mem (List.getElem_mem hi)
    rcases List.mem_map.mp hOpened with ⟨p, hp, hEq⟩
    have hId := History.mem_ids_of_mem_schemaPoints hp
    rw [hEq] at hId
    exact hId

theorem selectSchemas
    (hGrown : Grown ext db db' tableUuid h more)
    (hOld : t ∈ h.ids) :
    Planar.selectSchemas tableUuid t db' =
      (Planar.selectSchemas tableUuid t db).map
        (SchemaRow.after more) := by
  rcases hGrown.schemasOf with ⟨new, hSchemas, hNew⟩
  unfold Planar.selectSchemas
  rw [hSchemas, List.map_take]
  congr 1
  apply filter_map_append
  · intro row _
    rfl
  · intro row hRow
    apply decide_eq_false
    rintro rfl
    exact hGrown.not_mem hOld (hNew row hRow)

/- The columns of an older schema have not changed. -/
theorem columnsOf
    {row : SchemaRow}
    (hGrown : Grown ext db db' tableUuid h more)
    (hRow : row ∈ db.schemasOf tableUuid) :
    db'.columnsOf row.schemaUuid =
      db.columnsOf row.schemaUuid := by
  rw [hGrown.before.schemas] at hRow
  rcases exists_point_of_mem hRow with ⟨p, hp, hEq⟩
  have hLater : p ∈ (h ++ more : History).schemaPoints := by
    rw [History.schemaPoints_append]
    exact List.mem_append_left _ hp
  rw [← hEq, hGrown.before.columns p hp,
    hGrown.after.columns p hLater]

theorem findTransaction
    {row : TransactionRow}
    (hGrown : Grown ext db db' tableUuid h more)
    (hFound : db.findTransaction tableUuid t = some row) :
    db'.findTransaction tableUuid t = some row := by
  rw [Database.findTransaction_find?] at hFound ⊢
  rw [hGrown.after.transactions, List.map_append,
    ← hGrown.before.transactions, List.find?_append, hFound]
  rfl

------------------------------------------------------------
-- Listing Again
------------------------------------------------------------

theorem exec_collectPath
    {fromExclusive : Option TxnId}
    {remaining : Nat}
    {path : List TxnId}
    {cursor : TxnId}
    {result : List TxnId × Bool}
    (hGrown : Grown ext db db' tableUuid h more)
    (hOk :
      (collectPath tableUuid fromExclusive remaining path
        cursor).exec db = .ok result) :
    (collectPath tableUuid fromExclusive remaining path
      cursor).exec db' = .ok result := by
  induction remaining generalizing path cursor with
  | zero =>
      unfold collectPath at hOk
      split at hOk
      · cases hOk
      · rw [Query.exec_bind, Query.exec_fetch] at hOk
        cases hRow : db.findTransaction tableUuid cursor <;>
          rw [hRow] at hOk <;> cases hOk
  | succ remaining ih =>
      unfold collectPath at hOk ⊢
      split at hOk
      · cases hOk
      · rename_i hNew
        rw [if_neg hNew]
        rw [Query.exec_bind_of_ok (Query.exec_fetch ..)]
          at hOk ⊢
        cases hRow : db.findTransaction tableUuid cursor with
        | none =>
            rw [hRow] at hOk
            cases hOk
        | some row =>
            rw [hGrown.findTransaction hRow]
            rw [hRow] at hOk
            dsimp only at hOk ⊢
            cases hParent : row.parentTransactionId with
            | none =>
                rw [hParent] at hOk
                exact hOk
            | some parent =>
                rw [hParent] at hOk
                dsimp only at hOk ⊢
                by_cases hBoundary :
                    some parent = fromExclusive
                · rw [if_pos hBoundary] at hOk ⊢
                  exact hOk
                · rw [if_neg hBoundary] at hOk ⊢
                  exact ih hOk

theorem exec_transactionPath
    {cursor : TxnRangeCursor}
    {path : List TxnId}
    (hGrown : Grown ext db db' tableUuid h more)
    (hOk :
      (transactionPath tableUuid cursor).exec db =
        .ok path) :
    (transactionPath tableUuid cursor).exec db' =
      .ok path := by
  unfold transactionPath at hOk ⊢
  rw [Query.exec_bind] at hOk ⊢
  rcases bind_ok.mp hOk with
    ⟨⟨ids, reached⟩, hPath, hReached⟩
  refine bind_ok.mpr
    ⟨(ids, reached), hGrown.exec_collectPath hPath, ?_⟩
  cases reached with
  | true => exact hReached
  | false => cases hReached

/- The end of the range still has its row. -/
theorem exec_checkEndExists
    {row : TransactionRow}
    {current toInclusive : TxnId}
    (hGrown : Grown ext db db' tableUuid h more)
    (hFound :
      db.findTransaction tableUuid toInclusive =
        some row) :
    (checkEndExists .sqlite tableUuid current
      toInclusive).exec db' = .ok () := by
  unfold checkEndExists
  split
  · rfl
  · rw [Query.exec_bind_of_ok (Query.exec_fetch ..),
      hGrown.findTransaction hFound]
    rfl

theorem exec_fetchColumns
    {what : String}
    {row : SchemaRow}
    {columns : List Column}
    (hGrown : Grown ext db db' tableUuid h more)
    (hRow : row ∈ db.schemasOf tableUuid)
    (hOk :
      (fetchColumns ext what row.schemaUuid).exec db =
        .ok columns) :
    (fetchColumns ext what row.schemaUuid).exec db' =
      .ok columns := by
  rw [← hOk]
  exact exec_fetchColumns_congr (hGrown.columnsOf hRow) what

theorem exec_schemaChange
    {count count' : Nat}
    {rows : List SchemaRow}
    {change : Option TxnSchemaChange}
    (hGrown : Grown ext db db' tableUuid h more)
    (hRows : ∀ row ∈ rows, row ∈ db.schemasOf tableUuid)
    (hOk :
      (schemaChange ext kind count rows).exec db =
        .ok (change, count')) :
    (schemaChange ext kind count
        (rows.map (SchemaRow.after more))).exec db' =
      .ok (change.map (TxnSchemaChange.after more),
        count') := by
  rcases rows with _ | ⟨row, _ | ⟨second, rest⟩⟩
  · rcases Prod.mk.inj (Except.ok.inj hOk) with ⟨rfl, rfl⟩
    rfl
  · rw [List.map_singleton]
    by_cases hLimit : count + 1 > maxSchemaChangesPerScan
    · simp only [schemaChange, hLimit, if_true] at hOk
      cases hOk
    · simp only [schemaChange, hLimit, if_false] at hOk ⊢
      rw [Query.exec_bind] at hOk ⊢
      rcases bind_ok.mp hOk with ⟨columns, hColumns, hRest⟩
      rw [Query.exec_bind] at hRest
      rcases bind_ok.mp hRest with ⟨schema, hSchema, hPure⟩
      rcases Prod.mk.inj (Except.ok.inj hPure) with
        ⟨rfl, rfl⟩
      have hColumns' := hGrown.exec_fetchColumns
        (hRows row List.mem_cons_self) hColumns
      refine bind_ok.mpr ⟨columns, hColumns', ?_⟩
      rw [Query.exec_bind]
      exact bind_ok.mpr
        ⟨_, decodeSchema_after hSchema, rfl⟩
  · cases hOk

theorem exec_readEvent
    {counts counts' : EventCounts}
    {event : TxnEvent}
    (hGrown : Grown ext db db' tableUuid h more)
    (hOld : t ∈ h.ids)
    (hOk :
      (readEvent ext kind tableUuid counts t).exec db =
        .ok (event, counts')) :
    ∃ event',
      (readEvent ext kind tableUuid counts t).exec db' =
        .ok (event', counts') ∧
      event'.Alike (event.after more) := by
  unfold readEvent at hOk ⊢
  simp only [Query.exec_bind, Query.exec_fetch,
    Query.exec_lift] at hOk ⊢
  rcases bind_ok.mp hOk with ⟨addedRows, hRows, hRest⟩
  cases hRows
  rcases bind_ok.mp hRest with
    ⟨⟨added, addedCount⟩, hAdded, hRest⟩
  rcases bind_ok.mp hRest with ⟨removedRows, hRows, hRest⟩
  cases hRows
  rcases bind_ok.mp hRest with
    ⟨⟨removed, removedCount⟩, hRemoved, hRest⟩
  rcases bind_ok.mp hRest with ⟨schemaRows, hRows, hRest⟩
  cases hRows
  rcases bind_ok.mp hRest with
    ⟨⟨change, schemaCount⟩, hChange, hPure⟩
  rcases Prod.mk.inj (Except.ok.inj hPure) with ⟨rfl, rfl⟩
  rcases hGrown.fileChanges hOld hAdded with
    ⟨added', hAdded', hKindsAdded, hSameAdded⟩
  rcases hGrown.fileChanges hOld hRemoved with
    ⟨removed', hRemoved', hKindsRemoved, hSameRemoved⟩
  have hSchemas : ∀ row ∈ Planar.selectSchemas tableUuid t db,
      row ∈ db.schemasOf tableUuid := by
    intro row hRow
    exact List.mem_of_mem_filter (List.mem_of_mem_take hRow)
  have hChange' :=
    hGrown.exec_schemaChange hSchemas hChange
  rw [← hGrown.selectSchemas hOld] at hChange'
  refine ⟨_, bind_ok.mpr ⟨_, rfl, bind_ok.mpr ⟨_, hAdded',
    bind_ok.mpr ⟨_, rfl, bind_ok.mpr ⟨_, hRemoved',
      bind_ok.mpr ⟨_, rfl,
        bind_ok.mpr ⟨_, hChange', rfl⟩⟩⟩⟩⟩⟩,
    rfl, ?_, ?_, rfl⟩
  · rw [TxnEvent.after, List.map_append, List.map_append,
      List.map_append, hKindsAdded, hKindsRemoved]
  · rw [TxnEvent.after, List.map_append]
    exact hSameAdded.append hSameRemoved

theorem exec_readEvents
    {counts : EventCounts}
    {path : List TxnId}
    {events : List TxnEvent}
    (hGrown : Grown ext db db' tableUuid h more)
    (hOld : ∀ t ∈ path, t ∈ h.ids)
    (hOk :
      (readEvents ext kind tableUuid counts path).exec db =
        .ok events) :
    ∃ events',
      (readEvents ext kind tableUuid counts path).exec db' =
        .ok events' ∧
      List.Forall₂ TxnEvent.Alike events'
        (events.map (TxnEvent.after more)) := by
  induction path generalizing counts events with
  | nil =>
      cases hOk
      exact ⟨[], rfl, .nil⟩
  | cons t rest ih =>
      unfold readEvents at hOk ⊢
      rw [Query.exec_bind] at hOk
      rcases bind_ok.mp hOk with
        ⟨⟨event, counts'⟩, hEvent, hRest⟩
      rw [Query.exec_bind] at hRest
      rcases bind_ok.mp hRest with ⟨later, hEvents, hPure⟩
      cases hPure
      rcases hGrown.exec_readEvent
        (hOld t List.mem_cons_self) hEvent with
        ⟨event', hEvent', hAlike⟩
      rcases ih
        (fun u hu => hOld u (List.mem_cons_of_mem _ hu))
        hEvents with ⟨later', hEvents', hAll⟩
      refine ⟨event' :: later', ?_, .cons hAlike hAll⟩
      rw [Query.exec_bind_of_ok hEvent',
        Query.exec_bind_of_ok hEvents']
      rfl

end Grown

end Planar
