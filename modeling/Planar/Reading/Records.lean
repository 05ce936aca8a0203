import Planar.Reading.EventLog

/-
  The events of a listing record the entries of its range,
  and folding them is replaying the entries.

  Main declarations:
    * `History.appended`, `Holds.appended_nodup`
    * `TxnEvent.Records`, `Recorded`
    * `recorded_of_seen`
    * `foldEvents`, `Recorded.fold`
-/

------------------------------------------------------------
-- All Files of a History
------------------------------------------------------------

namespace Planar

/- All files that a history ever appended. -/
def History.appended (h : History) : List FileContents :=
  h.flatMap fun e => insertedBy e.edits

@[simp] theorem History.appended_append
    (h k : History) :
    appended (h ++ k) = appended h ++ appended k := by
  simp [appended]

@[simp] theorem History.appended_singleton
    (e : Entry) :
    appended [e] = insertedBy e.edits := by
  simp [appended]

theorem History.items_fileLog
    (h : History) :
    (stampLog h.fileLog).map Stamped.item = h.appended := by
  rw [items_stampLog, fileLog, List.flatMap_map]
  rfl

theorem History.files_sublist
    (h : History) :
    h.files.Sublist h.appended := by
  rw [files, ← open_items_stampLog, ← items_fileLog]
  exact List.filter_sublist.map _

theorem History.files_concat
    (h : History)
    (e : Entry) :
    files (h ++ [e]) = replayEdits h.files e.edits := by
  simp [files]

variable
  {ext : External}
  {kind : DbKind}
  {db : Database}
  {tableUuid : Uuid}

theorem Stored.fileUuids
    {h : History}
    (hStored : Stored ext db tableUuid h) :
    (db.filesOf tableUuid).map FileRow.fileUuid =
      h.appended.map FileContents.fileUuid := by
  rw [hStored.files, fileRowsOf, ← History.items_fileLog,
    List.map_map, List.map_map]
  rfl

theorem Database.Sound.filesOf_nodup
    (hSound : db.Sound)
    (tableUuid : Uuid) :
    ((db.filesOf tableUuid).map FileRow.fileUuid).Nodup :=
  hSound.fileUuids.sublist (List.filter_sublist.map _)

/- All files of a table have distinct UUIDs. -/
theorem Holds.appended_nodup
    {h : History}
    (hHolds : Holds ext db tableUuid h) :
    (h.appended.map FileContents.fileUuid).Nodup := by
  rw [← hHolds.fileUuids]
  exact hHolds.sound.filesOf_nodup tableUuid

------------------------------------------------------------
-- Files Changed by One Entry
------------------------------------------------------------

theorem decodeFile_fileUuid
    {row : FileRow}
    {file : File}
    (hOk : decodeFile ext row = .ok file) :
    file.fileUuid = row.fileUuid := by
  rcases bind_ok.mp hOk with ⟨partition, _, hRest⟩
  rcases bind_ok.mp hRest with ⟨format, _, hFile⟩
  rw [← Except.ok.inj hFile]

theorem decodeFiles_fileUuid
    {rows : List FileRow}
    {files : List File}
    (hOk : decodeFiles ext rows = .ok files) :
    files.map File.fileUuid =
      rows.map FileRow.fileUuid := by
  have hRows := decodeFiles_ok hOk
  clear hOk
  induction hRows with
  | nil => rfl
  | cons hRow _ ih =>
      rw [List.map_cons, List.map_cons,
        decodeFile_fileUuid hRow, ih]

/- What is seen comes after an entry of the table. -/
def SeenAfter
    (ext : External)
    (tableUuid : Uuid)
    (past : History)
    (e : Entry)
    (Seen : Database → Prop) : Prop :=
  ∀ db, Seen db → ∃ later,
    Holds ext db tableUuid (past ++ e :: later)

/- The items of one kind of change. -/
def changedItems
    (past : History)
    (e : Entry) : TxnFileChangeKind → List FileContents
| .added => insertedBy e.edits
| .removed => retiredBy past.files e.edits

/- The items of the rows that an entry changed. -/
theorem changedItems_fileLog
    {past later : History}
    {e : Entry}
    (hNodup : (History.ids (past ++ e :: later)).Nodup)
    (changeKind : TxnFileChangeKind) :
    (((stampLog
        (History.fileLog (past ++ e :: later))).filter
          fun s => changeKind.stamps e.transactionId
            s).map Stamped.item).Perm
      (changedItems past e changeKind) := by
  cases changeKind with
  | added => exact .of_eq (addedItems_fileLog hNodup)
  | removed => exact removedItems_fileLog hNodup

theorem ChangesSeen.uuids
    {Seen : Database → Prop}
    {past : History}
    {e : Entry}
    {changeKind : TxnFileChangeKind}
    {files : List File}
    (hAfter : SeenAfter ext tableUuid past e Seen)
    (hSeen :
      ChangesSeen ext tableUuid Seen e.transactionId
        changeKind files) :
    (files.map File.fileUuid).Perm
      ((changedItems past e changeKind).map
        FileContents.fileUuid) := by
  rcases hSeen.seen with ⟨db, hDb, decoded, hOk, hPerm⟩
  rcases hAfter db hDb with ⟨later, hHolds⟩
  have hItems := (changedItems_fileLog
    (hHolds.ids_nodup hHolds.sound) changeKind).map
      FileContents.fileUuid
  refine (hPerm.map File.fileUuid).trans ?_
  rw [decodeFiles_fileUuid hOk, hHolds.changedFiles_eq,
    List.map_map]
  rw [List.map_map] at hItems
  exact hItems

------------------------------------------------------------
-- Records of One Entry
------------------------------------------------------------

/-
  An event records an entry made after a past: the files it
  appended, each once, then the live files it deleted, each
  once, and the schema it brought.
-/
structure TxnEvent.Records
    (event : TxnEvent)
    (past : History)
    (e : Entry) : Prop where
  transactionId : event.transactionId = e.transactionId
  fileChanges : ∃ added removed,
    event.fileChanges =
      changesOf e.transactionId .added added ++
        changesOf e.transactionId .removed removed ∧
    (added.map File.listed).Perm
      ((insertedBy e.edits).map FileContents.listed) ∧
    (removed.map File.listed).Perm
      ((retiredBy past.files e.edits).map
        FileContents.listed) ∧
    (added.map File.fileUuid).Nodup ∧
    (removed.map File.fileUuid).Nodup
  schemaChange :
    (event.schemaChange.map fun change =>
        (change.transactionId,
          change.schema.columns.map Column.spec)) =
      e.schemas.head?.map fun s =>
        (e.transactionId, s.specs)

variable
  {past later : History}
  {e : Entry}

/- The decoded files of one kind of change. -/
theorem Stored.changedFiles_listed
    {h : History}
    {t : TxnId}
    {changeKind : TxnFileChangeKind}
    {files : List File}
    (hStored : Stored ext db tableUuid h)
    (hReads : ReadsBack ext h)
    (hFiles :
      FilesOf ext (db.changedFiles tableUuid changeKind t)
        files) :
    (files.map File.listed).Perm
      ((((stampLog h.fileLog).filter fun s =>
          changeKind.stamps t s).map
        Stamped.item).map FileContents.listed) := by
  rcases hFiles with ⟨decoded, hOk, hPerm⟩
  refine (hPerm.map File.listed).trans (.of_eq ?_)
  rw [hStored.changedFiles_eq] at hOk
  rw [decodeFiles_stampedRows ?_ hOk, List.map_map,
    List.map_map]
  · rfl
  · intro s hMember
    have hItem : s.item ∈ h.appended := by
      rw [← History.items_fileLog]
      exact List.mem_map_of_mem
        (List.mem_filter.mp hMember).1
    rcases List.mem_flatMap.mp hItem with ⟨e, hEntry, hIn⟩
    exact hReads.files e hEntry s.item hIn

theorem ChangesSeen.nodup
    {t : TxnId}
    {changeKind : TxnFileChangeKind}
    {files : List File}
    (hSeen :
      ChangesSeen ext tableUuid (fun x => x = db) t
        changeKind files)
    (hSound : db.Sound) :
    (files.map File.fileUuid).Nodup := by
  rcases hSeen.seen with ⟨_, rfl, decoded, hOk, hPerm⟩
  rw [(hPerm.map File.fileUuid).nodup_iff,
    decodeFiles_fileUuid hOk]
  exact (hSound.filesOf_nodup tableUuid).sublist
    (List.filter_sublist.map _)

/- The schema change of an entry. -/
theorem SchemaChangeSeen.records
    {change : Option TxnSchemaChange}
    (hSeen :
      SchemaChangeSeen ext kind tableUuid (fun x => x = db)
        e.transactionId change)
    (hStored :
      Stored ext db tableUuid (past ++ e :: later))
    (hNodup : (History.ids (past ++ e :: later)).Nodup)
    (hOne : e.schemas.length ≤ 1)
    (hReads : ReadsBack ext (past ++ e :: later)) :
    (change.map fun change =>
        (change.transactionId,
          change.schema.columns.map Column.spec)) =
      e.schemas.head?.map fun s =>
        (e.transactionId, s.specs) := by
  match hSchemas : e.schemas with
  | [] =>
      have hNone := hStored.noSchema_eq hNodup hSchemas
      cases hSeen with
      | absent => rfl
      | brought hRowSeen _ hRow =>
          subst hRowSeen
          rw [Database.newSchemas, hNone] at hRow
          cases hRow
  | [s] =>
      have hSome := hStored.newSchema_eq hNodup hSchemas
      cases hSeen with
      | absent hDb hNone =>
          subst hDb
          rw [Database.newSchemas, hSome] at hNone
          cases hNone
      | brought hRowSeen hColumnSeen hRow hLimit hColumns
          hSchema =>
          subst hRowSeen
          subst hColumnSeen
          rw [Database.newSchemas, hSome] at hRow
          rcases List.cons.inj hRow with ⟨rfl, _⟩
          have hPoint :
              (e.transactionId, s) ∈
                History.schemaPoints (past ++ e :: later) := by
            apply List.mem_flatMap.mpr
            refine ⟨e, by simp, ?_⟩
            rw [hSchemas]
            exact List.mem_singleton.mpr rfl
          have hStoredColumns := hStored.columns _ hPoint
          have hOrder :=
            selectColumns_eq hStoredColumns hLimit
          change
            decodeColumns ext
              (selectColumns s.schemaUuid _) = _
                at hColumns
          rw [hOrder] at hColumns
          have hSpecs := decodeColumns_encodes
            (encodes_columnRows ext s)
            (hReads.types _ hPoint) hColumns
          rw [decodeSchema_ok hSchema]
          simp [hSpecs, versionRow]
  | _ :: _ :: _ =>
      rw [hSchemas] at hOne
      simp at hOne

/- An event that was seen records its entry. -/
theorem EventSeen.records
    {event : TxnEvent}
    (hSeen :
      EventSeen ext kind tableUuid (fun x => x = db)
        e.transactionId event)
    (hHolds :
      Holds ext db tableUuid (past ++ e :: later))
    (hReads : ReadsBack ext (past ++ e :: later)) :
    event.Records past e := by
  have hStored := hHolds.toStored
  have hNodup := hStored.ids_nodup hHolds.sound
  constructor
  case transactionId => exact hSeen.transactionId
  case schemaChange =>
    exact hSeen.schemaChange.records hStored hNodup
      (hHolds.lawful.oneSchema e (by simp)) hReads
  case fileChanges =>
    rcases hSeen.fileChanges with
      ⟨added, removed, hAdded, hRemoved, hChanges⟩
    refine ⟨added, removed, hChanges, ?_, ?_,
      hAdded.nodup hHolds.sound,
      hRemoved.nodup hHolds.sound⟩
    · rcases hAdded.seen with ⟨_, rfl, hFiles⟩
      rw [← addedItems_fileLog hNodup]
      exact hStored.changedFiles_listed hReads hFiles
    · rcases hRemoved.seen with ⟨_, rfl, hFiles⟩
      exact (hStored.changedFiles_listed hReads hFiles).trans
        ((removedItems_fileLog hNodup).map _)

------------------------------------------------------------
-- Records of a Range
------------------------------------------------------------

/- The events record the entries of a range, one by one. -/
inductive Recorded :
    History → History → List TxnEvent → Prop
  | nil {past : History} : Recorded past [] []
  | cons {past rest : History} {e : Entry}
      {event : TxnEvent} {events : List TxnEvent}
      (hEvent : event.Records past e)
      (hRest : Recorded (past ++ [e]) rest events) :
      Recorded past (e :: rest) (event :: events)

theorem Recorded.transactionIds
    {range : History}
    {events : List TxnEvent}
    (hRecorded : Recorded past range events) :
    events.map TxnEvent.transactionId = range.ids := by
  induction hRecorded with
  | nil => rfl
  | cons hEvent _ ih =>
      rw [List.map_cons, hEvent.transactionId, ih]
      rfl

theorem recorded_of_seen
    {range : History}
    {events : List TxnEvent}
    (hSeen :
      List.Forall₂
        (EventSeen ext kind tableUuid fun x => x = db)
        range.ids events)
    (hHolds :
      Holds ext db tableUuid (past ++ range ++ later))
    (hReads : ReadsBack ext (past ++ range ++ later)) :
    Recorded past range events := by
  induction range generalizing past events with
  | nil =>
      cases hSeen
      exact .nil
  | cons e rest ih =>
      cases hSeen with
      | cons hEvent hRest =>
          have hHere :
              past ++ e :: rest ++ later =
                past ++ e :: (rest ++ later) := by
            simp
          have hNext :
              past ++ e :: rest ++ later =
                past ++ [e] ++ rest ++ later := by
            simp
          refine .cons ?_ (ih hRest ?_ ?_)
          · rw [hHere] at hHolds hReads
            exact hEvent.records hHolds hReads
          · rwa [hNext] at hHolds
          · rwa [hNext] at hReads

------------------------------------------------------------
-- Folding Events
------------------------------------------------------------

/- Apply one file change to a set of files. -/
def applyChange
    (files : List ListedFile)
    (change : TxnFileChange) : List ListedFile :=
  match change.kind with
  | .added => files ++ [change.file.listed]
  | .removed =>
      files.filter fun f =>
        f.fileUuid ≠ change.file.fileUuid

/- Apply the file changes of events, in order. -/
def foldEvents
    (files : List ListedFile)
    (events : List TxnEvent) : List ListedFile :=
  (events.flatMap TxnEvent.fileChanges).foldl applyChange
    files

theorem fold_added
    (t : TxnId)
    (files : List ListedFile)
    (added : List File) :
    (changesOf t .added added).foldl applyChange files =
      files ++ added.map File.listed := by
  induction added generalizing files with
  | nil => simp [changesOf]
  | cons file rest ih =>
      rw [changesOf, List.map_cons, List.foldl_cons]
      rw [changesOf] at ih
      rw [ih]
      simp [applyChange]

theorem fold_removed
    (t : TxnId)
    (files : List ListedFile)
    (removed : List File) :
    (changesOf t .removed removed).foldl applyChange files =
      files.filter fun f =>
        f.fileUuid ∉ removed.map File.fileUuid := by
  induction removed generalizing files with
  | nil => simp [changesOf]
  | cons file rest ih =>
      rw [changesOf, List.map_cons, List.foldl_cons]
      rw [changesOf] at ih
      rw [ih]
      simp only [applyChange, List.filter_filter]
      apply List.filter_congr
      intro f _
      simp [not_or, Bool.and_comm]

/- Taking away the second part by its keys. -/
theorem filter_keys_of_nodup
    {α κ : Type}
    [DecidableEq κ]
    {key : α → κ}
    {first second : List α}
    (hNodup : ((first ++ second).map key).Nodup) :
    ((first ++ second).filter fun a =>
        key a ∉ second.map key) = first := by
  rw [List.map_append, List.nodup_append] at hNodup
  rw [List.filter_append, List.filter_eq_self.mpr,
    List.filter_eq_nil_iff.mpr, List.append_nil]
  · intro a hMember
    simpa using ⟨a, hMember, rfl⟩
  · intro a hMember
    apply decide_eq_true
    intro hIn
    exact hNodup.2.2 (key a) (List.mem_map_of_mem hMember)
      (key a) hIn rfl

/- The event of an entry acts as the entry's edits. -/
theorem TxnEvent.Records.fold
    {event : TxnEvent}
    {files : List ListedFile}
    (hRecords : event.Records past e)
    (hNodup :
      ((History.appended (past ++ [e])).map
        FileContents.fileUuid).Nodup)
    (hFiles :
      files.Perm (past.files.map FileContents.listed)) :
    (event.fileChanges.foldl applyChange files).Perm
      ((History.files (past ++ [e])).map
        FileContents.listed) := by
  rcases hRecords.fileChanges with
    ⟨added, removed, hChanges, hAdded, hRemoved, _, _⟩
  have hLive :
      ((past.files ++ insertedBy e.edits).map
        FileContents.fileUuid).Nodup := by
    refine hNodup.sublist (List.Sublist.map _ ?_)
    rw [History.appended_append,
      History.appended_singleton]
    exact past.files_sublist.append (List.Sublist.refl _)
  have hEdits := perm_replayEdits past.files e.edits
  have hUuids : ∀ u,
      u ∈ removed.map File.fileUuid ↔
        u ∈ (retiredBy past.files e.edits).map
          FileContents.fileUuid := by
    intro u
    have hPerm :=
      (hRemoved.map ListedFile.fileUuid).mem_iff
        (a := u)
    simpa [List.map_map, Function.comp_def,
      File.listed, FileContents.listed] using hPerm
  rw [hChanges, List.foldl_append, fold_added, fold_removed]
  have hAll :
      (files ++ added.map File.listed).Perm
        ((replayEdits past.files e.edits ++
          retiredBy past.files e.edits).map
            FileContents.listed) := by
    refine (hFiles.append hAdded).trans ?_
    rw [← List.map_append]
    exact hEdits.map _
  have hKept :
      ((replayEdits past.files e.edits ++
          retiredBy past.files e.edits).filter fun f =>
            f.fileUuid ∉ removed.map File.fileUuid) =
        replayEdits past.files e.edits := by
    simp only [hUuids]
    exact filter_keys_of_nodup
      ((hEdits.map FileContents.fileUuid).nodup_iff.mp
        hLive)
  refine (hAll.filter _).trans ?_
  rw [History.files_concat, List.filter_map]
  exact List.Perm.of_eq
    (congrArg (List.map FileContents.listed) hKept)

/- Folding the events of a range is replaying it. -/
theorem Recorded.fold
    {range : History}
    {events : List TxnEvent}
    {files : List ListedFile}
    (hRecorded : Recorded past range events)
    (hNodup :
      ((History.appended (past ++ range)).map
        FileContents.fileUuid).Nodup)
    (hFiles :
      files.Perm (past.files.map FileContents.listed)) :
    (foldEvents files events).Perm
      ((History.files (past ++ range)).map
        FileContents.listed) := by
  induction hRecorded generalizing files with
  | nil => simpa [foldEvents] using hFiles
  | @cons past rest e event events hEvent _ ih =>
      have hNext :
          past ++ e :: rest = past ++ [e] ++ rest := by
        simp
      rw [hNext] at hNodup ⊢
      have hHere :
          ((History.appended (past ++ [e])).map
            FileContents.fileUuid).Nodup := by
        rw [History.appended_append, List.map_append]
          at hNodup
        exact (List.nodup_append.mp hNodup).1
      rw [foldEvents, List.flatMap_cons, List.foldl_append]
      exact ih hNodup (hEvent.fold hHere hFiles)

end Planar
