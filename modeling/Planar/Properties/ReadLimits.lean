import Planar.History.Appends
import Planar.History.OwnCalls
import Planar.Properties.TimeTravel
import Planar.Reading.Scans

/-
  A table can be read, and a transaction can be listed, up
  to the limits of the readers.  A commit may go beyond
  them.

  Main declarations:
    * `World.Reachable.headReads`
    * `World.Reachable.transactionLists`
    * `largeWorld`
-/

------------------------------------------------------------
-- Reads of the Head
------------------------------------------------------------

namespace Planar

variable
  {ext : External}
  {catalog : SqlCatalog}
  {ident : TableIdent}
  {row : TableRow}
  {w : World}

/-
  For a client that supports the table, a read of the head
  is as good as the files it fetches.
-/
theorem World.Reachable.exec_head
    (hReach : w.Reachable ext)
    (hOrdered : w.Ordered)
    (hReadable : Readable ext (w.history ident))
    (hKind : catalog.kind = .sqlite)
    (hFound : w.database.findTable ident = some row)
    (hReader :
      row.minReaderVersion ≤ catalog.readerVersion) :
    ∃ (t : TxnId) (view : List File → TableView),
      Holds ext w.database row.tableUuid
        (w.history ident) ∧
      (∀ i ∈ (w.history ident).ids, i ≤ t) ∧
      (readTable ext catalog ident none).exec w.database =
        ((fetchFiles ext row.tableUuid t).exec
          w.database).map view := by
  have hInv := hReach.inv
  rcases Database.findTable_some hFound with
    ⟨hMember, rfl⟩
  have hHolds := hInv.holds hMember
  rcases hLast : (w.history row.ident).ids.getLast? with
    _ | t
  · exact absurd (List.getLast?_eq_none_iff.mp hLast)
      hHolds.lawful.ids_nonempty
  have hIncreasing := hOrdered.history hHolds.lawful.linked
  have hIds : ∀ i ∈ (w.history row.ident).ids, i ≤ t :=
    History.ids_le_of_past
      (by rwa [List.append_nil]) hLast
  rcases exec_readHead hKind hFound hReader
      (hInv.tracked row hMember) hHolds hReach.serialized
      hReadable hLast hIds with
    ⟨view, hView⟩
  exact ⟨t, view, hHolds, hIds, hView⟩

/-
  A client that supports the table can read its head as long
  as no more files are live than a read returns.  With more
  files the read fails by the limit.
-/
theorem World.Reachable.headReads
    (hReach : w.Reachable ext)
    (hOrdered : w.Ordered)
    (hReadable : Readable ext (w.history ident))
    (hKind : catalog.kind = .sqlite)
    (hFound : w.database.findTable ident = some row)
    (hReader :
      row.minReaderVersion ≤ catalog.readerVersion) :
    ((w.history ident).files.length ≤ maxFilesPerQuery →
      ∃ view,
        (readTable ext catalog ident none).exec w.database =
          .ok view) ∧
    (maxFilesPerQuery < (w.history ident).files.length →
      (readTable ext catalog ident none).exec w.database =
        fault (.limitExceeded
          s!"file count exceeds limit of {maxFilesPerQuery}"
        )) := by
  rcases hReach.exec_head hOrdered hReadable hKind hFound
    hReader with ⟨t, view, hHolds, hIds, hView⟩
  have hFiles := exec_fetchHeadFiles hHolds hReach.serialized
    hReadable.toReadsBack hIds
  rw [hView]
  constructor
  · intro hFew
    rcases hFiles.1 hFew with ⟨files, hFetch⟩
    rw [hFetch]
    exact ⟨view files, rfl⟩
  · intro hMany
    rw [hFiles.2 hMany]
    rfl

theorem headReads_sample :
    ∃ view,
      (readTable sampleExternal sampleCatalog sampleIdent
        none).exec sampleWorld.database = .ok view := by
  have hSome :
      (sampleWorld.database.findTable
        sampleIdent).isSome = true := by
    decide +kernel
  have hReader : ∀ row ∈
      sampleWorld.database.findTable sampleIdent,
      row.minReaderVersion ≤
        sampleCatalog.readerVersion := by
    decide +kernel
  rcases Option.isSome_iff_exists.mp hSome with ⟨row, hRow⟩
  have hReadable : Readable sampleExternal
      (sampleWorld.history sampleIdent) :=
    ⟨by decide +kernel, by decide +kernel⟩
  exact ((World.reachable_run sampleExternal
    sampleCalls).headReads (by decide +kernel) hReadable rfl
      hRow (hReader row hRow)).1
        (by decide +kernel)

------------------------------------------------------------
-- Listings of One Transaction
------------------------------------------------------------

theorem World.Inv.shows
    (hInv : w.Inv ext)
    (hMember : row ∈ w.database.tables) :
    Shows row.ident row.tableUuid w.database := by
  have hTracked := hInv.tracked row hMember
  have hLawful := hInv.lawful row hMember
  rcases hLast : (w.history row.ident).ids.getLast? with
    _ | t
  · exact absurd (List.getLast?_eq_none_iff.mp hLast)
      hLawful.ids_nonempty
  · exact ⟨row, t, hInv.sound.findTable hMember, rfl,
      hTracked.head.trans hLast⟩

theorem World.Inv.serves
    {past later : History}
    (hInv : w.Inv ext)
    (hSerialized : Serialized ext w.database.jsonTexts)
    (hMember : row ∈ w.database.tables)
    (hSplit : w.history row.ident = past ++ later) :
    Serves ext row.tableUuid past (fun _ => True)
      w.database :=
  ⟨⟨later, trivial, hSplit ▸ hInv.holds hMember⟩,
    hSerialized⟩

/-
  The narrowest listing of a transaction, from its parent to
  itself, is as good as the one event it reads.
-/
theorem World.Reachable.locates
    {past later : History}
    {e : Entry}
    (hReach : w.Reachable ext)
    (hKind : catalog.kind = .sqlite)
    (hSplit : w.history ident = past ++ e :: later) :
    e.parentTransactionId = past.ids.getLast? ∧
    e.schemas.length ≤ 1 ∧
    ∃ tableUuid,
      Serves ext tableUuid (past ++ e :: []) (fun _ => True)
        w.database ∧
      (listTransactionEvents ext catalog ident
        ⟨e.parentTransactionId, e.transactionId⟩).exec
          w.database =
        (readEvents ext .sqlite tableUuid {}
          [e.transactionId]).exec w.database := by
  have hInv := hReach.inv
  have hCalls : w.callsOn ident ≠ [] := by
    intro hNone
    rw [World.history_eq, hNone] at hSplit
    exact absurd hSplit.symm (by simp)
  rcases hInv.findTable_of_calls hCalls with ⟨row, hFound⟩
  rcases Database.findTable_some hFound with
    ⟨hMember, rfl⟩
  have hHolds := hInv.holds hMember
  have hSchemas := hHolds.lawful.oneSchema e
    (by simp [hSplit])
  have hLinked := hHolds.lawful.linked
  have hNodup := hHolds.ids_nodup hHolds.sound
  rw [hSplit] at hLinked hNodup
  have hParent := hLinked.parent
  have hOne : past ++ e :: later =
      (past ++ [e]) ++ later := by
    simp
  rw [hOne, History.ids_append] at hNodup
  have hServes :=
    hInv.serves hReach.serialized hMember
      (hSplit.trans hOne)
  have hShows := hInv.shows hMember
  have hLocate : Query.Succeeds (· = w.database)
      (fun r => r = (row.tableUuid, History.ids [e]))
      (locateRange .sqlite row.ident
        ⟨e.parentTransactionId, e.transactionId⟩) :=
    succeeds_locateRange (fun x hx => hx ▸ hShows)
      (fun x hx => hx ▸ hServes)
      (List.nodup_append.mp hNodup).1 hParent.symm rfl
      (by simp [maxTransactionsPerScan])
  rcases hLocate.exec rfl with ⟨r, hLocated, rfl⟩
  refine ⟨hParent, hSchemas, row.tableUuid, hServes, ?_⟩
  rw [listTransactionEvents_eq, hKind,
    Query.exec_bind_of_ok hLocated]
  rfl

/- Too many changes of one kind fail the listing. -/
theorem exec_readEvents_exceeds
    {db : Database}
    {tableUuid : Uuid}
    {past : History}
    {e : Entry}
    {changeKind : TxnFileChangeKind}
    (hServes :
      Serves ext tableUuid (past ++ e :: []) (fun _ => True)
        db)
    (hReads : ReadsBack ext (past ++ e :: []))
    (hMany :
      maxFilesPerQuery < e.changeCount past changeKind) :
    ∃ text,
      (readEvents ext .sqlite tableUuid {}
        [e.transactionId]).exec db =
          fault (.limitExceeded text) := by
  rcases exec_readEvent_exceeds hServes hReads hMany with
    ⟨text, hFault⟩
  refine ⟨text, ?_⟩
  change Query.exec db
    (readEvent ext .sqlite tableUuid {} e.transactionId >>=
      _) = _
  rw [Query.exec_bind, hFault]
  rfl

/-
  The narrowest listing of a transaction, from its parent to
  itself, returns its event as long as it added and removed
  no more files than a listing returns.  With more it fails
  by the limit.
-/
theorem World.Reachable.transactionLists
    {past later : History}
    {e : Entry}
    (hReach : w.Reachable ext)
    (hReadable : Readable ext (w.history ident))
    (hKind : catalog.kind = .sqlite)
    (hSplit : w.history ident = past ++ e :: later) :
    e.parentTransactionId = past.ids.getLast? ∧
    ((∀ changeKind,
        e.changeCount past changeKind ≤ maxFilesPerQuery) →
      ∃ event,
        (listTransactionEvents ext catalog ident
          ⟨e.parentTransactionId, e.transactionId⟩).exec
            w.database = .ok [event] ∧
          event.transactionId = e.transactionId) ∧
    (∀ changeKind,
      maxFilesPerQuery < e.changeCount past changeKind →
      ∃ text,
        (listTransactionEvents ext catalog ident
          ⟨e.parentTransactionId, e.transactionId⟩).exec
            w.database = fault (.limitExceeded text)) := by
  rcases hReach.locates hKind hSplit with
    ⟨hParent, hSchemas, tableUuid, hServes, hList⟩
  have hReadable' : Readable ext (past ++ e :: []) := by
    have hAll : Readable ext ((past ++ e :: []) ++ later) := by
      rw [hSplit] at hReadable
      simpa using hReadable
    exact hAll.past
  rw [hList]
  refine ⟨hParent, ?_, ?_⟩
  · intro hFew
    have hWithin :
        (EventCounts.scan {} past [e]).Within :=
      { added := by
          simpa [EventCounts.scan, EventCounts.plus]
            using hFew .added
        removed := by
          simpa [EventCounts.scan, EventCounts.plus]
            using hFew .removed
        schemaChanges := by
          simp only [EventCounts.scan, EventCounts.plus,
            maxSchemaChangesPerScan]
          omega }
    have hEvents : Query.Succeeds (· = w.database) _
        (readEvents ext .sqlite tableUuid {}
          (History.ids [e])) :=
      succeeds_readEvents (fun x hx => hx ▸ hServes)
        hReadable' hWithin
    rcases hEvents.exec rfl with ⟨events, hRead, hIds⟩
    rcases List.map_eq_singleton_iff.mp hIds with
      ⟨event, rfl, hId⟩
    exact ⟨event, hRead, hId⟩
  · intro changeKind hMany
    exact exec_readEvents_exceeds hServes
      hReadable'.toReadsBack hMany

theorem transactionLists_sample :
    ∃ event,
      (listTransactionEvents sampleExternal sampleCatalog
        sampleIdent ⟨some 1, 2⟩).exec
          sampleWorld.database = .ok [event] ∧
        event.transactionId = 2 := by
  have hReadable : Readable sampleExternal
      (sampleWorld.history sampleIdent) :=
    ⟨by decide +kernel, by decide +kernel⟩
  have hSplit : sampleWorld.history sampleIdent =
      [(sampleCreate 1).entry] ++
        (sampleCommit 2 1
          [.appendFiles [sampleFile, sampleFile],
            .updateSchema
              ⟨[⟨"a", .int64, false⟩, ⟨"b", .utf8, true⟩]⟩,
            .deleteFiles [2000]]).entry ::
          [(sampleCommit 3 2
            [.deleteFiles [2001],
              .setProperties
                ⟨[("k", .string "v")]⟩]).entry] := by
    decide +kernel
  have hKind : sampleCatalog.kind = .sqlite := rfl
  apply ((World.reachable_run sampleExternal
    sampleCalls).transactionLists hReadable hKind
      hSplit).2.1
  intro changeKind
  cases changeKind <;> decide +kernel

------------------------------------------------------------
-- A Large Commit
------------------------------------------------------------

/- Eleven groups of a thousand files. -/
def largeGroups : List (List FileSpec) :=
  List.replicate 11 (List.replicate 1000 sampleFile)

def largeDraws : Draws :=
  { sampleDraws 2 with
    fileUuid := fun op i => Fin.ofNat _ (1000 * op + i) }

def largeCall : CommitCall :=
  { catalog := sampleCatalog
    ident := sampleIdent
    base := 1
    mutation := ⟨largeGroups.map .appendFiles⟩
    draws := largeDraws }

/- A table, and one commit with eleven thousand files. -/
def largeWorld : World :=
  World.run sampleExternal
    [sampleCreate 1, .commit largeCall]

theorem appendedUuids_replicate
    {f : FileSpec}
    (hFresh : f.fileUuid = none)
    (fileUuid : Nat → Uuid)
    (n : Nat) :
    appendedUuids fileUuid 0 (List.replicate n f) =
      (List.range n).map fileUuid := by
  apply List.ext_getElem
  · simp [appendedUuids]
  · intro i hLeft hRight
    simp [appendedUuids, hFresh]

/- The groups are numbered without gaps. -/
theorem groupUuids_large
    (op n : Nat) :
    groupUuids largeDraws op
        (List.replicate n (List.replicate 1000 sampleFile)) =
      (List.range (1000 * n)).map fun i =>
        Fin.ofNat _ (1000 * op + i) := by
  induction n generalizing op with
  | zero => rfl
  | succ n ih =>
      have hSize : 1000 * (n + 1) = 1000 + 1000 * n := by
        omega
      have hIndex (i : Nat) :
          1000 * (op + 1) + i =
            1000 * op + (1000 + i) := by omega
      rw [List.replicate_succ, groupUuids, ih,
        appendedUuids_replicate rfl, hSize, List.range_add,
        List.map_append, List.map_map]
      simp only [hIndex]
      rfl

theorem nodup_largeUuids :
    (groupUuids largeDraws 0 largeGroups).Nodup := by
  rw [largeGroups, groupUuids_large]
  apply List.Nodup.map_on _ List.nodup_range
  intro a ha b hb hEq
  rw [List.mem_range] at ha hb
  have hValue := congrArg Fin.val hEq
  rw [Fin.val_ofNat, Fin.val_ofNat,
    Nat.mod_eq_of_lt (by omega),
    Nat.mod_eq_of_lt (by omega)] at hValue
  omega

/- The database before the large commit. -/
def smallDatabase : Database :=
  (World.run sampleExternal [sampleCreate 1]).database

/- Its table row. -/
def smallRow : TableRow :=
  { tableUuid := 1000
    tableName := "t"
    tableNamespace := "n"
    location := "l"
    currentSchemaUuid := some 1000
    currentTransactionId := some 1
    createdAt := 1
    properties := some "\x7b\x7d"
    minReaderVersion := 1
    minWriterVersion := 1 }

/- The row of the large transaction. -/
def largeTransaction : TransactionRow :=
  { transactionId := 2
    tableUuid := 1000
    transactionTimestamp := 2
    parentTransactionId := some 1 }

theorem largeRoom :
    (smallDatabase.effect
      (.insertTransaction largeTransaction)).Room 1000 2
        (groupUuids largeDraws 0 largeGroups) where
  table := by decide +kernel
  transaction := by decide +kernel
  fresh := by
    intro u _ hKey
    rcases Database.mem_keyList_file.mp hKey with
      ⟨row, hRow, _⟩
    have hNone : (smallDatabase.effect
        (.insertTransaction largeTransaction)).files =
          [] := by
      decide +kernel
    rw [hNone] at hRow
    cases hRow
  nodup := nodup_largeUuids

theorem storable_sampleFile :
    sampleFile.Storable sampleExternal :=
  ⟨by decide +kernel, ⟨none, rfl⟩, ⟨none, rfl⟩⟩

/- The large commit is accepted. -/
theorem commit_large :
    ∃ db, commit sampleExternal largeCall.catalog
        largeCall.ident largeCall.base largeCall.mutation
        largeCall.draws smallDatabase = (.ok ⟨2⟩, db) := by
  have hGroups : ∀ files ∈ largeGroups,
      files = List.replicate 1000 sampleFile :=
    fun files hFiles => List.eq_of_mem_replicate hFiles
  have hFound : smallDatabase.findTable sampleIdent =
      some smallRow := by
    decide +kernel
  have hParsed :
      parseTableProperties sampleExternal
        smallRow.properties = .ok {} := by
    decide +kernel
  have hText :
      serializeJson sampleExternal
        (TableProperties.toJson {}) =
          .ok "\x7b\x7d" := by
    decide +kernel
  have hInsert :
      smallDatabase.check
        (.insertTransaction largeTransaction) = .ok () := by
    decide +kernel
  apply commit_appends rfl hFound hParsed hText
    (by decide +kernel) rfl hInsert
  · intro files hFiles
    rw [hGroups files hFiles, List.length_replicate]
    decide
  · intro files hFiles f hFile
    rw [hGroups files hFiles] at hFile
    rw [List.eq_of_mem_replicate hFile]
    exact storable_sampleFile
  · exact largeRoom

theorem World.perform_of_ok
    {call : Call}
    {u : Unit}
    {db : Database}
    (hOk : call.perform ext w.database = (.ok u, db)) :
    w.perform ext call = ⟨db, w.calls ++ [call]⟩ := by
  unfold World.perform
  rw [hOk]

theorem Call.perform_commit_of_ok
    {call : CommitCall}
    {r : CommitResult}
    {db db' : Database}
    (hOk :
      Planar.commit ext call.catalog call.ident call.base
        call.mutation call.draws db = (.ok r, db')) :
    (Call.commit call).perform ext db = (.ok (), db') := by
  simp only [Call.perform, hOk]
  rfl

/- The run of the large commit has two successful calls. -/
theorem calls_largeWorld :
    largeWorld.calls =
      [sampleCreate 1, .commit largeCall] := by
  rcases commit_large with ⟨db, hCommit⟩
  have hStart :
      (World.run sampleExternal [sampleCreate 1]).calls =
        [sampleCreate 1] := rfl
  have hRun : largeWorld =
      (World.run sampleExternal [sampleCreate 1]).perform
        sampleExternal (.commit largeCall) :=
    World.run_concat sampleExternal [sampleCreate 1] _
  rw [hRun, World.perform_of_ok
    (Call.perform_commit_of_ok hCommit), hStart]
  rfl

theorem history_largeWorld :
    largeWorld.history sampleIdent =
      [(sampleCreate 1).entry,
        (Call.commit largeCall).entry] := by
  have hCreate : (sampleCreate 1).ident = sampleIdent := rfl
  have hCommit :
      (Call.commit largeCall).ident = sampleIdent := rfl
  rw [World.history, calls_largeWorld]
  simp [hCreate, hCommit]

theorem appendsOnly_large :
    AppendsOnly (Call.commit largeCall).entry.changes :=
  appendsOnly_changesFrom largeDraws 0 largeGroups

/- The large commit appends eleven thousand files. -/
theorem inserted_large :
    (insertedBy
      (Call.commit largeCall).entry.edits).length = 11000 ∧
    ∀ f ∈ insertedBy (Call.commit largeCall).entry.edits,
      f.jsonValues = [] := by
  have hAll := insertedBy_changesFrom largeDraws 0
    largeGroups
  constructor
  · have hLength : largeGroups.flatten.length = 11000 := by
      rw [largeGroups, List.flatten_replicate_replicate,
        List.length_replicate]
    exact hAll.1.trans hLength
  · intro f hFile
    rcases hAll.2 f hFile with ⟨g, hMember, u, rfl⟩
    rcases List.mem_flatten.mp hMember with
      ⟨files, hFiles, hIn⟩
    rw [List.eq_of_mem_replicate hFiles] at hIn
    rw [List.eq_of_mem_replicate hIn]
    rfl

theorem schemaPoints_largeWorld :
    History.schemaPoints
        (largeWorld.history sampleIdent) =
      History.schemaPoints [(sampleCreate 1).entry] := by
  have hNone : (Call.commit largeCall).entry.schemas = [] :=
    appendsOnly_large.schemas
  rw [history_largeWorld]
  simp [History.schemaPoints, hNone]

theorem properties_largeWorld
    {past later : History}
    (hSplit :
      largeWorld.history sampleIdent = past ++ later) :
    past.properties = {} := by
  rw [history_largeWorld] at hSplit
  have hPrefix := List.mem_inits past _ |>.mpr
    ⟨later, hSplit.symm⟩
  have hCreate (p : TableProperties) :
      (sampleCreate 1).entry.changes.foldl
        Change.onProperties p = {} := rfl
  simp only [List.inits, List.map_cons, List.map_nil,
    List.mem_cons, List.not_mem_nil, or_false] at hPrefix
  rcases hPrefix with rfl | rfl | rfl
  · rfl
  · rfl
  · simp only [History.properties, List.foldl_cons,
      List.foldl_nil, hCreate,
      appendsOnly_large.properties]

theorem readable_largeWorld :
    Readable sampleExternal
      (largeWorld.history sampleIdent) := by
  have hSmall :
      ReadsBack sampleExternal
        [(sampleCreate 1).entry] := by
    decide +kernel
  have hPoints := schemaPoints_largeWorld
  exact
    { types := by
        rw [hPoints]
        exact hSmall.types
      columns := by
        rw [hPoints]
        decide +kernel
      files := by
        rw [history_largeWorld]
        intro e hEntry f hFile value hValue
        rcases List.mem_cons.mp hEntry with rfl | hEntry
        · cases hFile
        · rw [List.mem_singleton.mp hEntry] at hFile
          rw [inserted_large.2 f hFile] at hValue
          cases hValue
      properties := by
        intro past later hSplit
        rw [properties_largeWorld hSplit]
        exact hSmall.properties [] _ rfl }

/- All files of the large commit are live at the head. -/
theorem files_largeWorld :
    (largeWorld.history sampleIdent).files.length =
      11000 := by
  have hPerm := perm_replayEdits
    (History.files [(sampleCreate 1).entry])
    (Call.commit largeCall).entry.edits
  have hRetired := appendsOnly_large.retiredBy
    (History.files [(sampleCreate 1).entry])
  have hNone :
      History.files [(sampleCreate 1).entry] = [] := rfl
  change retiredBy _ (Call.commit largeCall).entry.edits =
    [] at hRetired
  have hLength := hPerm.length_eq
  rw [hRetired, List.append_nil, hNone, List.nil_append,
    inserted_large.1] at hLength
  rw [history_largeWorld]
  have hConcat := History.files_concat
    [(sampleCreate 1).entry] (Call.commit largeCall).entry
  rw [hNone] at hConcat
  change (History.files
    ([(sampleCreate 1).entry] ++
      [(Call.commit largeCall).entry])).length = _
  rw [hConcat, ← hLength]

theorem ordered_largeWorld : largeWorld.Ordered := by
  intro call hCall
  rw [calls_largeWorld] at hCall
  rcases List.mem_cons.mp hCall with rfl | hCall
  · exact trivial
  · rw [List.mem_singleton.mp hCall]
    change (1 : TxnId) < 2
    decide

/- The table of the run supports the client of the run. -/
theorem findTable_largeWorld :
    ∃ row,
      largeWorld.database.findTable sampleIdent =
        some row ∧
      row.minReaderVersion ≤
        sampleCatalog.readerVersion := by
  have hReach : largeWorld.Reachable sampleExternal :=
    World.reachable_run ..
  have hCalls : largeWorld.callsOn sampleIdent =
      [sampleCreate 1, .commit largeCall] := by
    have hCreate :
        (sampleCreate 1).ident = sampleIdent := rfl
    have hCommit :
        (Call.commit largeCall).ident = sampleIdent := rfl
    rw [World.callsOn, calls_largeWorld]
    simp [hCreate, hCommit]
  rw [hReach.findTable, hCalls]
  rcases World.rowOf_create sampleExternal _ _ with
    ⟨row, hRow, hFixed⟩
  exact ⟨row, hRow,
    (congrArg TableRow.minReaderVersion hFixed).le⟩

/-
  After one commit with eleven thousand files the head
  cannot be read.
-/
theorem headReads_large :
    largeWorld.Reachable sampleExternal ∧
    largeWorld.calls =
      [sampleCreate 1, .commit largeCall] ∧
    ∃ row,
      largeWorld.database.findTable sampleIdent =
        some row ∧
      row.minReaderVersion ≤ sampleCatalog.readerVersion ∧
      (readTable sampleExternal sampleCatalog sampleIdent
        none).exec largeWorld.database =
          fault (.limitExceeded
            s!"file count exceeds limit of {maxFilesPerQuery}"
          ) := by
  have hReach : largeWorld.Reachable sampleExternal :=
    World.reachable_run ..
  rcases findTable_largeWorld with ⟨row, hFound, hReader⟩
  rcases hReach.exec_head ordered_largeWorld
    readable_largeWorld rfl hFound hReader with
    ⟨t, view, hHolds, hIds, hView⟩
  have hFiles := exec_fetchHeadFiles hHolds hReach.serialized
    readable_largeWorld.toReadsBack hIds
  refine ⟨hReach, calls_largeWorld, row, hFound, hReader, ?_⟩
  rw [hView, hFiles.2]
  · rfl
  · rw [files_largeWorld]
    decide

/- Its events cannot be listed, not even by themselves. -/
theorem transactionLists_large :
    largeWorld.Reachable sampleExternal ∧
    largeWorld.calls =
      [sampleCreate 1, .commit largeCall] ∧
    ∃ text,
      (listTransactionEvents sampleExternal sampleCatalog
        sampleIdent ⟨some 1, 2⟩).exec largeWorld.database =
          fault (.limitExceeded text) := by
  have hReach : largeWorld.Reachable sampleExternal :=
    World.reachable_run ..
  have hSplit : largeWorld.history sampleIdent =
      [(sampleCreate 1).entry] ++
        (Call.commit largeCall).entry :: [] :=
    history_largeWorld
  have hKind : sampleCatalog.kind = .sqlite := rfl
  rcases hReach.locates hKind hSplit with
    ⟨_, _, tableUuid, hServes, hList⟩
  have hReadable := readable_largeWorld
  rw [hSplit] at hReadable
  have hMany : maxFilesPerQuery <
      (Call.commit largeCall).entry.changeCount
        [(sampleCreate 1).entry] .added := by
    rw [Entry.changeCount, inserted_large.1]
    decide
  rcases exec_readEvents_exceeds hServes
    hReadable.toReadsBack hMany with ⟨text, hFault⟩
  exact ⟨hReach, calls_largeWorld, text,
    hList.trans hFault⟩

end Planar
