import Planar.Reading.Success

/-
  When a listing of events succeeds: nothing exceeds a limit
  of the scan.

  Main declarations:
    * `Entry.changeCount`, `EventCounts.scan`
    * `WithinScan`, `succeeds_readEvents`
    * `succeeds_collectPath`, `locateRange`
    * `succeeds_listTransactionEvents`
    * `exec_readEvent_exceeds`
-/

------------------------------------------------------------
-- Events of One Transaction
------------------------------------------------------------

namespace Planar

variable
  {ext : External}
  {tableUuid : Uuid}

/- How many files an entry changes in one way. -/
def Entry.changeCount
    (e : Entry)
    (past : History) : TxnFileChangeKind → Nat
| .added => (insertedBy e.edits).length
| .removed => (retiredBy past.files e.edits).length

/- The counters after an entry. -/
def EventCounts.plus
    (counts : EventCounts)
    (past : History)
    (e : Entry) : EventCounts :=
  { added := counts.added + e.changeCount past .added
    removed := counts.removed + e.changeCount past .removed
    schemaChanges := counts.schemaChanges + e.schemas.length }

/- No counter is beyond its limit. -/
structure EventCounts.Within
    (counts : EventCounts) : Prop where
  added : counts.added ≤ maxFilesPerQuery
  removed : counts.removed ≤ maxFilesPerQuery
  schemaChanges :
    counts.schemaChanges ≤ maxSchemaChangesPerScan

section Events

variable
  {past after : History}
  {Later : History → Prop}
  {Good : Database → Prop}
  {e : Entry}

/- What an entry retires was there or is its own. -/
theorem mem_of_retired
    {f : FileContents}
    (hRetired : f ∈ retiredBy past.files e.edits) :
    ∃ e' ∈ past ++ [e], f ∈ insertedBy e'.edits := by
  have hAll := (perm_replayEdits past.files e.edits).mem_iff
    (a := f)
  rw [List.mem_append, List.mem_append] at hAll
  rcases hAll.mpr (.inr hRetired) with hLive | hNew
  · rcases History.mem_files hLive with ⟨e', hEntry, hIn⟩
    exact ⟨e', List.mem_append_left _ hEntry, hIn⟩
  · exact ⟨e, List.mem_append_right _
      (List.mem_singleton_self e), hNew⟩

/- Each item that an entry changed was appended. -/
theorem mem_of_changed
    {f : FileContents}
    {changeKind : TxnFileChangeKind}
    (hChanged : f ∈ changedItems past e changeKind) :
    ∃ e' ∈ past ++ [e], f ∈ insertedBy e'.edits := by
  cases changeKind with
  | added => exact ⟨e, by simp, hChanged⟩
  | removed => exact mem_of_retired hChanged

theorem Holds.length_changedFiles
    {db : Database}
    {later : History}
    (hHolds : Holds ext db tableUuid (past ++ e :: later))
    (changeKind : TxnFileChangeKind) :
    (db.changedFiles tableUuid changeKind
        e.transactionId).length =
      e.changeCount past changeKind := by
  have hItems := (changedItems_fileLog
    (hHolds.ids_nodup hHolds.sound) changeKind).length_eq
  rw [List.length_map] at hItems
  rw [hHolds.changedFiles_eq, List.length_map, hItems]
  cases changeKind <;> rfl

/- A listing selects the rows of the files that changed. -/
theorem Holds.length_selectChanged
    {db : Database}
    {later : History}
    (hHolds : Holds ext db tableUuid (past ++ e :: later))
    (changeKind : TxnFileChangeKind) :
    (selectChanged ext changeKind tableUuid
        e.transactionId db).length =
      min (maxFilesPerQuery + 1)
        (e.changeCount past changeKind) := by
  change (((ext.orders.changedFiles changeKind).arrange
    (db.changedFiles tableUuid changeKind _)).take
      _).length = _
  rw [List.length_take, RowOrder.length_arrange,
    hHolds.length_changedFiles]

/- The files that an entry changed can be decoded. -/
theorem Serves.selectChanged
    {db : Database}
    (hServes :
      Serves ext tableUuid (past ++ e :: after) Later db)
    (hReads : ReadsBack ext (past ++ e :: after))
    (changeKind : TxnFileChangeKind) :
    (Planar.selectChanged ext changeKind tableUuid
        e.transactionId db).length =
      min (maxFilesPerQuery + 1)
        (e.changeCount past changeKind) ∧
    ∃ files, decodeFiles ext
      (Planar.selectChanged ext changeKind tableUuid
        e.transactionId db) = .ok files := by
  rcases hServes.holds with ⟨later, _, hHolds⟩
  rw [List.append_assoc, List.cons_append] at hHolds
  have hItems := changedItems_fileLog
    (hHolds.ids_nodup hHolds.sound) changeKind
  refine ⟨hHolds.length_selectChanged changeKind, ?_⟩
  have hDecodes : ∃ files, decodeFiles ext
      (db.changedFiles tableUuid changeKind
        e.transactionId) = .ok files := by
    rw [hHolds.changedFiles_eq]
    refine ⟨_, decodeFiles_of_holds hHolds.toStored
      hServes.serialized
      (fun s hs => List.mem_of_mem_filter hs) ?_⟩
    intro s hs v hv
    rcases mem_of_changed (hItems.mem_iff.mp
      (List.mem_map_of_mem hs)) with ⟨e', hEntry, hIn⟩
    refine hReads.files e' ?_ _ hIn v hv
    rw [← List.singleton_append, ← List.append_assoc]
    exact List.mem_append_left _ hEntry
  rcases hDecodes with ⟨files, hFiles⟩
  rcases filesOf_perm
    ((ext.orders.changedFiles changeKind).perm _).symm
    hFiles with ⟨arranged, hArranged, _⟩
  exact decodeFiles_take hArranged _

/- Beyond the limit the scan fails. -/
theorem fileChanges_exceeds
    {t : TxnId}
    {changeKind : TxnFileChangeKind}
    {count : Nat}
    {rows : List FileRow}
    {files : List File}
    (hStamps : ∀ row ∈ rows, changeKind.stampOf row = .ok t)
    (hOk : decodeFiles ext rows = .ok files)
    (hLimit : maxFilesPerQuery < count + rows.length)
    (hCount : count ≤ maxFilesPerQuery) :
    fileChanges ext changeKind count rows =
      fault (.limitExceeded
        (s!"{changeKind.word} file events exceed limit of " ++
          s!"{maxFilesPerQuery}")) := by
  induction rows generalizing count files with
  | nil =>
      rw [List.length_nil] at hLimit
      omega
  | cons row rest ih =>
      rcases bind_ok.mp hOk with ⟨file, hFile, hRest⟩
      rcases bind_ok.mp hRest with ⟨files', hFiles, hCons⟩
      rw [List.length_cons] at hLimit
      unfold fileChanges
      by_cases hFull : count + 1 > maxFilesPerQuery
      · rw [if_pos hFull]
      · have hNext := @ih (count + 1) files'
          (fun r hr =>
            hStamps r (List.mem_cons_of_mem _ hr))
          hFiles (by omega) (by omega)
        rw [if_neg hFull, hStamps row List.mem_cons_self,
          hFile, hNext]
        rfl

/- The changes of one kind are read within the limit. -/
theorem succeeds_changes
    {β : Type}
    {Then : β → Prop}
    {changeKind : TxnFileChangeKind}
    {count : Nat}
    {next : List TxnFileChange × Nat → CatalogQuery β}
    (hGood : ∀ db, Good db →
      Serves ext tableUuid (past ++ e :: after) Later db)
    (hReads : ReadsBack ext (past ++ e :: after))
    (hLimit :
      count + e.changeCount past changeKind ≤
        maxFilesPerQuery)
    (hNext : ∀ changes,
      Query.Succeeds Good Then
        (next (changes,
          count + e.changeCount past changeKind))) :
    Query.Succeeds Good Then
      (do
        let rows ← Query.fetch
          (selectChanged ext changeKind tableUuid
            e.transactionId)
        let r ← Query.lift
          (fileChanges ext changeKind count rows)
        next r) := by
  apply Query.succeeds_fetch_bind
  intro db hDb
  rcases (hGood db hDb).selectChanged hReads changeKind with
    ⟨hLength, files, hFiles⟩
  have hChanges :
      fileChanges ext changeKind count
          (selectChanged ext changeKind tableUuid
            e.transactionId db) =
        .ok (changesOf e.transactionId changeKind files,
          count + e.changeCount past changeKind) :=
    (fileChanges_iff
      (stampOf_selectChanged changeKind db)).mpr
      ⟨files, hFiles, rfl, by omega, fun _ => by omega⟩
  exact Query.succeeds_lift_bind hChanges (hNext _)

/- The schema change of an entry is read. -/
theorem succeeds_schemaChange
    {β : Type}
    {Then : β → Prop}
    {count : Nat}
    {next :
      Option TxnSchemaChange × Nat → CatalogQuery β}
    (hGood : ∀ db, Good db →
      Serves ext tableUuid (past ++ e :: after) Later db)
    (hReadable : Readable ext (past ++ e :: after))
    (hLimit :
      count + e.schemas.length ≤ maxSchemaChangesPerScan)
    (hNext : ∀ change,
      Query.Succeeds Good Then
        (next (change, count + e.schemas.length))) :
    Query.Succeeds Good Then
      (do
        let rows ← Query.fetch
          (selectSchemas tableUuid e.transactionId)
        let r ← schemaChange ext .sqlite count rows
        next r) := by
  apply Query.succeeds_fetch_bind
  intro db hDb
  rcases (hGood db hDb).holds with ⟨later, _, hHolds⟩
  rw [List.append_assoc, List.cons_append] at hHolds
  have hIds := hHolds.ids_nodup hHolds.sound
  have hOne := hHolds.lawful.oneSchema e (by simp)
  match hSchemas : e.schemas with
  | [] =>
      have hRows : selectSchemas tableUuid
          e.transactionId db = [] := by
        unfold selectSchemas
        rw [hHolds.noSchema_eq hIds hSchemas]
        rfl
      rw [hRows]
      have hDone := hNext none
      rw [hSchemas] at hDone
      exact hDone
  | [s] =>
      have hRows : selectSchemas tableUuid
          e.transactionId db =
          [versionRow tableUuid past.schemaPoints.length
            ⟨s, e.transactionId,
              (History.schemaPoints
                (after ++ later)).head?.map Prod.fst⟩] := by
        unfold selectSchemas
        rw [hHolds.newSchema_eq hIds hSchemas]
        rfl
      rw [hRows]
      rw [hSchemas, List.length_singleton] at hLimit
      have hPoint : (e.transactionId, s) ∈
          History.schemaPoints (past ++ e :: after) := by
        refine List.mem_flatMap.mpr ⟨e, by simp, ?_⟩
        rw [hSchemas]
        exact List.mem_singleton_self _
      have hColumns := succeeds_fetchColumns hGood
        hReadable hPoint "schema change column count"
      have hChange : Query.Succeeds Good
          (fun r => r.2 = count + 1)
          (schemaChange ext .sqlite count
            [versionRow tableUuid past.schemaPoints.length
              ⟨s, e.transactionId,
                (History.schemaPoints
                  (after ++ later)).head?.map
                    Prod.fst⟩]) := by
        simp only [schemaChange]
        rw [if_neg (by omega)]
        apply hColumns.bind
        intro columns _
        rcases decodeSchema_sqlite
          (versionRow tableUuid past.schemaPoints.length
            ⟨s, e.transactionId,
              (History.schemaPoints
                (after ++ later)).head?.map Prod.fst⟩)
          columns with ⟨schema, hSchema⟩
        apply Query.succeeds_lift_bind hSchema
        exact Query.succeeds_pure rfl
      apply hChange.bind
      rintro ⟨change, count'⟩ hCount
      have hDone := hNext change
      rw [hSchemas, List.length_singleton] at hDone
      exact (show count' = count + 1 from hCount) ▸ hDone
  | _ :: _ :: _ =>
      rw [hSchemas] at hOne
      simp at hOne

/- The event of an entry is read within the limits. -/
theorem succeeds_readEvent
    {counts : EventCounts}
    (hGood : ∀ db, Good db →
      Serves ext tableUuid (past ++ e :: after) Later db)
    (hReadable : Readable ext (past ++ e :: after))
    (hWithin : (counts.plus past e).Within) :
    Query.Succeeds Good
      (fun r => r.1.transactionId = e.transactionId ∧
        r.2 = counts.plus past e)
      (readEvent ext .sqlite tableUuid counts
        e.transactionId) := by
  have hReads := hReadable.toReadsBack
  apply succeeds_changes hGood hReads hWithin.added
  intro addedChanges
  apply succeeds_changes hGood hReads hWithin.removed
  intro removedChanges
  apply succeeds_schemaChange hGood hReadable
    hWithin.schemaChanges
  intro change
  exact Query.succeeds_pure ⟨rfl, rfl⟩

------------------------------------------------------------
-- Events of a Range
------------------------------------------------------------

/- The counters after the entries of a range. -/
def EventCounts.scan
    (counts : EventCounts)
    (past : History) : History → EventCounts
| [] => counts
| e :: rest => (counts.plus past e).scan (past ++ [e]) rest

/- The counters only grow. -/
theorem EventCounts.Within.of_scan
    {counts : EventCounts}
    {range : History}
    (hWithin : (counts.scan past range).Within) :
    counts.Within := by
  induction range generalizing counts past with
  | nil => exact hWithin
  | cons e rest ih =>
      have hNext := ih hWithin
      exact
        { added := Nat.le_of_add_right_le hNext.added
          removed := Nat.le_of_add_right_le hNext.removed
          schemaChanges :=
            Nat.le_of_add_right_le hNext.schemaChanges }

/- A range that a scan may list after a past. -/
structure WithinScan (past range : History) : Prop where
  transactions : range.length ≤ maxTransactionsPerScan
  counts : (EventCounts.scan {} past range).Within

/- The events of a range are read within the limits. -/
theorem succeeds_readEvents
    {counts : EventCounts}
    {range : History}
    (hGood : ∀ db, Good db →
      Serves ext tableUuid (past ++ range) Later db)
    (hReadable : Readable ext (past ++ range))
    (hWithin : (counts.scan past range).Within) :
    Query.Succeeds Good
      (fun events =>
        events.map TxnEvent.transactionId = range.ids)
      (readEvents ext .sqlite tableUuid counts
        range.ids) := by
  induction range generalizing counts past with
  | nil => exact Query.succeeds_pure rfl
  | cons e rest ih =>
      have hEvent := succeeds_readEvent hGood hReadable
        (EventCounts.Within.of_scan hWithin)
      have hSplit : past ++ e :: rest =
          (past ++ [e]) ++ rest := by
        simp
      rw [hSplit] at hGood hReadable
      apply hEvent.bind
      rintro ⟨event, counts'⟩ ⟨hId, rfl⟩
      apply (ih hGood hReadable hWithin).bind
      intro events hIds
      exact Query.succeeds_pure (congrArg₂ _ hId hIds)

end Events

------------------------------------------------------------
-- The Path of a Range
------------------------------------------------------------

section Paths

variable
  {Good : Database → Prop}
  {fromExclusive : Option TxnId}
  {earlier range path : List TxnId}

/-
  The scan from the end of a range collects the range.  The
  induction takes the last id off the range.
-/
theorem succeeds_collectPath
    {remaining : Nat}
    {cursor : TxnId}
    (hGood : ∀ db, Good db → ∃ more,
      Chained db tableUuid
        (earlier ++ (range ++ [cursor]) ++ path ++ more))
    (hNodup :
      (earlier ++ (range ++ [cursor]) ++ path).Nodup)
    (hBoundary : earlier.getLast? = fromExclusive)
    (hLimit : range.length < remaining) :
    Query.Succeeds Good
      (fun r => r = (range ++ [cursor] ++ path, true))
      (collectPath tableUuid fromExclusive remaining path
        cursor) := by
  induction remaining generalizing range path cursor with
  | zero => cases hLimit
  | succ remaining ih =>
      have hNew : cursor ∉ path := by
        have hSplit := List.nodup_append.mp hNodup
        intro hMember
        exact hSplit.2.2 cursor (by simp) cursor hMember rfl
      rw [collectPath, if_neg hNew]
      apply Query.succeeds_fetch_bind
      intro db hDb
      rcases hGood db hDb with ⟨more, hChained⟩
      have hChain : Chained db tableUuid
          ((earlier ++ range) ++ cursor ::
            (path ++ more)) := by
        simpa using hChained
      rcases hChain.findTransaction with
        ⟨row, hRow, hParent⟩
      simp only [hRow, hParent]
      rcases List.eq_nil_or_concat' range with
        rfl | ⟨front, parent, rfl⟩
      · -- the cursor is the first id of the range
        rw [List.append_nil, hBoundary]
        cases fromExclusive with
        | none => exact Query.succeeds_pure (by simp)
        | some boundary =>
            dsimp only
            rw [if_pos rfl]
            exact Query.succeeds_pure (by simp)
      · rw [← List.append_assoc, List.getLast?_concat]
        have hOther : some parent ≠ fromExclusive := by
          rintro rfl
          have hIn := List.mem_of_getLast? hBoundary
          rw [List.append_assoc] at hNodup
          have hSplit := List.nodup_append.mp hNodup
          exact hSplit.2.2 parent hIn parent (by simp) rfl
        dsimp only
        rw [if_neg hOther]
        have hShift :
            earlier ++ (front ++ [parent]) ++
                cursor :: path =
              earlier ++ (front ++ [parent] ++ [cursor]) ++
                path := by
          simp
        have hNext := @ih front (cursor :: path) parent
          (by
            intro db hDb
            rw [hShift]
            exact hGood db hDb)
          (by rwa [hShift])
          (by simp at hLimit; omega)
        simpa using hNext

/- The path of a range is the range. -/
theorem succeeds_transactionPath
    {cursor : TxnRangeCursor}
    (hGood : ∀ db, Good db → ∃ more,
      Chained db tableUuid (earlier ++ range ++ more))
    (hNodup : (earlier ++ range).Nodup)
    (hStart : earlier.getLast? = cursor.fromExclusive)
    (hStop : range.getLast? = some cursor.toInclusive)
    (hLimit : range.length ≤ maxTransactionsPerScan) :
    Query.Succeeds Good (fun path => path = range)
      (transactionPath tableUuid cursor) := by
  rcases List.getLast?_eq_some_iff.mp hStop with
    ⟨front, rfl⟩
  rw [List.length_append, List.length_singleton] at hLimit
  have hCollect := @succeeds_collectPath tableUuid Good
    cursor.fromExclusive earlier front []
    maxTransactionsPerScan cursor.toInclusive
    (by simpa using hGood) (by simpa using hNodup) hStart
    (by omega)
  apply hCollect.bind
  rintro ⟨path, reached⟩ hPath
  rcases Prod.mk.inj hPath with ⟨rfl, rfl⟩
  exact Query.succeeds_pure (by simp)

/- SQLite decodes the row that shows the end of a range. -/
theorem succeeds_checkEndExists
    {current : TxnId}
    {cursor : TxnRangeCursor}
    (hGood : ∀ db, Good db → ∃ more,
      Chained db tableUuid (earlier ++ range ++ more))
    (hStop : range.getLast? = some cursor.toInclusive) :
    Query.Succeeds Good (fun _ => True)
      (checkEndExists .sqlite tableUuid current
        cursor.toInclusive) := by
  unfold checkEndExists
  by_cases hHead : current = cursor.toInclusive
  · rw [if_pos hHead]
    exact Query.succeeds_pure trivial
  rw [if_neg hHead]
  apply Query.succeeds_fetch_bind
  intro db hDb
  rcases List.getLast?_eq_some_iff.mp hStop with
    ⟨front, rfl⟩
  rcases hGood db hDb with ⟨more, hChained⟩
  have hChain : Chained db tableUuid
      ((earlier ++ front) ++ cursor.toInclusive ::
        more) := by
    simpa using hChained
  rcases hChain.findTransaction with ⟨row, hRow, _⟩
  rw [hRow]
  exact Query.succeeds_pure trivial

end Paths

------------------------------------------------------------
-- A Listing of a Range
------------------------------------------------------------

/- A database shows a table that has a head. -/
def Shows
    (ident : TableIdent)
    (tableUuid : Uuid)
    (db : Database) : Prop :=
  ∃ row current, db.findTable ident = some row ∧
    row.tableUuid = tableUuid ∧
    row.currentTransactionId = some current

variable
  {catalog : SqlCatalog}
  {ident : TableIdent}
  {cursor : TxnRangeCursor}
  {Good : Database → Prop}
  {Later : History → Prop}
  {past range : History}

theorem Serves.chained
    {db : Database}
    (hServes : Serves ext tableUuid past Later db) :
    ∃ more, Chained db tableUuid (past.ids ++ more) := by
  rcases hServes.holds with ⟨later, _, hHolds⟩
  refine ⟨later.ids, ?_⟩
  rw [← History.ids_append]
  exact hHolds.chained

/- The part of a listing before its events are read. -/
def locateRange
    (kind : DbKind)
    (ident : TableIdent)
    (cursor : TxnRangeCursor) :
    CatalogQuery (Uuid × List TxnId) := do
  let row ← Query.fetch fun db => db.findTable ident
  match row with
  | none => Query.fail (.returned (.notFound ident.toText))
  | some row => do
      let current ←
        Query.lift (requireHead row.currentTransactionId)
      checkEndExists kind row.tableUuid current
        cursor.toInclusive
      let path ← transactionPath row.tableUuid cursor
      pure (row.tableUuid, path)

theorem listTransactionEvents_eq
    (ext : External)
    (catalog : SqlCatalog)
    (ident : TableIdent)
    (cursor : TxnRangeCursor) :
    listTransactionEvents ext catalog ident cursor =
      locateRange catalog.kind ident cursor >>=
        fun r => readEvents ext catalog.kind r.1 {} r.2 := by
  unfold listTransactionEvents locateRange
  rw [Query.bind_assoc]
  congr 1
  funext row
  cases row with
  | none => rfl
  | some row =>
      dsimp only
      rw [Query.bind_assoc]
      congr 1
      funext current
      rw [Query.bind_assoc]
      congr 1
      funext _
      rw [Query.bind_assoc]
      rfl

/- A range of a history is located. -/
theorem succeeds_locateRange
    (hShows : ∀ db, Good db → Shows ident tableUuid db)
    (hGood : ∀ db, Good db →
      Serves ext tableUuid (past ++ range) Later db)
    (hNodup : (History.ids (past ++ range)).Nodup)
    (hStart : past.ids.getLast? = cursor.fromExclusive)
    (hStop : range.ids.getLast? = some cursor.toInclusive)
    (hLimit : range.length ≤ maxTransactionsPerScan) :
    Query.Succeeds Good (fun r => r = (tableUuid, range.ids))
      (locateRange .sqlite ident cursor) := by
  have hChains : ∀ db, Good db → ∃ more,
      Chained db tableUuid
        (past.ids ++ range.ids ++ more) := by
    intro db hDb
    rw [← History.ids_append]
    exact (hGood db hDb).chained
  rw [History.ids_append] at hNodup
  have hLength : range.ids.length ≤
      maxTransactionsPerScan := by
    rwa [History.ids, List.length_map]
  apply Query.succeeds_fetch_bind
  intro db hDb
  rcases hShows db hDb with
    ⟨row, current, hFound, rfl, hHead⟩
  have hCurrent :
      requireHead row.currentTransactionId =
        .ok current := by
    rw [hHead]
    rfl
  rw [hFound]
  apply Query.succeeds_lift_bind hCurrent
  apply (succeeds_checkEndExists hChains hStop).bind
  intro _ _
  apply (succeeds_transactionPath hChains hNodup hStart
    hStop hLength).bind
  rintro path rfl
  exact Query.succeeds_pure rfl

/- A listing within the limits succeeds. -/
theorem succeeds_listTransactionEvents
    (hKind : catalog.kind = .sqlite)
    (hShows : ∀ db, Good db → Shows ident tableUuid db)
    (hGood : ∀ db, Good db →
      Serves ext tableUuid (past ++ range) Later db)
    (hNodup : (History.ids (past ++ range)).Nodup)
    (hReadable : Readable ext (past ++ range))
    (hStart : past.ids.getLast? = cursor.fromExclusive)
    (hStop : range.ids.getLast? = some cursor.toInclusive)
    (hWithin : WithinScan past range) :
    Query.Succeeds Good
      (fun events =>
        events.map TxnEvent.transactionId = range.ids)
      (listTransactionEvents ext catalog ident cursor) := by
  rw [listTransactionEvents_eq, hKind]
  apply (succeeds_locateRange hShows hGood hNodup hStart
    hStop hWithin.transactions).bind
  rintro r rfl
  exact succeeds_readEvents hGood hReadable hWithin.counts

------------------------------------------------------------
-- A Listing of One Transaction
------------------------------------------------------------

/- The error of a scan with too many changes. -/
def changesExceeded (changeKind : TxnFileChangeKind) : String :=
  s!"{changeKind.word} file events exceed limit of " ++
    s!"{maxFilesPerQuery}"

/- Too many changes of one kind fail the scan. -/
theorem fileChanges_selected_exceeds
    {db : Database}
    {e : Entry}
    {later : History}
    {changeKind : TxnFileChangeKind}
    (hServes :
      Serves ext tableUuid (past ++ e :: later) Later db)
    (hReads : ReadsBack ext (past ++ e :: later))
    (hMany :
      maxFilesPerQuery < e.changeCount past changeKind) :
    fileChanges ext changeKind 0
        (selectChanged ext changeKind tableUuid
          e.transactionId db) =
      fault (.limitExceeded
        (changesExceeded changeKind)) := by
  rcases hServes.selectChanged hReads changeKind with
    ⟨hLength, files, hFiles⟩
  apply fileChanges_exceeds
    (stampOf_selectChanged changeKind db) hFiles
  · rw [hLength]
    omega
  · exact Nat.zero_le _

/- A transaction with too many changes cannot be read. -/
theorem exec_readEvent_exceeds
    {db : Database}
    {e : Entry}
    {later : History}
    {changeKind : TxnFileChangeKind}
    (hServes :
      Serves ext tableUuid (past ++ e :: later) Later db)
    (hReads : ReadsBack ext (past ++ e :: later))
    (hMany :
      maxFilesPerQuery < e.changeCount past changeKind) :
    ∃ text,
      (readEvent ext .sqlite tableUuid {}
        e.transactionId).exec db =
          fault (.limitExceeded text) := by
  by_cases hAdded :
      maxFilesPerQuery < e.changeCount past .added
  · refine ⟨changesExceeded .added, ?_⟩
    unfold readEvent
    rw [Query.exec_bind_of_ok (Query.exec_fetch ..),
      fileChanges_selected_exceeds hServes hReads hAdded]
    rfl
  · have hRemoved :
        maxFilesPerQuery < e.changeCount past .removed := by
      cases changeKind with
      | added => exact absurd hMany hAdded
      | removed => exact hMany
    have hFew : e.changeCount past .added ≤
        maxFilesPerQuery := Nat.le_of_not_lt hAdded
    rcases hServes.selectChanged hReads .added with
      ⟨hLength, files, hFiles⟩
    have hChanges :
        fileChanges ext .added 0
            (selectChanged ext .added tableUuid
              e.transactionId db) =
          .ok (changesOf e.transactionId .added files,
            e.changeCount past .added) :=
      (fileChanges_iff
        (stampOf_selectChanged .added db)).mpr
        ⟨files, hFiles, rfl, by omega, fun _ => by omega⟩
    refine ⟨changesExceeded .removed, ?_⟩
    unfold readEvent
    rw [Query.exec_bind_of_ok (Query.exec_fetch ..),
      Query.exec_lift_bind_of_ok hChanges]
    dsimp only
    rw [Query.exec_bind_of_ok (Query.exec_fetch ..),
      fileChanges_selected_exceeds hServes hReads hRemoved]
    rfl

end Planar
