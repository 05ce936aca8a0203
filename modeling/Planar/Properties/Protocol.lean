import Planar.Catalog.Calls
import Planar.Properties.Diff
import Planar.Properties.Isolation
import Planar.Reading.Scans

/-
  The protocol versions of a table and what they keep from
  clients of older versions.

  Main declarations:
    * `World.after`, the calls of one client
    * `Answer.RevealsNothing`, `CatalogCall.ListsChanges`
    * `World.Reachable.protocolGates`
-/

------------------------------------------------------------
-- What an Answer Contains
------------------------------------------------------------

namespace Planar

/- The files of an answer. -/
def Answer.files : Answer → List File
| .events log =>
    (log.flatMap TxnEvent.fileChanges).map
      TxnFileChange.file
| .view shown => shown.files
| .delta change => change.addedFiles ++ change.removedFiles
| _ => []

/- The schemas of an answer, with their columns. -/
def Answer.schemas : Answer → List Schema
| .events log =>
    (log.filterMap TxnEvent.schemaChange).map
      TxnSchemaChange.schema
| .view shown => [shown.schema]
| .delta change => change.newSchema.toList
| _ => []

/- The properties of an answer. -/
def Answer.properties : Answer → List TableProperties
| .view shown => [shown.properties]
| .delta change => change.newProperties.toList
| _ => []

/-
  The answer to a call has no file, no schema and so no
  column, and no properties of a table.  Properties are
  those of the table that the call names.
-/
structure Answer.RevealsNothing
    (answer : Answer)
    (call : CatalogCall)
    (row : TableRow) : Prop where
  files : ∀ f ∈ answer.files, f.tableUuid ≠ row.tableUuid
  schemas : ∀ s ∈ answer.schemas,
    s.tableUuid ≠ row.tableUuid
  properties : call.ident = some row.ident →
    answer.properties = []

/- An entry changes the files or the schema. -/
def Entry.Changes
    (e : Entry)
    (past : History) : Prop :=
  e.schemas ≠ [] ∨
    ∃ changeKind, e.changeCount past changeKind ≠ 0

/-
  The call lists the events of a table, and some transaction
  of its range changed the files or the schema.
-/
def CatalogCall.ListsChanges
    (call : CatalogCall)
    (ident : TableIdent)
    (h : History) : Prop :=
  ∃ (cursor : TxnRangeCursor)
    (earlier past rest later : History) (e : Entry),
    call = .listTransactionEvents ident cursor ∧
    h = earlier ++ (past ++ e :: rest) ++ later ∧
    earlier.ids.getLast? = cursor.fromExclusive ∧
    (History.ids (past ++ e :: rest)).getLast? =
      some cursor.toInclusive ∧
    e.Changes (earlier ++ past)

------------------------------------------------------------
-- The Calls of One Client
------------------------------------------------------------

/- The world after one call of a client. -/
def World.called
    (ext : External)
    (catalog : SqlCatalog)
    (w : World) : CatalogCall → World
| .createTable ident location schema properties draws =>
    w.perform ext (.create
      ⟨catalog, ident, location, schema, properties, draws⟩)
| .commit ident base mutation draws =>
    w.perform ext (.commit
      ⟨catalog, ident, base, mutation, draws⟩)
| .dropTable ident => w.drop ident
| _ => w

/- The world after the calls of a client. -/
def World.after
    (ext : External)
    (catalog : SqlCatalog)
    (w : World)
    (calls : List CatalogCall) : World :=
  calls.foldl (World.called ext catalog) w

theorem World.after_concat
    (ext : External)
    (catalog : SqlCatalog)
    (w : World)
    (calls : List CatalogCall)
    (call : CatalogCall) :
    w.after ext catalog (calls ++ [call]) =
      (w.after ext catalog calls).called ext catalog call := by
  simp [World.after]

variable
  {ext : External}
  {catalog : SqlCatalog}
  {w : World}
  {ident : TableIdent}
  {row : TableRow}

theorem World.database_perform
    (w : World)
    (call : Call) :
    (w.perform ext call).database =
      (call.perform ext w.database).2 := by
  unfold World.perform
  split
  · rename_i hResult
    rw [hResult]
  · rename_i hResult
    rw [hResult]

/- The database is the one that the call leaves. -/
theorem World.database_called
    (ext : External)
    (catalog : SqlCatalog)
    (w : World)
    (call : CatalogCall) :
    (w.called ext catalog call).database =
      (call.perform ext catalog w.database).2 := by
  cases call with
  | createTable => exact w.database_perform _
  | commit => exact w.database_perform _
  | _ => rfl

theorem World.reachable_called
    (hReach : w.Reachable ext)
    (call : CatalogCall) :
    (w.called ext catalog call).Reachable ext := by
  cases call with
  | createTable => exact .tail hReach (.inl ⟨_, rfl⟩)
  | commit => exact .tail hReach (.inl ⟨_, rfl⟩)
  | dropTable ident => exact .tail hReach (.inr ⟨ident, rfl⟩)
  | _ => exact hReach

theorem World.reachable_after
    (hReach : w.Reachable ext)
    (calls : List CatalogCall) :
    (w.after ext catalog calls).Reachable ext := by
  induction calls using List.reverseRecOn with
  | nil => exact hReach
  | append_singleton calls call ih =>
      rw [World.after_concat]
      exact World.reachable_called ih call

------------------------------------------------------------
-- Records of One Table
------------------------------------------------------------

theorem tableUuid_decodeFiles
    {rows : List FileRow}
    {files : List File}
    {tableUuid : Uuid}
    (hRows : ∀ r ∈ rows, r.tableUuid = tableUuid)
    (hOk : decodeFiles ext rows = .ok files) :
    ∀ f ∈ files, f.tableUuid = tableUuid := by
  induction rows generalizing files with
  | nil =>
      rw [← Except.ok.inj hOk]
      simp
  | cons r rest ih =>
      rcases bind_ok.mp hOk with ⟨file, hFile, hTail⟩
      rcases bind_ok.mp hTail with ⟨files', hFiles, hCons⟩
      rw [← Except.ok.inj hCons]
      intro f hf
      rcases List.mem_cons.mp hf with rfl | hRest
      · rcases bind_ok.mp hFile with ⟨p, _, hOptions⟩
        rcases bind_ok.mp hOptions with ⟨o, _, hEnd⟩
        rw [← Except.ok.inj hEnd]
        exact hRows r List.mem_cons_self
      · exact ih (fun r' hr =>
          hRows r' (List.mem_cons_of_mem _ hr)) hFiles f
            hRest

/- Every file and schema of an answer is of one table. -/
structure Answer.IsOf
    (answer : Answer)
    (tableUuid : Uuid) : Prop where
  files : ∀ f ∈ answer.files, f.tableUuid = tableUuid
  schemas : ∀ s ∈ answer.schemas, s.tableUuid = tableUuid

theorem TableSeen.isOf
    {t : Option TxnId}
    {w₀ w₁ w₂ w₃ : World}
    {view : TableView}
    (hSeen :
      TableSeen ext catalog ident t w₀ w₁ w₂ w₃ row view) :
    (Answer.view view).IsOf row.tableUuid where
  files := by
    rcases hSeen.files.decoded with ⟨decoded, hOk, hPerm⟩
    intro f hf
    refine tableUuid_decodeFiles ?_ hOk f
      (hPerm.mem_iff.mp hf)
    intro r hr
    exact of_decide_eq_true (List.mem_filter.mp
      (List.mem_of_mem_filter hr)).2
  schemas := by
    intro s hs
    rw [List.mem_singleton.mp hs]
    rcases hSeen.schema.seen with
      ⟨schemaRow, columns, hRow, _, _, hSchema⟩
    rw [decodeSchema_ok hSchema]
    exact of_decide_eq_true (List.mem_filter.mp
      (mem_selectSchema hRow).1).2

/- The files of an event are of the table. -/
theorem EventSeen.files
    {kind : DbKind}
    {tableUuid : Uuid}
    {Seen : Database → Prop}
    {t : TxnId}
    {event : TxnEvent}
    (hSeen : EventSeen ext kind tableUuid Seen t event) :
    ∀ change ∈ event.fileChanges,
      change.file.tableUuid = tableUuid := by
  rcases hSeen.fileChanges with
    ⟨added, removed, hAdded, hRemoved, hChanges⟩
  have hOwn {changeKind : TxnFileChangeKind}
      {files : List File}
      (hFiles : ChangesSeen ext tableUuid Seen t changeKind
        files) :
      ∀ f ∈ files, f.tableUuid = tableUuid := by
    rcases hFiles.seen with ⟨db, _, decoded, hOk, hPerm⟩
    intro f hf
    refine tableUuid_decodeFiles ?_ hOk f
      (hPerm.mem_iff.mp hf)
    intro r hr
    exact of_decide_eq_true (List.mem_filter.mp
      (List.mem_of_mem_filter hr)).2
  intro change hChange
  rw [hChanges] at hChange
  rcases List.mem_append.mp hChange with hIn | hIn
  · rcases List.mem_map.mp hIn with ⟨f, hf, rfl⟩
    exact hOwn hAdded f hf
  · rcases List.mem_map.mp hIn with ⟨f, hf, rfl⟩
    exact hOwn hRemoved f hf

/- So is its schema. -/
theorem EventSeen.schema
    {kind : DbKind}
    {tableUuid : Uuid}
    {Seen : Database → Prop}
    {t : TxnId}
    {event : TxnEvent}
    {change : TxnSchemaChange}
    (hSeen : EventSeen ext kind tableUuid Seen t event)
    (hChange : event.schemaChange = some change) :
    change.schema.tableUuid = tableUuid := by
  have hSchema := hSeen.schemaChange
  rw [hChange] at hSchema
  cases hSchema with
  | @brought rowDb _ schemaRow _ _ _ _ hRow _ _ hDecode =>
      rw [decodeSchema_ok hDecode]
      have hMember : schemaRow ∈
          rowDb.newSchemas tableUuid t := by
        rw [hRow]
        exact List.mem_singleton_self _
      exact of_decide_eq_true (List.mem_filter.mp
        (List.mem_of_mem_filter hMember)).2

theorem isOf_events
    {kind : DbKind}
    {tableUuid : Uuid}
    {Seen : Database → Prop}
    {ids : List TxnId}
    {events : List TxnEvent}
    (hSeen :
      List.Forall₂ (EventSeen ext kind tableUuid Seen) ids
        events) :
    (Answer.events events).IsOf tableUuid where
  files := by
    intro f hf
    rcases List.mem_map.mp hf with ⟨change, hChange, rfl⟩
    rcases List.mem_flatMap.mp hChange with
      ⟨event, hEvent, hIn⟩
    rcases mem_of_forall₂ hSeen hEvent with ⟨t, _, hOne⟩
    exact hOne.files change hIn
  schemas := by
    intro s hs
    rcases List.mem_map.mp hs with ⟨change, hChange, rfl⟩
    rcases List.mem_filterMap.mp hChange with
      ⟨event, hEvent, hSome⟩
    rcases mem_of_forall₂ hSeen hEvent with ⟨t, _, hOne⟩
    exact hOne.schema hSome

/- A read of the table a call names is of that table. -/
theorem World.Inv.isOf_read
    {t : Option TxnId}
    {view : TableView}
    (hInv : w.Inv ext)
    (hRead :
      (readTable ext catalog ident t).exec w.database =
        .ok view) :
    ∃ row ∈ w.database.tables, row.ident = ident ∧
      (Answer.view view).IsOf row.tableUuid := by
  rcases exec_readTable hInv hRead with ⟨row, hSeen⟩
  exact ⟨row, hSeen.found, hSeen.rowIdent, hSeen.isOf⟩

theorem World.Inv.isOf_list
    {cursor : TxnRangeCursor}
    {events : List TxnEvent}
    (hInv : w.Inv ext)
    (hList :
      (listTransactionEvents ext catalog ident cursor).exec
        w.database = .ok events) :
    ∃ row ∈ w.database.tables, row.ident = ident ∧
      (Answer.events events).IsOf row.tableUuid := by
  rcases exec_listTransactionEvents hInv hList with
    ⟨row, earlier, range, later, hSeen⟩
  exact ⟨row, hSeen.found, hSeen.rowIdent,
    isOf_events hSeen.events⟩

theorem World.Inv.isOf_diff
    {s t : TxnId}
    {delta : TableDelta}
    (hInv : w.Inv ext)
    (hDiff :
      (diffTable ext catalog ident s t).exec w.database =
        .ok delta) :
    ∃ row ∈ w.database.tables, row.ident = ident ∧
      (Answer.delta delta).IsOf row.tableUuid := by
  rcases exec_diffTable hDiff with
    ⟨events, fromView, toView, hList, _, hTo, rfl⟩
  rcases hInv.isOf_list hList with
    ⟨row, hRow, hIdent, hEvents⟩
  rcases hInv.isOf_read hTo with
    ⟨row', hRow', hIdent', hView⟩
  have hSame : row' = row :=
    hInv.sound.ident_unique hRow' hRow
      (hIdent'.trans hIdent.symm)
  subst hSame
  refine ⟨row', hRow, hIdent, ?_⟩
  have hValues := @forall_entries_foldl
    (events.flatMap TxnEvent.fileChanges) {}
    (fun p => p.2.tableUuid = row'.tableUuid)
    (fun change hChange => hEvents.files change.file
      (List.mem_map_of_mem hChange))
    (fun p hp => by cases hp) (fun p hp => by cases hp)
  constructor
  · intro f hf
    rcases List.mem_append.mp hf with hIn | hIn
    · rcases List.mem_map.mp hIn with ⟨p, hEntry, rfl⟩
      exact hValues.1 p hEntry
    · rcases List.mem_map.mp hIn with ⟨p, hEntry, rfl⟩
      exact hValues.2 p hEntry
  · intro schema hs
    have hSchema := hView.schemas toView.schema
      (List.mem_singleton_self _)
    simp only [Answer.schemas, projectDeltaRange,
      Option.mem_toList] at hs
    split at hs
    · rw [← Option.some.inj hs]
      exact hSchema
    · cases hs

------------------------------------------------------------
-- What a Call Reveals
------------------------------------------------------------

/- Three calls return records of a table. -/
inductive CatalogCall.Returns
    (ext : External)
    (catalog : SqlCatalog)
    (db : Database) : CatalogCall → Answer → Prop
  | nothing {call : CatalogCall} {answer : Answer}
      (hFiles : answer.files = [])
      (hSchemas : answer.schemas = [])
      (hProperties : answer.properties = []) :
      Returns ext catalog db call answer
  | view {ident : TableIdent} {t : Option TxnId}
      {view : TableView}
      (hRead :
        (Planar.readTable ext catalog ident t).exec db =
          .ok view) :
      Returns ext catalog db (.readTable ident t)
        (.view view)
  | events {ident : TableIdent} {cursor : TxnRangeCursor}
      {events : List TxnEvent}
      (hList :
        (Planar.listTransactionEvents ext catalog ident
          cursor).exec db = .ok events) :
      Returns ext catalog db
        (.listTransactionEvents ident cursor)
        (.events events)
  | delta {ident : TableIdent} {s t : TxnId}
      {delta : TableDelta}
      (hDiff :
        (Planar.diffTable ext catalog ident s t).exec db =
          .ok delta) :
      Returns ext catalog db (.diffTable ident s t)
        (.delta delta)

theorem CatalogCall.returns
    {db : Database}
    {call : CatalogCall}
    {answer : Answer}
    (hOk : (call.perform ext catalog db).1 = .ok answer) :
    call.Returns ext catalog db answer := by
  cases call with
  | listTransactionEvents ident cursor =>
      rcases map_ok hOk with ⟨a, hExec, rfl⟩
      exact .events hExec
  | readTable ident t =>
      rcases map_ok hOk with ⟨a, hExec, rfl⟩
      exact .view hExec
  | diffTable ident s t =>
      rcases map_ok hOk with ⟨a, hExec, rfl⟩
      exact .delta hExec
  | _ =>
      rcases map_ok hOk with ⟨a, _, rfl⟩
      exact .nothing rfl rfl rfl

/- What is of another table reveals nothing of this one. -/
theorem Answer.IsOf.revealsNothing
    {answer : Answer}
    {call : CatalogCall}
    {row' : TableRow}
    (hIsOf : answer.IsOf row'.tableUuid)
    (hSound : w.database.Sound)
    (hRow : row ∈ w.database.tables)
    (hRow' : row' ∈ w.database.tables)
    (hOther : row'.ident ≠ row.ident)
    (hCall : call.ident = some row'.ident) :
    answer.RevealsNothing call row := by
  have hUuid : row'.tableUuid ≠ row.tableUuid := by
    intro hEq
    exact hOther (congrArg TableRow.ident
      (hSound.table_unique hRow' hRow hEq))
  constructor
  · intro f hf
    rw [hIsOf.files f hf]
    exact hUuid
  · intro s hs
    rw [hIsOf.schemas s hs]
    exact hUuid
  · intro hIdent
    rw [hCall] at hIdent
    exact absurd (Option.some.inj hIdent) hOther

/- The event of an entry without changes is empty. -/
theorem EventSeen.empty
    {kind : DbKind}
    {db : Database}
    {tableUuid : Uuid}
    {past later : History}
    {e : Entry}
    {event : TxnEvent}
    (hSeen :
      EventSeen ext kind tableUuid (fun x => x = db)
        e.transactionId event)
    (hHolds : Holds ext db tableUuid (past ++ e :: later))
    (hNone : ¬ e.Changes past) :
    event.fileChanges = [] ∧ event.schemaChange = none := by
  rw [Entry.Changes, not_or, not_not, not_exists] at hNone
  have hFiles {changeKind : TxnFileChangeKind}
      {files : List File}
      (hChanged : ChangesSeen ext tableUuid
        (fun x => x = db) e.transactionId changeKind
          files) :
      files = [] := by
    rcases hChanged.seen with
      ⟨db', rfl, decoded, hOk, hPerm⟩
    have hRows : db'.changedFiles tableUuid changeKind
        e.transactionId = [] := by
      apply List.length_eq_zero_iff.mp
      rw [hHolds.length_changedFiles]
      exact not_not.mp (hNone.2 changeKind)
    rw [hRows] at hOk
    rw [← Except.ok.inj hOk] at hPerm
    exact hPerm.eq_nil
  constructor
  · rcases hSeen.fileChanges with
      ⟨added, removed, hAdded, hRemoved, hChanges⟩
    rw [hChanges, hFiles hAdded, hFiles hRemoved]
    rfl
  · have hSchema := hSeen.schemaChange
    cases hChange : event.schemaChange with
    | none => rfl
    | some change =>
        rw [hChange] at hSchema
        cases hSchema with
        | brought hDb _ hRow _ _ _ =>
            subst hDb
            have hIds := hHolds.ids_nodup hHolds.sound
            rw [Database.newSchemas,
              hHolds.noSchema_eq hIds hNone.1] at hRow
            cases hRow

/- A listing of a range without changes reveals nothing. -/
theorem World.Inv.revealsNothing_list
    {cursor : TxnRangeCursor}
    {events : List TxnEvent}
    (hInv : w.Inv ext)
    (hList :
      (listTransactionEvents ext catalog ident cursor).exec
        w.database = .ok events)
    (hNone :
      ¬ (CatalogCall.listTransactionEvents ident
        cursor).ListsChanges ident (w.history ident)) :
    (Answer.events events).RevealsNothing
      (.listTransactionEvents ident cursor) row := by
  rcases exec_listTransactionEvents hInv hList with
    ⟨row', earlier, range, later, hSeen⟩
  have hHolds := hInv.holds hSeen.found
  rw [hSeen.rowIdent, hSeen.split] at hHolds
  have hEmpty : ∀ event ∈ events,
      event.fileChanges = [] ∧
        event.schemaChange = none := by
    intro event hEvent
    rcases mem_of_forall₂ hSeen.events hEvent with
      ⟨t, hId, hOne⟩
    rcases List.mem_map.mp hId with ⟨e, hEntry, rfl⟩
    rcases List.append_of_mem hEntry with
      ⟨past, rest, rfl⟩
    have hParts : earlier ++ (past ++ e :: rest) ++ later =
        (earlier ++ past) ++ e :: (rest ++ later) := by
      simp
    rw [hParts] at hHolds
    apply hOne.empty hHolds
    intro hChanges
    exact hNone ⟨cursor, earlier, past, rest, later, e, rfl,
      hSeen.split, hSeen.start, hSeen.stop, hChanges⟩
  constructor
  · intro f hf
    rcases List.mem_map.mp hf with ⟨change, hChange, _⟩
    rcases List.mem_flatMap.mp hChange with
      ⟨event, hEvent, hIn⟩
    rw [(hEmpty event hEvent).1] at hIn
    cases hIn
  · intro schema hs
    rcases List.mem_map.mp hs with ⟨change, hChange, _⟩
    rcases List.mem_filterMap.mp hChange with
      ⟨event, hEvent, hSome⟩
    rw [(hEmpty event hEvent).2] at hSome
    cases hSome
  · intro _
    rfl

------------------------------------------------------------
-- The Check of the Reader Version
------------------------------------------------------------

/- The error of a reader that a table does not support. -/
def readerTooOld
    (catalog : SqlCatalog)
    (row : TableRow) : CatalogError :=
  .protocolVersionIncompatible "read" row.ident.toText
    catalog.readerVersion row.minReaderVersion

/-
  What another client of the backend can read, an old one
  cannot.
-/
theorem exec_readTable_old
    {newer : SqlCatalog}
    {db : Database}
    {t : Option TxnId}
    {view : TableView}
    (hFound : db.findTable row.ident = some row)
    (hOld : catalog.readerVersion < row.minReaderVersion)
    (hRead :
      (readTable ext newer row.ident t).exec db =
        .ok view) :
    (readTable ext catalog row.ident t).exec db =
      fault (readerTooOld catalog row) := by
  have hRow :
      (Query.fetch fun v : Database =>
        v.findTable row.ident : CatalogQuery _).exec db =
          .ok (some row) := by
    rw [Query.exec_fetch, hFound]
  unfold readTable at hRead ⊢
  rw [Query.exec_bind_of_ok hRow] at hRead ⊢
  dsimp only at hRead ⊢
  unfold readRow at hRead ⊢
  rw [Query.exec_bind] at hRead
  rcases bind_ok.mp hRead with ⟨properties, hParsed, _⟩
  rw [Query.exec_bind_of_ok hParsed]
  have hCheck :
      catalog.ensureReaderProtocolCompatible row.ident
        row.minReaderVersion =
          fault (readerTooOld catalog row) := if_pos hOld
  rw [Query.exec_bind, Query.exec_lift, hCheck]
  rfl

/- An old client reads nothing. -/
theorem not_exec_readTable_old
    {db : Database}
    {t : Option TxnId}
    {view : TableView}
    (hFound : db.findTable row.ident = some row)
    (hOld : catalog.readerVersion < row.minReaderVersion) :
    (readTable ext catalog row.ident t).exec db ≠
      .ok view := by
  intro hRead
  have hFault := exec_readTable_old hFound hOld hRead
  rw [hRead] at hFault
  cases hFault

/- A diff fails where its first read fails. -/
theorem exec_diffTable_old
    {newer : SqlCatalog}
    {db : Database}
    {s t : TxnId}
    {delta : TableDelta}
    (hKind : newer.kind = catalog.kind)
    (hFound : db.findTable row.ident = some row)
    (hOld : catalog.readerVersion < row.minReaderVersion)
    (hDiff :
      (diffTable ext newer row.ident s t).exec db =
        .ok delta) :
    (diffTable ext catalog row.ident s t).exec db =
      fault (readerTooOld catalog row) := by
  rcases exec_diffTable hDiff with
    ⟨events, fromView, toView, hList, hFrom, _⟩
  have hRead := exec_readTable_old hFound hOld hFrom
  have hList' :
      (listTransactionEvents ext catalog row.ident
        ⟨some s, t⟩).exec db = .ok events := by
    unfold listTransactionEvents at hList ⊢
    rwa [← hKind]
  unfold diffTable
  rw [Query.exec_bind_of_ok hList', Query.exec_bind, hRead]
  rfl

------------------------------------------------------------
-- The Check of the Writer Version
------------------------------------------------------------

/- A call that fails on a table adds nothing to its calls. -/
theorem World.callsOn_perform_of_fails
    {call : Call}
    (hFails : call.ident = ident → ∀ u db,
      call.perform ext w.database ≠ (.ok u, db)) :
    (w.perform ext call).callsOn ident =
      w.callsOn ident := by
  by_cases hIdent : call.ident = ident
  · unfold World.perform
    split
    · rename_i u db hResult
      exact absurd hResult (hFails hIdent u db)
    · rfl
  · have hStep : World.StepOn ext call.ident w
        (w.perform ext call) := .inl ⟨call, rfl, rfl⟩
    exact hStep.callsOn_other hIdent

theorem World.callsOn_called_old
    (hFound : w.database.findTable ident = some row)
    (hOld : catalog.writerVersion < row.minWriterVersion)
    (call : CatalogCall) :
    (w.called ext catalog call).callsOn ident =
      w.callsOn ident := by
  cases call with
  | createTable ident' location schema properties draws =>
      apply World.callsOn_perform_of_fails
      rintro rfl u db hResult
      have hAbsent : w.database.findTable ident' = none :=
        (createTable_ok hResult).absent
      have hExists :
          w.database.findTable ident' = some row := hFound
      rw [hAbsent] at hExists
      cases hExists
  | commit ident' base mutation draws =>
      apply World.callsOn_perform_of_fails
      rintro rfl u db hResult
      rcases World.perform_commit_ok hResult with
        ⟨r, hCommit⟩
      rcases (commit_ok hCommit).2 with
        ⟨row', properties, hCommits⟩
      have hSame : some row' = some row :=
        hCommits.found.symm.trans hFound
      have hWriter := hCommits.writer
      rw [Option.some.inj hSame] at hWriter
      have hFails :
          catalog.ensureWriterProtocolCompatible ident'
            row.minWriterVersion ≠ .ok () := by
        unfold SqlCatalog.ensureWriterProtocolCompatible
        rw [if_pos hOld]
        intro hOk
        cases hOk
      exact hFails hWriter
  | _ => rfl

/- All calls of an old client leave its table as it is. -/
theorem World.Reachable.sameTable_after
    (hReach : w.Reachable ext)
    (hFound : w.database.findTable ident = some row)
    (hOld : catalog.writerVersion < row.minWriterVersion)
    (calls : List CatalogCall) :
    SameTable w.database
      (w.after ext catalog calls).database ident := by
  apply hReach.sameTable (World.reachable_after hReach calls)
  induction calls using List.reverseRecOn with
  | nil => rfl
  | append_singleton calls call ih =>
      have hReach' :
          (w.after ext catalog calls).Reachable ext :=
        World.reachable_after hReach calls
      have hSame := hReach.sameTable hReach' ih
      rw [World.after_concat,
        World.callsOn_called_old (hSame.row.trans hFound)
          hOld, ih]

------------------------------------------------------------
-- Protocol Gates
------------------------------------------------------------

/-
  Only reads and diffs of a table, and listings with changes,
  reveal something of it.
-/
theorem World.Inv.revealsNothing_or
    {call : CatalogCall}
    {answer : Answer}
    (hInv : w.Inv ext)
    (hRow : row ∈ w.database.tables)
    (hCall :
      ¬ call.ListsChanges row.ident (w.history row.ident))
    (hOk :
      (call.perform ext catalog w.database).1 =
        .ok answer) :
    answer.RevealsNothing call row ∨
    (∃ t view, call = .readTable row.ident t ∧
      (readTable ext catalog row.ident t).exec w.database =
        .ok view) ∨
    ∃ s t delta, call = .diffTable row.ident s t ∧
      (diffTable ext catalog row.ident s t).exec
        w.database = .ok delta := by
  cases CatalogCall.returns hOk with
  | nothing hFiles hSchemas hProperties =>
      exact .inl
        { files := by simp [hFiles]
          schemas := by simp [hSchemas]
          properties := fun _ => hProperties }
  | @view ident t view hRead =>
      by_cases hIdent : ident = row.ident
      · subst hIdent
        exact .inr (.inl ⟨t, view, rfl, hRead⟩)
      · rcases hInv.isOf_read hRead with
          ⟨row', hRow', rfl, hIsOf⟩
        exact .inl (hIsOf.revealsNothing hInv.sound hRow
          hRow' hIdent rfl)
  | @events ident cursor events hList =>
      by_cases hIdent : ident = row.ident
      · subst hIdent
        exact .inl (hInv.revealsNothing_list hList hCall)
      · rcases hInv.isOf_list hList with
          ⟨row', hRow', rfl, hIsOf⟩
        exact .inl (hIsOf.revealsNothing hInv.sound hRow
          hRow' hIdent rfl)
  | @delta ident s t delta hDiff =>
      by_cases hIdent : ident = row.ident
      · subst hIdent
        exact .inr (.inr ⟨s, t, delta, rfl, hDiff⟩)
      · rcases hInv.isOf_diff hDiff with
          ⟨row', hRow', rfl, hIsOf⟩
        exact .inl (hIsOf.revealsNothing hInv.sound hRow
          hRow' hIdent rfl)

/-
  In any state, whatever calls it has made before: a call of
  a client that a table does not support as a reader reveals
  nothing of the table, unless it lists events with changes.
  Where the call of another client would, it fails with the
  version error.  A client that the table does not support
  as a writer changes no row of it.
-/
theorem World.Reachable.protocolGates
    (hReach : w.Reachable ext)
    (ident : TableIdent)
    (catalog : SqlCatalog)
    (calls : List CatalogCall)
    (call : CatalogCall) :
    (¬ call.ListsChanges ident
        ((w.after ext catalog calls).history ident) →
      ∀ row,
      (w.after ext catalog calls).database.findTable ident =
        some row →
      catalog.readerVersion < row.minReaderVersion →
      (∀ answer,
        (call.perform ext catalog
          (w.after ext catalog calls).database).1 =
            .ok answer →
        answer.RevealsNothing call row) ∧
      ∀ newer answer,
        newer.kind = catalog.kind →
        (call.perform ext newer
          (w.after ext catalog calls).database).1 =
            .ok answer →
        ¬ answer.RevealsNothing call row →
        (call.perform ext catalog
          (w.after ext catalog calls).database).1 =
            fault (readerTooOld catalog row)) ∧
    ∀ row,
      w.database.findTable ident = some row →
      catalog.writerVersion < row.minWriterVersion →
      SameTable w.database
        (w.after ext catalog (calls ++ [call])).database
        ident := by
  refine ⟨?_, fun row hFound hOld =>
    hReach.sameTable_after hFound hOld _⟩
  intro hCall row hFound hOld
  have hReach' : (w.after ext catalog calls).Reachable ext :=
    World.reachable_after hReach calls
  have hInv := hReach'.inv
  rcases Database.findTable_some hFound with
    ⟨hRow, rfl⟩
  constructor
  · intro answer hOk
    rcases hInv.revealsNothing_or hRow hCall hOk with
      hNothing | ⟨t, view, rfl, hRead⟩ |
        ⟨s, t, delta, rfl, hDiff⟩
    · exact hNothing
    · exact absurd hRead
        (not_exec_readTable_old hFound hOld)
    · have hFault := exec_diffTable_old rfl hFound hOld
        hDiff
      rw [hDiff] at hFault
      cases hFault
  · intro newer answer hKind hOk hReveals
    rcases hInv.revealsNothing_or hRow hCall hOk with
      hNothing | ⟨t, view, rfl, hRead⟩ |
        ⟨s, t, delta, rfl, hDiff⟩
    · exact absurd hNothing hReveals
    · have hFault := exec_readTable_old hFound hOld hRead
      exact congrArg (Except.map Answer.view) hFault
    · have hFault :=
        exec_diffTable_old hKind hFound hOld hDiff
      exact congrArg (Except.map Answer.delta) hFault

/- A client that is older than the sample table. -/
def sampleOldCatalog : SqlCatalog := ⟨.sqlite, ⟨0, 0⟩⟩

theorem protocolGates_sample :
    ∃ row,
      sampleWorld.database.findTable sampleIdent =
        some row ∧
      ((CatalogCall.readTable sampleIdent none).perform
        sampleExternal sampleOldCatalog
          sampleWorld.database).1 =
        fault (readerTooOld sampleOldCatalog row) ∧
      SameTable sampleWorld.database
        (sampleWorld.after sampleExternal sampleOldCatalog
          [.readTable sampleIdent none]).database
        sampleIdent := by
  have hSome :
      (sampleWorld.database.findTable
        sampleIdent).isSome = true := by
    decide +kernel
  have hOld : ∀ row ∈
      sampleWorld.database.findTable sampleIdent,
      sampleOldCatalog.readerVersion <
          row.minReaderVersion ∧
        sampleOldCatalog.writerVersion <
          row.minWriterVersion := by
    decide +kernel
  have hRead :
      ((readTable sampleExternal sampleCatalog sampleIdent
        none).exec sampleWorld.database).isOk = true := by
    decide +kernel
  rcases Option.isSome_iff_exists.mp hSome with ⟨row, hRow⟩
  rcases exists_of_isOk hRead with ⟨view, hView⟩
  have hGates := (World.reachable_run sampleExternal
    sampleCalls).protocolGates sampleIdent sampleOldCatalog
      [] (.readTable sampleIdent none)
  have hCall :
      ¬ (CatalogCall.readTable sampleIdent
        none).ListsChanges sampleIdent
          (sampleWorld.history sampleIdent) := by
    rintro ⟨cursor, _, _, _, _, _, hCall, _⟩
    cases hCall
  refine ⟨row, hRow, ?_, hGates.2 row hRow (hOld row hRow).2⟩
  refine (hGates.1 hCall row hRow (hOld row hRow).1).2
    sampleCatalog (.view view) rfl
    (congrArg (Except.map Answer.view) hView) ?_
  intro hNothing
  exact absurd (hNothing.properties
    (congrArg some (Database.findTable_some hRow).2.symm))
      (List.cons_ne_nil _ _)

/- A client that is too old lists the files of the table. -/
theorem listTransactionEvents_old :
    sampleWorld.Reachable sampleExternal ∧
    ∃ row ∈ sampleWorld.database.findTable sampleIdent,
      sampleOldCatalog.readerVersion <
        row.minReaderVersion ∧
      ∃ answer,
        ((CatalogCall.listTransactionEvents sampleIdent
          ⟨none, 3⟩).perform sampleExternal sampleOldCatalog
            sampleWorld.database).1 = .ok answer ∧
        ∃ f ∈ answer.files,
          f.tableUuid = row.tableUuid := by
  refine ⟨World.reachable_run .., ?_⟩
  have hSome :
      (sampleWorld.database.findTable
        sampleIdent).isSome = true := by
    decide +kernel
  have hOld : ∀ row ∈
      sampleWorld.database.findTable sampleIdent,
      sampleOldCatalog.readerVersion <
        row.minReaderVersion := by
    decide +kernel
  have hOk :
      ((CatalogCall.listTransactionEvents sampleIdent
        ⟨none, 3⟩).perform sampleExternal sampleOldCatalog
          sampleWorld.database).1.isOk = true := by
    decide +kernel
  have hFiles : ∀ row ∈
      sampleWorld.database.findTable sampleIdent,
      ∀ answer ∈
        (((CatalogCall.listTransactionEvents sampleIdent
          ⟨none, 3⟩).perform sampleExternal sampleOldCatalog
            sampleWorld.database).1).toOption,
      ∃ f ∈ answer.files,
        f.tableUuid = row.tableUuid := by
    decide +kernel
  rcases Option.isSome_iff_exists.mp hSome with ⟨row, hRow⟩
  rcases exists_of_isOk hOk with ⟨answer, hAnswer⟩
  refine ⟨row, hRow, hOld row hRow, answer, hAnswer,
    hFiles row hRow answer ?_⟩
  rw [hAnswer]
  rfl

end Planar
