import Planar.Reading.LaterReads
import Planar.Reading.Records

/-
  The stamps in the records of an event: which later entries
  set them, and which events a longer history leaves as they
  are.

  Main declarations:
    * `Untouched`
    * `TxnEvent.Same`, `TxnEvent.OwnStamps`
    * `EventSeen.same_after_iff`
    * `EventSeen.ownStamps_iff`
-/

------------------------------------------------------------
-- Entries that Others Leave Alone
------------------------------------------------------------

namespace Planar

/-
  At the end of the first history, none of the further
  entries deletes a file that the range appended and that is
  there, and none brings a schema if the range brought the
  current one.
-/
structure Untouched
    (h range more : History) : Prop where
  files : ∀ f ∈ range.appended, f ∈ h.files →
    removalIn more f.fileUuid = none
  schema : ∀ p ∈ range.schemaPoints,
    h.schemaPoints.getLast? = some p →
      more.schemaPoints = []

/- The same event, with the file changes as a set. -/
structure TxnEvent.Same (a b : TxnEvent) : Prop where
  transactionId : a.transactionId = b.transactionId
  fileChanges : ∀ c,
    c ∈ a.fileChanges ↔ c ∈ b.fileChanges
  schemaChange : a.schemaChange = b.schemaChange

/- No record of the event names another transaction that
   removed its file or replaced its schema. -/
structure TxnEvent.OwnStamps (event : TxnEvent) : Prop where
  files : ∀ c ∈ event.fileChanges, ∀ t,
    c.file.removedInTransactionId = some t →
      t = event.transactionId
  schema : ∀ c ∈ event.schemaChange,
    c.schema.validToTransactionId = none

/- A range is left alone when its entries are. -/
theorem untouched_iff
    {h range more : History} :
    Untouched h range more ↔
      ∀ e ∈ range, Untouched h [e] more := by
  constructor
  · intro hAll e he
    constructor
    · intro f hf
      rw [History.appended_singleton] at hf
      exact hAll.files f (List.mem_flatMap.mpr ⟨e, he, hf⟩)
    · intro p hp
      rw [History.schemaPoints_singleton] at hp
      exact hAll.schema p (List.mem_flatMap.mpr ⟨e, he, hp⟩)
  · intro hEach
    constructor
    · intro f hf
      rcases List.mem_flatMap.mp hf with ⟨e, he, hIn⟩
      rw [← History.appended_singleton] at hIn
      exact (hEach e he).files f hIn
    · intro p hp
      rcases List.mem_flatMap.mp hp with ⟨e, he, hIn⟩
      rw [← History.schemaPoints_singleton] at hIn
      exact (hEach e he).schema p hIn

------------------------------------------------------------
-- Rows of One Entry
------------------------------------------------------------

section Rows

variable
  {past rest : History}
  {e : Entry}

/- The rows that an entry opened hold what it appended. -/
theorem mem_inserted_iff
    {f : FileContents}
    (hNodup : (History.ids (past ++ e :: rest)).Nodup) :
    f ∈ insertedBy e.edits ↔
      ∃ s ∈ stampLog (History.fileLog (past ++ e :: rest)),
        s.opened = e.transactionId ∧ s.item = f := by
  rw [← addedItems_fileLog hNodup]
  simp [TxnFileChangeKind.stamps, and_assoc]

/- The items of open rows are the files of the history. -/
theorem mem_files_iff
    {h : History}
    {f : FileContents} :
    f ∈ h.files ↔
      ∃ s ∈ stampLog h.fileLog,
        s.closed = none ∧ s.item = f := by
  rw [History.files, ← open_items_stampLog]
  simp [Stamped.isOpen, and_assoc]

/- A row is known by its item. -/
theorem row_unique
    {h : History}
    {s s' : Stamped FileContents TxnId}
    (hFiles : (h.appended.map FileContents.fileUuid).Nodup)
    (hRow : s ∈ stampLog h.fileLog)
    (hRow' : s' ∈ stampLog h.fileLog)
    (hItem : s.item = s'.item) :
    s = s' := by
  rw [← History.items_fileLog] at hFiles
  exact List.inj_on_of_nodup_map hFiles.of_map hRow hRow'
    hItem

/-
  The open rows of an entry hold the files that it appended
  and that are still there.
-/
theorem exists_open_iff
    {f : FileContents}
    (hNodup : (History.ids (past ++ e :: rest)).Nodup)
    (hFiles :
      ((History.appended (past ++ e :: rest)).map
        FileContents.fileUuid).Nodup) :
    (f ∈ insertedBy e.edits ∧
        f ∈ History.files (past ++ e :: rest)) ↔
      ∃ s ∈ stampLog (History.fileLog (past ++ e :: rest)),
        s.opened = e.transactionId ∧ s.closed = none ∧
          s.item = f := by
  rw [mem_inserted_iff hNodup, mem_files_iff]
  constructor
  · rintro ⟨⟨s, hs, hOpened, hItem⟩,
      s', hs', hClosed, hItem'⟩
    have hSame := row_unique hFiles hs hs'
      (hItem.trans hItem'.symm)
    subst hSame
    exact ⟨s, hs, hOpened, hClosed, hItem⟩
  · rintro ⟨s, hs, hOpened, hClosed, hItem⟩
    exact ⟨⟨s, hs, hOpened, hItem⟩, s, hs, hClosed, hItem⟩

end Rows

------------------------------------------------------------
-- Stamps in the Records of an Event
------------------------------------------------------------

variable
  {ext : External}
  {kind : DbKind}
  {db : Database}
  {tableUuid : Uuid}
  {past rest : History}
  {e : Entry}
  {event : TxnEvent}

/- The decoded files have the stamps of their rows. -/
theorem decodeFiles_stamps
    {rows : List FileRow}
    {files : List File}
    (hOk : decodeFiles ext rows = .ok files) :
    files.map (fun file =>
        (file.fileUuid, file.removedInTransactionId)) =
      rows.map fun row =>
        (row.fileUuid, row.removedInTransactionId) := by
  have hRows := decodeFiles_ok hOk
  clear hOk
  induction hRows with
  | nil => rfl
  | cons hRow _ ih =>
      rcases bind_ok.mp hRow with ⟨partition, _, hRest⟩
      rcases bind_ok.mp hRest with ⟨format, _, hFile⟩
      rw [List.map_cons, List.map_cons, ih,
        ← Except.ok.inj hFile]

/- The stamps of the changed files are those of the rows. -/
theorem Stored.changedFiles_stamps
    {h : History}
    {t : TxnId}
    {changeKind : TxnFileChangeKind}
    {files : List File}
    (hStored : Stored ext db tableUuid h)
    (hFiles :
      FilesOf ext (db.changedFiles tableUuid changeKind t)
        files) :
    (files.map fun file =>
        (file.fileUuid, file.removedInTransactionId)).Perm
      (((stampLog h.fileLog).filter fun s =>
          changeKind.stamps t s).map fun s =>
        (s.item.fileUuid, s.closed)) := by
  rcases hFiles with ⟨decoded, hOk, hPerm⟩
  refine (hPerm.map _).trans (.of_eq ?_)
  rw [decodeFiles_stamps hOk, hStored.changedFiles_eq,
    List.map_map]
  rfl

/-
  What holds of the stamps in the file changes of an event
  is what holds of the rows that its transaction added; the
  files that it removed have its own stamp.
-/
theorem EventSeen.files_iff
    {P : Uuid → Option TxnId → Prop}
    {h : History}
    {t : TxnId}
    (hSeen :
      EventSeen ext kind tableUuid (fun x => x = db) t
        event)
    (hStored : Stored ext db tableUuid h)
    (hOwn : ∀ u, P u (some t)) :
    (∀ c ∈ event.fileChanges,
        P c.file.fileUuid c.file.removedInTransactionId) ↔
      ∀ s ∈ stampLog h.fileLog, s.opened = t →
        P s.item.fileUuid s.closed := by
  rcases hSeen.fileChanges with
    ⟨added, removed, hAdded, hRemoved, hChanges⟩
  rcases hAdded.seen with ⟨_, rfl, hAddedOk⟩
  rcases hRemoved.seen with ⟨_, rfl, hRemovedOk⟩
  have hAddedStamps :=
    hStored.changedFiles_stamps hAddedOk
  have hRemovedStamps :=
    hStored.changedFiles_stamps hRemovedOk
  rw [hChanges]
  constructor
  · intro hAll s hs hOpened
    have hPair : (s.item.fileUuid, s.closed) ∈
        added.map fun file =>
          (file.fileUuid, file.removedInTransactionId) := by
      rw [hAddedStamps.mem_iff]
      exact List.mem_map_of_mem
        (List.mem_filter.mpr ⟨hs, decide_eq_true hOpened⟩)
    rcases List.mem_map.mp hPair with ⟨file, hFile, hEq⟩
    rcases Prod.mk.inj hEq with ⟨hUuid, hClosed⟩
    rw [← hUuid, ← hClosed]
    exact hAll ⟨t, .added, file⟩ (List.mem_append_left _
      (List.mem_map_of_mem hFile))
  · intro hAll c hc
    rcases List.mem_append.mp hc with hIn | hIn
    · rcases List.mem_map.mp hIn with ⟨file, hFile, rfl⟩
      have hPair : (file.fileUuid,
          file.removedInTransactionId) ∈
            added.map fun file =>
              (file.fileUuid,
                file.removedInTransactionId) :=
        List.mem_map_of_mem hFile
      rw [hAddedStamps.mem_iff] at hPair
      rcases List.mem_map.mp hPair with ⟨s, hs, hEq⟩
      rcases List.mem_filter.mp hs with ⟨hRow, hOpened⟩
      rcases Prod.mk.inj hEq with ⟨hUuid, hClosed⟩
      dsimp only
      rw [← hUuid, ← hClosed]
      exact hAll s hRow (of_decide_eq_true hOpened)
    · rcases List.mem_map.mp hIn with ⟨file, hFile, rfl⟩
      have hPair : (file.fileUuid,
          file.removedInTransactionId) ∈
            removed.map fun file =>
              (file.fileUuid,
                file.removedInTransactionId) :=
        List.mem_map_of_mem hFile
      rw [hRemovedStamps.mem_iff] at hPair
      rcases List.mem_map.mp hPair with ⟨s, hs, hEq⟩
      rcases List.mem_filter.mp hs with ⟨_, hStamp⟩
      rcases Prod.mk.inj hEq with ⟨_, hClosed⟩
      dsimp only
      rw [← hClosed, of_decide_eq_true hStamp]
      exact hOwn _

/- The same of the schema that its transaction brought. -/
theorem EventSeen.schema_iff
    {P : Option TxnId → Prop}
    (hSeen :
      EventSeen ext kind tableUuid (fun x => x = db)
        e.transactionId event)
    (hHolds :
      Holds ext db tableUuid (past ++ e :: rest)) :
    (∀ c ∈ event.schemaChange,
        P c.schema.validToTransactionId) ↔
      (e.schemas ≠ [] →
        P (rest.schemaPoints.head?.map Prod.fst)) := by
  have hStored := hHolds.toStored
  have hNodup := hStored.ids_nodup hHolds.sound
  have hOne := hHolds.lawful.oneSchema e (by simp)
  have hChange := hSeen.schemaChange
  rcases nil_or_singleton hOne with hSchemas | ⟨s, hSchemas⟩
  · have hNone := hStored.noSchema_eq hNodup hSchemas
    rw [hSchemas]
    cases hEvent : event.schemaChange with
    | none => simp
    | some c =>
        rw [hEvent] at hChange
        cases hChange with
        | brought hRowSeen _ hRow =>
            subst hRowSeen
            rw [Database.newSchemas, hNone] at hRow
            cases hRow
  · have hSome := hStored.newSchema_eq hNodup hSchemas
    rw [hSchemas]
    cases hEvent : event.schemaChange with
    | none =>
        rw [hEvent] at hChange
        cases hChange with
        | absent hDb hNone =>
            subst hDb
            rw [Database.newSchemas, hSome] at hNone
            cases hNone
    | some c =>
        rw [hEvent] at hChange
        cases hChange with
        | brought hRowSeen _ hRow _ _ hSchema =>
            subst hRowSeen
            rw [Database.newSchemas, hSome] at hRow
            rcases List.cons.inj hRow with ⟨rfl, _⟩
            rw [decodeSchema_ok hSchema]
            simp [versionRow]

------------------------------------------------------------
-- Events that Stay as They Are
------------------------------------------------------------

theorem or_eq_self
    {stamp later : Option TxnId}
    (hNone : stamp = none → later = none) :
    stamp.or later = stamp := by
  cases stamp with
  | none => rw [hNone rfl, Option.or_none]
  | some t => rfl

/- The order of the files is of no account. -/
theorem TxnEvent.Alike.same_iff
    {later later' : TxnEvent}
    (hAlike : later.Alike later') :
    event.Same later ↔ event.Same later' := by
  have hFiles (c : TxnFileChange) :
      c ∈ later.fileChanges ↔ c ∈ later'.fileChanges :=
    hAlike.fileChanges.mem_iff
  constructor
  · intro hSame
    exact ⟨hSame.transactionId.trans hAlike.transactionId,
      fun c => (hSame.fileChanges c).trans (hFiles c),
      hSame.schemaChange.trans hAlike.schemaChange⟩
  · intro hSame
    exact ⟨hSame.transactionId.trans
        hAlike.transactionId.symm,
      fun c => (hSame.fileChanges c).trans (hFiles c).symm,
      hSame.schemaChange.trans hAlike.schemaChange.symm⟩

theorem TxnEvent.forall₂_same_iff
    {events later later' : List TxnEvent}
    (hAlike : List.Forall₂ TxnEvent.Alike later later') :
    List.Forall₂ TxnEvent.Same events later ↔
      List.Forall₂ TxnEvent.Same events later' := by
  induction hAlike generalizing events with
  | nil => rfl
  | cons hFirst _ ih =>
      cases events with
      | nil =>
          rw [List.forall₂_nil_left_iff,
            List.forall₂_nil_left_iff]
          simp
      | cons event rest =>
          rw [List.forall₂_cons, List.forall₂_cons,
            hFirst.same_iff, ih]

/- Later stamps change only records that have none. -/
theorem TxnEvent.same_after_iff
    {more : History} :
    event.Same (event.after more) ↔
      (∀ c ∈ event.fileChanges,
        c.file.removedInTransactionId = none →
          removalIn more c.file.fileUuid = none) ∧
      (∀ c ∈ event.schemaChange,
        c.schema.validToTransactionId = none →
          replacementIn more = none) := by
  constructor
  · intro hSame
    constructor
    · intro c hc hOpen
      have hLater := (hSame.fileChanges c).mp hc
      rcases List.mem_map.mp hLater with ⟨c', _, rfl⟩
      exact (Option.or_eq_none_iff.mp hOpen).2
    · intro c hc hOpen
      have hLater := hSame.schemaChange
      rw [Option.mem_def.mp hc] at hLater
      simp only [TxnEvent.after, Option.mem_def.mp hc,
        Option.map_some, Option.some.injEq] at hLater
      rw [hLater] at hOpen
      exact (Option.or_eq_none_iff.mp hOpen).2
  · rintro ⟨hFiles, hSchema⟩
    have hChanges :
        event.fileChanges.map (TxnFileChange.after more) =
          event.fileChanges := by
      apply (List.map_congr_left _).trans (List.map_id _)
      intro c hc
      rw [TxnFileChange.after, File.after,
        or_eq_self (hFiles c hc), id_eq]
    have hChange :
        event.schemaChange.map (TxnSchemaChange.after more) =
          event.schemaChange := by
      cases hEvent : event.schemaChange with
      | none => rfl
      | some c =>
          rw [hEvent] at hSchema
          rw [Option.map_some, TxnSchemaChange.after,
            Schema.after, or_eq_self (hSchema c rfl)]
    exact ⟨rfl, fun c => by rw [TxnEvent.after, hChanges],
      hChange.symm⟩

/- Whether the schema of an entry is the last one. -/
theorem last_schema_iff
    {p : TxnId × SchemaContents}
    (hNodup : (History.ids (past ++ e :: rest)).Nodup)
    (hOne : e.schemas.length ≤ 1)
    (hPoint : p ∈ History.schemaPoints [e]) :
    (History.schemaPoints
        (past ++ e :: rest)).getLast? = some p ↔
      rest.schemaPoints = [] := by
  have hSplit :
      History.schemaPoints (past ++ e :: rest) =
        past.schemaPoints ++ (History.schemaPoints [e] ++
          rest.schemaPoints) := by
    rw [History.schemaPoints_append, ← List.singleton_append,
      History.schemaPoints_append]
  rw [History.schemaPoints_singleton] at hPoint
  rcases List.mem_map.mp hPoint with ⟨s, hs, rfl⟩
  rcases nil_or_singleton hOne with hNone | ⟨s', hSome⟩
  · rw [hNone] at hs
    cases hs
  rw [hSome, List.mem_singleton] at hs
  subst hs
  rw [hSplit, History.schemaPoints_singleton, hSome]
  constructor
  · intro hLast
    by_contra hMore
    rw [List.getLast?_append_of_ne_nil _ (by simp),
      List.getLast?_append_of_ne_nil _ hMore] at hLast
    have hId := History.mem_ids_of_mem_schemaPoints
      (List.mem_of_getLast? hLast)
    exact (History.ne_of_nodup hNodup).2 _ hId rfl
  · intro hNone
    simp [hNone]

theorem EventSeen.same_after_iff
    {more : History}
    (hSeen :
      EventSeen ext kind tableUuid (fun x => x = db)
        e.transactionId event)
    (hHolds :
      Holds ext db tableUuid (past ++ e :: rest)) :
    event.Same (event.after more) ↔
      Untouched (past ++ e :: rest) [e] more := by
  have hNodup := hHolds.ids_nodup hHolds.sound
  have hOne := hHolds.lawful.oneSchema e (by simp)
  have hFiles := @EventSeen.files_iff _ _ _ _ _
    (fun u r => r = none → removalIn more u = none) _ _
    hSeen hHolds.toStored (fun u hOwn => by cases hOwn)
  have hSchema := @EventSeen.schema_iff _ _ _ _ _ _ _ _
    (fun r => r = none → replacementIn more = none)
    hSeen hHolds
  rw [TxnEvent.same_after_iff, hFiles, hSchema]
  constructor
  · rintro ⟨hRows, hPoints⟩
    constructor
    · intro f hf hLive
      rw [History.appended_singleton] at hf
      rcases (exists_open_iff hNodup
        hHolds.appended_nodup).mp ⟨hf, hLive⟩ with
        ⟨s, hs, hOpened, hClosed, rfl⟩
      exact hRows s hs hOpened hClosed
    · intro p hp hLast
      have hNone :=
        (last_schema_iff hNodup hOne hp).mp hLast
      apply replacementIn_eq_none.mp
      apply hPoints
      · intro hSchemas
        rw [History.schemaPoints_singleton, hSchemas] at hp
        cases hp
      · rw [hNone]
        rfl
  · intro hUntouched
    constructor
    · intro s hs hOpened hClosed
      rcases (exists_open_iff hNodup
        hHolds.appended_nodup).mpr
        ⟨s, hs, hOpened, hClosed, rfl⟩ with ⟨hf, hLive⟩
      rw [← History.appended_singleton] at hf
      exact hUntouched.files _ hf hLive
    · intro hSchemas hNone
      rcases List.exists_mem_of_ne_nil _ hSchemas with
        ⟨s, hs⟩
      have hp : (e.transactionId, s) ∈
          History.schemaPoints [e] := by
        rw [History.schemaPoints_singleton]
        exact List.mem_map_of_mem hs
      apply replacementIn_eq_none.mpr
      apply hUntouched.schema _ hp
      rw [last_schema_iff hNodup hOne hp]
      simpa using hNone

/-
  The rows of an entry after the others: closed by itself
  or, if it left their files, where one of the others
  removes them.
-/
theorem mem_opened_iff
    {s : Stamped FileContents TxnId}
    (hNodup : (History.ids (past ++ e :: rest)).Nodup) :
    (s ∈ stampLog (History.fileLog (past ++ e :: rest)) ∧
        s.opened = e.transactionId) ↔
      ∃ s₀ ∈ stampLog (History.fileLog (past ++ [e])),
        s₀.opened = e.transactionId ∧
          s = s₀.until
            (removalIn rest s₀.item.fileUuid) := by
  have hSplit : History.fileLog (past ++ e :: rest) =
      History.fileLog (past ++ [e]) ++
        History.fileLog rest := by
    rw [← History.fileLog_append, List.append_assoc,
      List.singleton_append]
  rcases stampLog_append (History.fileLog (past ++ [e]))
      (History.fileLog rest) with ⟨new, hRows, hNew⟩
  simp only [closingTime_fileLog] at hRows
  rw [hSplit, hRows, List.mem_append]
  constructor
  · rintro ⟨hOld | hIn, hOpened⟩
    · rcases List.mem_map.mp hOld with ⟨s₀, hs₀, rfl⟩
      exact ⟨s₀, hs₀, hOpened, rfl⟩
    · have hStamp := (hNew s hIn).1
      rcases List.mem_map.mp hStamp with
        ⟨entry, hEntry, hTime⟩
      have hId := History.mem_ids_of_mem_fileLog hEntry
      exact absurd (hTime.trans hOpened)
        ((History.ne_of_nodup hNodup).2 _ hId)
  · rintro ⟨s₀, hs₀, hOpened, rfl⟩
    exact ⟨.inl (List.mem_map_of_mem hs₀), hOpened⟩

/- A row of the last entry is open or closed by it. -/
theorem closed_of_last
    {s : Stamped FileContents TxnId}
    (hNodup : (History.ids (past ++ [e])).Nodup)
    (hRow : s ∈ stampLog (History.fileLog (past ++ [e])))
    (hOpened : s.opened = e.transactionId) :
    s.closed = none ∨ s.closed = some e.transactionId := by
  rcases stampLog_append past.fileLog (History.fileLog [e])
    with ⟨new, hRows, hNew⟩
  rw [History.fileLog_append, hRows, List.mem_append]
    at hRow
  rcases hRow with hOld | hIn
  · rcases List.mem_map.mp hOld with ⟨s₀, hs₀, rfl⟩
    have hStamps := stampsIn_stampLog
      (P := (· ≠ e.transactionId)) past.fileLog
      (fun entry hEntry =>
        (History.ne_of_nodup hNodup).1 _
          (History.mem_ids_of_mem_fileLog hEntry)) s₀ hs₀
    exact absurd hOpened hStamps.1
  · cases hClosed : s.closed with
    | none => exact .inl rfl
    | some t =>
        have hTime := (hNew s hIn).2 t hClosed
        rw [History.fileLog_singleton, List.map_singleton,
          List.mem_singleton] at hTime
        exact .inr (congrArg some hTime)

/-
  An event has stamps of other transactions as soon as one
  of the later entries removes a file that it appended and
  left, or replaces the schema that it brought.
-/
theorem EventSeen.ownStamps_iff
    (hSeen :
      EventSeen ext kind tableUuid (fun x => x = db)
        e.transactionId event)
    (hHolds :
      Holds ext db tableUuid (past ++ e :: rest)) :
    event.OwnStamps ↔ Untouched (past ++ [e]) [e] rest := by
  have hNodup := hHolds.ids_nodup hHolds.sound
  have hSplit : past ++ e :: rest = past ++ [e] ++ rest := by
    rw [List.append_assoc, List.singleton_append]
  have hNodup₀ : (History.ids (past ++ [e])).Nodup := by
    rw [hSplit, History.ids_append] at hNodup
    exact (List.nodup_append.mp hNodup).1
  have hUuids₀ : ((History.appended (past ++ [e])).map
      FileContents.fileUuid).Nodup := by
    have hUuids := hHolds.appended_nodup
    rw [hSplit, History.appended_append, List.map_append]
      at hUuids
    exact (List.nodup_append.mp hUuids).1
  have hOne := hHolds.lawful.oneSchema e (by simp)
  have hFiles := @EventSeen.files_iff _ _ _ _ _
    (fun _ r => ∀ t, r = some t → t = e.transactionId) _ _
    hSeen hHolds.toStored
    (fun _ t ht => (Option.some.inj ht).symm)
  have hSchema := @EventSeen.schema_iff _ _ _ _ _ _ _ _
    (fun r => r = none) hSeen hHolds
  have hOwn : event.OwnStamps ↔
      (∀ c ∈ event.fileChanges, ∀ t,
        c.file.removedInTransactionId = some t →
          t = e.transactionId) ∧
      (∀ c ∈ event.schemaChange,
        c.schema.validToTransactionId = none) := by
    rw [← hSeen.transactionId]
    exact ⟨fun h => ⟨h.files, h.schema⟩,
      fun h => ⟨h.1, h.2⟩⟩
  rw [hOwn, hFiles, hSchema]
  constructor
  · rintro ⟨hRows, hPoints⟩
    constructor
    · intro f hf hLive
      rw [History.appended_singleton] at hf
      rcases (exists_open_iff hNodup₀ hUuids₀).mp
        ⟨hf, hLive⟩ with ⟨s₀, hs₀, hOpened, hClosed, rfl⟩
      rcases (mem_opened_iff hNodup).mpr
        ⟨s₀, hs₀, hOpened, rfl⟩ with ⟨hs, hOpened'⟩
      cases hRemoval : removalIn rest s₀.item.fileUuid with
      | none => rfl
      | some t =>
          have hEq := hRows _ hs hOpened' t (by
            rw [Stamped.until, hClosed, hRemoval]
            rfl)
          exact absurd hEq ((History.ne_of_nodup hNodup).2 t
            (mem_ids_of_removalIn hRemoval))
    · intro p hp _
      have hSchemas : e.schemas ≠ [] := by
        intro hNone
        rw [History.schemaPoints_singleton, hNone] at hp
        cases hp
      simpa using hPoints hSchemas
  · intro hUntouched
    constructor
    · intro s hs hOpened t hClosed
      rcases (mem_opened_iff hNodup).mp ⟨hs, hOpened⟩ with
        ⟨s₀, hs₀, hOpened₀, rfl⟩
      rcases closed_of_last hNodup₀ hs₀ hOpened₀ with
        hOpen | hByItself
      · rcases (exists_open_iff hNodup₀ hUuids₀).mpr
          ⟨s₀, hs₀, hOpened₀, hOpen, rfl⟩ with ⟨hf, hLive⟩
        rw [← History.appended_singleton] at hf
        have hNone := hUntouched.files _ hf hLive
        rw [Stamped.until, hOpen, hNone] at hClosed
        cases hClosed
      · rw [Stamped.until, hByItself] at hClosed
        exact (Option.some.inj hClosed).symm
    · intro hSchemas
      rcases List.exists_mem_of_ne_nil _ hSchemas with
        ⟨s, hs⟩
      have hp : (e.transactionId, s) ∈
          History.schemaPoints [e] := by
        rw [History.schemaPoints_singleton]
        exact List.mem_map_of_mem hs
      have hLast := (last_schema_iff hNodup₀ hOne hp).mpr rfl
      rw [hUntouched.schema _ hp hLast]
      rfl

end Planar
