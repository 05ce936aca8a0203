import Planar.Reading.NetChanges

/-
  The events of a range of the history take the files before
  the range to those past it.

  Main declarations:
    * `Database.HasFile`
    * `takes_entry`, `EventSeen.takes`, `takes_events`
    * `netOf_events`
-/

------------------------------------------------------------
-- Files of a Table
------------------------------------------------------------

namespace Planar

/- A file as some row of the table decodes. -/
def Database.HasFile
    (db : Database)
    (ext : External)
    (tableUuid : Uuid)
    (file : File) : Prop :=
  ∃ row ∈ db.filesOf tableUuid,
    decodeFile ext row = .ok file

/- The UUIDs of the files that replaying leaves. -/
def History.fileUuids (h : History) : List Uuid :=
  h.files.map FileContents.fileUuid

variable
  {ext : External}
  {kind : DbKind}
  {db : Database}
  {tableUuid : Uuid}

theorem hasFile_of_decodeFiles
    {rows : List FileRow}
    {files : List File}
    (hRows : ∀ row ∈ rows, row ∈ db.filesOf tableUuid)
    (hOk : decodeFiles ext rows = .ok files) :
    ∀ f ∈ files, db.HasFile ext tableUuid f := by
  intro f hFile
  rcases mem_of_forall₂ (decodeFiles_ok hOk) hFile with
    ⟨row, hRow, hDecode⟩
  exact ⟨row, hRows row hRow, hDecode⟩

/- A UUID stands for one file only. -/
theorem Database.Sound.hasFile_unique
    {f g : File}
    (hSound : db.Sound)
    (hf : db.HasFile ext tableUuid f)
    (hg : db.HasFile ext tableUuid g)
    (hEq : f.fileUuid = g.fileUuid) :
    f = g := by
  rcases hf with ⟨row, hRow, hDecode⟩
  rcases hg with ⟨row', hRow', hDecode'⟩
  have hSame : row = row' := by
    apply List.inj_on_of_nodup_map
      (hSound.filesOf_nodup tableUuid) hRow hRow'
    rw [← decodeFile_fileUuid hDecode,
      ← decodeFile_fileUuid hDecode', hEq]
  subst hSame
  exact Except.ok.inj (hDecode.symm.trans hDecode')

theorem ChangesSeen.hasFile
    {t : TxnId}
    {changeKind : TxnFileChangeKind}
    {files : List File}
    (hSeen :
      ChangesSeen ext tableUuid (fun x => x = db) t
        changeKind files) :
    ∀ f ∈ files, db.HasFile ext tableUuid f := by
  rcases hSeen.seen with ⟨_, rfl, decoded, hOk, hPerm⟩
  intro f hFile
  exact hasFile_of_decodeFiles
    (fun _ hRow => List.mem_of_mem_filter hRow) hOk f
    (hPerm.mem_iff.mp hFile)

------------------------------------------------------------
-- The Events of a Range
------------------------------------------------------------

/- What one entry leaves of the files of its past. -/
theorem mem_fileUuids_concat
    {past : History}
    {e : Entry}
    (hNodup :
      ((past.files ++ insertedBy e.edits).map
        FileContents.fileUuid).Nodup)
    (k : Uuid) :
    k ∈ History.fileUuids (past ++ [e]) ↔
      (k ∈ past.fileUuids ∨
        k ∈ (insertedBy e.edits).map
          FileContents.fileUuid) ∧
      k ∉ (retiredBy past.files e.edits).map
        FileContents.fileUuid := by
  have hPerm := (perm_replayEdits past.files e.edits).map
    FileContents.fileUuid
  have hSplit := hPerm.nodup_iff.mp hNodup
  have hMem := hPerm.mem_iff (a := k)
  rw [List.map_append, List.nodup_append] at hSplit
  rw [List.map_append, List.map_append, List.mem_append,
    List.mem_append] at hMem
  unfold History.fileUuids
  rw [History.files_concat, hMem]
  constructor
  · intro hKept
    exact ⟨.inl hKept, fun hGone =>
      hSplit.2.2 k hKept k hGone rfl⟩
  · rintro ⟨hKept | hGone, hNot⟩
    · exact hKept
    · exact absurd hGone hNot

/-
  The changes of an event take the files before its entry to
  those past it; they add what the entry inserts.
-/
structure EventTakes
    (ext : External)
    (db : Database)
    (tableUuid : Uuid)
    (past range : History)
    (changes : List TxnFileChange) : Prop where
  takes :
    Takes {k | k ∈ past.fileUuids}
      {k | k ∈ History.fileUuids (past ++ range)} changes
  added : ∀ k, AddedIn changes k →
    k ∈ range.appended.map FileContents.fileUuid
  files : ∀ change ∈ changes,
    db.HasFile ext tableUuid change.file

/- A file is appended once, so an entry brings new UUIDs. -/
theorem Holds.nodup_insertedBy
    {past later : History}
    {e : Entry}
    (hHolds :
      Holds ext db tableUuid (past ++ e :: later)) :
    ((past.appended ++ insertedBy e.edits).map
      FileContents.fileUuid).Nodup := by
  have hNodup := hHolds.appended_nodup
  rw [← List.singleton_append, ← List.append_assoc,
    History.appended_append, List.map_append] at hNodup
  have hFirst := (List.nodup_append.mp hNodup).1
  rwa [History.appended_append,
    History.appended_singleton] at hFirst

/- What an entry retires was there or is its own file. -/
theorem mem_fileUuids_of_retired
    {past : History}
    {e : Entry}
    {k : Uuid}
    (hGone :
      k ∈ (retiredBy past.files e.edits).map
        FileContents.fileUuid) :
    k ∈ past.fileUuids ∨
      k ∈ (insertedBy e.edits).map
        FileContents.fileUuid := by
  have hMem :=
    ((perm_replayEdits past.files e.edits).map
      FileContents.fileUuid).mem_iff (a := k)
  rw [List.map_append, List.map_append, List.mem_append,
    List.mem_append] at hMem
  exact hMem.mpr (.inr hGone)

/- An entry adds what it inserts, then removes others. -/
theorem takes_entry
    {past later : History}
    {e : Entry}
    {added removed : List File}
    (hHolds :
      Holds ext db tableUuid (past ++ e :: later))
    (hAdded :
      (added.map File.fileUuid).Perm
        ((insertedBy e.edits).map FileContents.fileUuid))
    (hRemoved :
      (removed.map File.fileUuid).Perm
        ((retiredBy past.files e.edits).map
          FileContents.fileUuid)) :
    Takes {k | k ∈ past.fileUuids}
      {k | k ∈ History.fileUuids (past ++ [e])}
      (changesOf e.transactionId .added added ++
        changesOf e.transactionId .removed removed) := by
  have hLive :
      ((past.files ++ insertedBy e.edits).map
        FileContents.fileUuid).Nodup :=
    hHolds.nodup_insertedBy.sublist
      ((past.files_sublist.append (.refl _)).map _)
  have hGone :
      ((retiredBy past.files e.edits).map
        FileContents.fileUuid).Nodup := by
    have hSplit :=
      ((perm_replayEdits past.files e.edits).map
        FileContents.fileUuid).nodup_iff.mp hLive
    rw [List.map_append] at hSplit
    exact (List.nodup_append.mp hSplit).2.1
  have hAfterwards :
      {k | k ∈ History.fileUuids (past ++ [e])} =
        ({k | k ∈ past.fileUuids} ∪
            {k | k ∈ added.map File.fileUuid}) \
          {k | k ∈ removed.map File.fileUuid} := by
    ext k
    rw [Set.mem_sdiff, Set.mem_union, Set.mem_ofPred_eq,
      Set.mem_ofPred_eq, Set.mem_ofPred_eq,
      Set.mem_ofPred_eq, mem_fileUuids_concat hLive,
      hAdded.mem_iff, hRemoved.mem_iff]
  rw [List.map_append, List.nodup_append] at hLive
  rw [hAfterwards]
  apply takes_event
  · exact hAdded.nodup_iff.mpr hLive.2.1
  · intro f hFile hIn
    refine hLive.2.2 _ hIn f.fileUuid ?_ rfl
    exact hAdded.mem_iff.mp (List.mem_map_of_mem hFile)
  · exact hRemoved.nodup_iff.mpr hGone
  · intro f hFile
    rw [hAdded.mem_iff]
    exact mem_fileUuids_of_retired
      (hRemoved.mem_iff.mp (List.mem_map_of_mem hFile))

/- One event: it adds its new files, then removes others. -/
theorem EventSeen.takes
    {past later : History}
    {e : Entry}
    {event : TxnEvent}
    (hSeen :
      EventSeen ext kind tableUuid (fun x => x = db)
        e.transactionId event)
    (hHolds :
      Holds ext db tableUuid (past ++ e :: later)) :
    EventTakes ext db tableUuid past [e]
      event.fileChanges := by
  rcases hSeen.fileChanges with
    ⟨added, removed, hAdded, hRemoved, hChanges⟩
  have hAfter : SeenAfter ext tableUuid past e
      fun x => x = db := by
    rintro _ rfl
    exact ⟨later, hHolds⟩
  -- the uuids of the changed files are those of the entry
  have hAddedKeys := hAdded.uuids hAfter
  have hRemovedKeys := hRemoved.uuids hAfter
  rw [hChanges]
  constructor
  case takes =>
    exact takes_entry hHolds hAddedKeys hRemovedKeys
  case added =>
    intro k hIn
    rw [addedIn_append, addedIn_changesOf,
      addedIn_changesOf] at hIn
    rw [History.appended_singleton]
    rcases hIn with ⟨_, hIn⟩ | ⟨hKind, _⟩
    · exact hAddedKeys.mem_iff.mp hIn
    · cases hKind
  case files =>
    intro change hChange
    rcases List.mem_append.mp hChange with hIn | hIn
    · rcases List.mem_map.mp hIn with ⟨f, hFile, rfl⟩
      exact hAdded.hasFile f hFile
    · rcases List.mem_map.mp hIn with ⟨f, hFile, rfl⟩
      exact hRemoved.hasFile f hFile

theorem EventTakes.append
    {past first second : History}
    {changes changes' : List TxnFileChange}
    (hFirst :
      EventTakes ext db tableUuid past first changes)
    (hSecond :
      EventTakes ext db tableUuid (past ++ first) second
        changes') :
    EventTakes ext db tableUuid past (first ++ second)
      (changes ++ changes') where
  takes := by
    rw [← List.append_assoc]
    exact hFirst.takes.append hSecond.takes
  added k hIn := by
    rw [History.appended_append, List.map_append,
      List.mem_append]
    rcases (addedIn_append k).mp hIn with hIn | hIn
    · exact .inl (hFirst.added k hIn)
    · exact .inr (hSecond.added k hIn)
  files change hChange := by
    rcases List.mem_append.mp hChange with hIn | hIn
    · exact hFirst.files change hIn
    · exact hSecond.files change hIn

/- By induction on the range, one event after the other. -/
theorem takes_events
    {past range later : History}
    {events : List TxnEvent}
    (hSeen :
      List.Forall₂
        (EventSeen ext kind tableUuid fun x => x = db)
        range.ids events)
    (hHolds :
      Holds ext db tableUuid (past ++ range ++ later)) :
    EventTakes ext db tableUuid past range
      (events.flatMap TxnEvent.fileChanges) := by
  induction range generalizing past events with
  | nil =>
      cases hSeen
      refine ⟨?_, ?_, nofun⟩
      · rw [List.append_nil]
        exact takes_nil _
      · rintro k ⟨change, hChange, _⟩
        cases hChange
  | cons e rest ih =>
      cases hSeen with
      | @cons _ event _ events hEvent hRest =>
          have hFirst : Holds ext db tableUuid
              (past ++ e :: (rest ++ later)) := by
            rwa [List.append_assoc, List.cons_append]
              at hHolds
          have hRestHolds : Holds ext db tableUuid
              (past ++ [e] ++ rest ++ later) := by
            simpa using hHolds
          rw [List.flatMap_cons, ← List.singleton_append]
          exact (hEvent.takes hFirst).append
            (ih hRest hRestHolds)

/- The net changes of a range are those past the range. -/
theorem netOf_events
    {past range later : History}
    {events : List TxnEvent}
    (hSeen :
      List.Forall₂
        (EventSeen ext kind tableUuid fun x => x = db)
        range.ids events)
    (hHolds :
      Holds ext db tableUuid (past ++ range ++ later)) :
    NetOf (db.HasFile ext tableUuid)
      {k | k ∈ past.fileUuids}
      {k | k ∈ History.fileUuids (past ++ range)}
      ((events.flatMap TxnEvent.fileChanges).foldl
        projectChange {}) := by
  have hTakes := takes_events hSeen hHolds
  refine hTakes.takes.netOf ?_ hTakes.files
  -- a UUID is appended once in the whole history
  intro k hAdded hIn
  have hNodup := hHolds.appended_nodup
  rw [History.appended_append, List.map_append] at hNodup
  have hFirst := (List.nodup_append.mp hNodup).1
  rw [History.appended_append, List.map_append] at hFirst
  exact (List.nodup_append.mp hFirst).2.2 k
    ((past.files_sublist.map _).subset hIn) k
    (hTakes.added k hAdded) rfl

end Planar
