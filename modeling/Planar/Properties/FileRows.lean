import Planar.Properties.TimeTravel

/-
  File rows are write-once: only the removal stamp of a row
  changes, and only once.

  Main declarations:
    * `Entry.Deletes`, `FileRow.Continues`
    * `FileRow.StampedBy`
    * `World.Reachable.fileRows`
-/

------------------------------------------------------------
-- Rows of One Table
------------------------------------------------------------

namespace Planar

/- An entry lists a file in one of its deletions. -/
def Entry.Deletes
    (e : Entry)
    (fileUuid : Uuid) : Prop :=
  ∃ fileUuids, Change.deleteFiles fileUuids ∈ e.changes ∧
    fileUuid ∈ fileUuids

/-
  A later state of a file row: all is as before, but an open
  row may have been removed by one of the new entries.
-/
def FileRow.Continues
    (row row' : FileRow)
    (new : History) : Prop :=
  row' = row ∨
    (row.removedInTransactionId = none ∧
      ∃ e ∈ new, e.Deletes row.fileUuid ∧
        row' =
          { row with
            removedInTransactionId :=
              some e.transactionId })

/-
  The stamps of a file row: it was added by an entry that
  appended its UUID, and removed, if it was, by that entry
  or a later one that lists the UUID in a deletion.
-/
def FileRow.StampedBy
    (row : FileRow)
    (h : History) : Prop :=
  ∃ before e after, h = before ++ e :: after ∧
    row.addedInTransactionId = e.transactionId ∧
    row.fileUuid ∈ (insertedBy e.edits).map
      FileContents.fileUuid ∧
    ∀ t, row.removedInTransactionId = some t →
      ∃ e' ∈ e :: after, e'.transactionId = t ∧
        e'.Deletes row.fileUuid

variable
  {ext : External}
  {tableUuid : Uuid}

/- A retirement of a file is a deletion that lists it. -/
theorem Entry.deletes_iff
    {e : Entry}
    {f : FileContents} :
    e.Deletes f.fileUuid ↔
      ∃ selected, Edit.retire selected ∈ e.edits ∧
        selected f = true := by
  constructor
  · rintro ⟨fileUuids, hChange, hMember⟩
    exact ⟨_, List.mem_filterMap.mpr ⟨_, hChange, rfl⟩,
      decide_eq_true hMember⟩
  · rintro ⟨selected, hEdit, hSelected⟩
    rcases List.mem_filterMap.mp hEdit with
      ⟨change, hChange, hEq⟩
    cases change with
    | deleteFiles fileUuids =>
        simp only [Change.edit, Option.some.injEq,
          Edit.retire.injEq] at hEq
        subst hEq
        exact ⟨fileUuids, hChange, by simpa using hSelected⟩
    | appendFiles files => simp [Change.edit] at hEq
    | updateSchema schema => simp [Change.edit] at hEq
    | setProperties properties => simp [Change.edit] at hEq
    | removeProperties keys => simp [Change.edit] at hEq

theorem deletes_of_retiredIn
    {h : History}
    {f : FileContents}
    {t : TxnId}
    (hRetired : RetiredIn h.fileLog f t) :
    ∃ e ∈ h, e.transactionId = t ∧ e.Deletes f.fileUuid := by
  rcases hRetired with ⟨entry, hEntry, hTime, hRetires⟩
  rcases List.mem_map.mp hEntry with ⟨e, hMember, rfl⟩
  exact ⟨e, hMember, hTime, Entry.deletes_iff.mpr hRetires⟩

/- The rows of a history go on in every longer history. -/
theorem exists_fileRowsOf
    {h : History}
    {row : FileRow}
    (more : History)
    (hRow : row ∈ fileRowsOf ext tableUuid h) :
    ∃ row' ∈ fileRowsOf ext tableUuid (h ++ more),
      row.Continues row' more := by
  rcases List.mem_map.mp hRow with ⟨s, hStamped, rfl⟩
  rcases exists_stampLog h.fileLog more.fileLog hStamped
    with ⟨s', hStamped', hContinues⟩
  rw [← History.fileLog_append] at hStamped'
  refine ⟨_, List.mem_map_of_mem hStamped', ?_⟩
  have hItem := hContinues.item
  have hOpened := hContinues.opened
  rcases hContinues.closed with hSame | ⟨hOpen, t, hEnd, hBy⟩
  · left
    unfold stampedRow
    rw [hItem, hOpened, hSame]
  · rcases deletes_of_retiredIn hBy with
      ⟨e, hMember, rfl, hDeletes⟩
    refine .inr ⟨hOpen, e, hMember, hDeletes, ?_⟩
    unfold stampedRow
    rw [hItem, hOpened, hEnd]

theorem stampedBy_fileRowsOf
    {h : History}
    {row : FileRow}
    (hRow : row ∈ fileRowsOf ext tableUuid h) :
    row.StampedBy h := by
  rcases List.mem_map.mp hRow with ⟨s, hStamped, rfl⟩
  rcases origin_stampLog hStamped with
    ⟨before, entry, after, hLog, hOpened, hItem, hClosed⟩
  rcases List.map_eq_append_iff.mp hLog with
    ⟨past, rest, rfl, hBefore, hRest⟩
  rcases List.map_eq_cons_iff.mp hRest with
    ⟨e, later, rfl, rfl, hAfter⟩
  refine ⟨past, e, later, rfl, hOpened,
    List.mem_map_of_mem hItem, ?_⟩
  intro t hTime
  have hRetired := hClosed t hTime
  rw [← hAfter] at hRetired
  exact deletes_of_retiredIn (h := e :: later) hRetired

------------------------------------------------------------
-- Rows Along a Run
------------------------------------------------------------

/- Every file row belongs to a table. -/
theorem World.Inv.table_of_file
    {w : World}
    {row : FileRow}
    (hInv : w.Inv ext)
    (hRow : row ∈ w.database.files) :
    ∃ table ∈ w.database.tables,
      table.tableUuid = row.tableUuid ∧
      row ∈ fileRowsOf ext table.tableUuid
        (w.history table.ident) := by
  have hReference :
      Key.table row.tableUuid ∈
        w.database.referenceList := by
    simp only [Database.referenceList, List.mem_append]
    exact .inr (.inr (.inr (List.mem_flatMap.mpr
      ⟨row, hRow, List.mem_cons_self⟩)))
  rcases Database.mem_keyList_table.mp
    (hInv.sound.references _ hReference) with
      ⟨table, hTable, hUuid⟩
  refine ⟨table, hTable, hUuid, ?_⟩
  rw [← (hInv.tracked table hTable).files]
  refine List.mem_filter.mpr ⟨hRow, ?_⟩
  rw [hUuid]
  exact decide_eq_true rfl

/-
  In every reachable state no UUID stands in two file rows,
  and the stamps of every row are those of entries in the
  history of its own table.  After any further calls every
  row is still there, as it was or with the one removal that
  one of the new entries asked for.
-/
theorem World.Reachable.fileRows
    {w : World}
    (hReach : w.Reachable ext) :
    (w.database.files.map FileRow.fileUuid).Nodup ∧
    ∀ row ∈ w.database.files,
      ∃ table ∈ w.database.tables,
        table.tableUuid = row.tableUuid ∧
        (w.history table.ident).Linked ∧
        row.StampedBy (w.history table.ident) ∧
        ∀ w', Relation.ReflTransGen (Step ext) w w' →
          ∃ more row', row' ∈ w'.database.files ∧
            w'.history table.ident =
              w.history table.ident ++ more ∧
            row.Continues row' more := by
  have hInv := hReach.inv
  refine ⟨hInv.sound.fileUuids, ?_⟩
  intro row hRow
  rcases hInv.table_of_file hRow with
    ⟨table, hTable, hUuid, hSlice⟩
  refine ⟨table, hTable, hUuid,
    (hInv.lawful table hTable).linked,
    stampedBy_fileRowsOf hSlice, ?_⟩
  intro w' hSteps
  rcases hInv.steps_history hSteps table.ident with
    ⟨more, hMore⟩
  rcases exists_fileRowsOf more hSlice with
    ⟨row', hRow', hContinues⟩
  have hFiles := (hInv.holds_later hSteps hTable).files
  rw [hMore] at hFiles
  rw [← hFiles] at hRow'
  exact ⟨more, row', (List.mem_filter.mp hRow').1, hMore,
    hContinues⟩

theorem fileRows_sample :
    (sampleWorld.database.files.map
      FileRow.fileUuid).Nodup ∧
    ∀ row ∈ sampleWorld.database.files,
      ∃ table ∈ sampleWorld.database.tables,
        table.tableUuid = row.tableUuid ∧
        (sampleWorld.history table.ident).Linked ∧
        row.StampedBy (sampleWorld.history table.ident) ∧
        ∀ w', Relation.ReflTransGen
            (World.Step sampleExternal) sampleWorld w' →
          ∃ more row', row' ∈ w'.database.files ∧
            w'.history table.ident =
              sampleWorld.history table.ident ++ more ∧
            row.Continues row' more :=
  (World.reachable_run sampleExternal sampleCalls).fileRows

end Planar
