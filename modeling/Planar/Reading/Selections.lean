import Planar.Catalog.Events
import Planar.History.Progress

/-
  What the queries of the readers select from the rows of a
  history.

  Main declarations:
    * `History.exists_split`
    * `Database.visibleFiles`, `Stored.visibleFiles_eq`
    * `Stored.validSchemas_eq`, `Stored.selectSchema_eq`
    * `Holds.validSchema`
    * `Stored.changedFiles_eq`
    * `Stored.newSchema_eq`, `Stored.noSchema_eq`
-/

------------------------------------------------------------
-- Histories Up to a Transaction
------------------------------------------------------------

namespace Planar

namespace History

/- A history splits after each of its transactions. -/
theorem exists_split
    {h : History}
    {t : TxnId}
    (hMember : t ∈ h.ids) :
    ∃ past later, h = past ++ later ∧
      past.ids.getLast? = some t := by
  rcases List.mem_map.mp hMember with ⟨e, hEntry, rfl⟩
  rcases List.append_of_mem hEntry with
    ⟨before, after, rfl⟩
  refine ⟨before ++ [e], after, by simp, ?_⟩
  simp [ids]

/- A longer past of distinct ids has another last id. -/
theorem eq_nil_of_last
    {past more later : History}
    (hNodup : (ids (past ++ (more ++ later))).Nodup)
    (hLast :
      past.ids.getLast? = (ids (past ++ more)).getLast?) :
    more = [] := by
  cases more with
  | nil => rfl
  | cons e rest =>
      have hNonempty : ids (e :: rest) ≠ [] := by
        simp [ids]
      rw [ids_append, List.getLast?_append_of_ne_nil _
        hNonempty] at hLast
      rcases Option.ne_none_iff_exists'.mp
        (fun hNone => hNonempty
          (List.getLast?_eq_none_iff.mp hNone)) with
        ⟨t, ht⟩
      rw [ht] at hLast
      rw [ids_append, ids_append, List.nodup_append]
        at hNodup
      exact absurd rfl
        (hNodup.2.2 t (List.mem_of_getLast? hLast) t
          (List.mem_append_left _
            (List.mem_of_getLast? ht)))

/- The last id of a past determines the past. -/
theorem split_unique
    {past later past' later' : History}
    (hNodup : (ids (past ++ later)).Nodup)
    (hSame : past ++ later = past' ++ later')
    (hLast : past.ids.getLast? = past'.ids.getLast?) :
    past = past' := by
  rcases List.append_eq_append_iff.mp hSame with
    ⟨more, rfl, rfl⟩ | ⟨more, rfl, rfl⟩
  · rw [eq_nil_of_last hNodup hLast, List.append_nil]
  · rw [List.append_assoc] at hNodup
    rw [eq_nil_of_last hNodup hLast.symm, List.append_nil]

/- With increasing ids the past has none after its last. -/
theorem ids_le_of_past
    {past later : History}
    {t : TxnId}
    (hIncreasing :
      (ids (past ++ later)).Pairwise (· < ·))
    (hLast : past.ids.getLast? = some t) :
    ∀ i ∈ past.ids, i ≤ t := by
  rcases List.getLast?_eq_some_iff.mp hLast with
    ⟨before, hIds⟩
  rw [ids_append, hIds, List.pairwise_append,
    List.pairwise_append] at hIncreasing
  intro i hMember
  rw [hIds] at hMember
  rcases List.mem_append.mp hMember with hOld | hNew
  · exact (hIncreasing.1.2.2 i hOld t
      List.mem_cons_self).le
  · exact (List.mem_singleton.mp hNew).le

theorem lt_of_later
    {past later : History}
    {t : TxnId}
    (hIncreasing :
      (ids (past ++ later)).Pairwise (· < ·))
    (hLast : past.ids.getLast? = some t) :
    ∀ i ∈ later.ids, t < i := by
  rw [ids_append, List.pairwise_append] at hIncreasing
  intro i hMember
  exact hIncreasing.2.2 t (List.mem_of_getLast? hLast) i
    hMember

/- The part of a created history up to a point is created. -/
theorem created_past
    {past later : History}
    (hCreated :
      ∃ first ∈ (past ++ later).head?, first.schemas ≠ [])
    (hPast : past ≠ []) :
    ∃ first ∈ past.head?, first.schemas ≠ [] := by
  rw [List.head?_append_of_ne_nil _ hPast] at hCreated
  exact hCreated

/- A created history has a schema. -/
theorem schemaPoints_ne_nil
    {h : History}
    (hCreated : ∃ first ∈ h.head?, first.schemas ≠ []) :
    h.schemaPoints ≠ [] := by
  rcases hCreated with ⟨first, hFirst, hSchemas⟩
  rcases List.exists_mem_of_ne_nil _ hSchemas with ⟨x, hx⟩
  apply List.ne_nil_of_mem (a := (first.transactionId, x))
  exact List.mem_flatMap.mpr
    ⟨first, List.mem_of_mem_head? hFirst,
      List.mem_map_of_mem hx⟩

/- The parent of an entry is the transaction before it. -/
theorem Linked.parent
    {past later : History}
    {e : Entry}
    (hLinked : Linked (past ++ e :: later)) :
    e.parentTransactionId = past.ids.getLast? := by
  unfold Linked at hLinked
  rw [ids_append, List.map_append] at hLinked
  change _ = linkedKeys (past.ids ++ e.transactionId ::
    later.ids) at hLinked
  rw [linkedKeys_append_cons] at hLinked
  have hLength :
      (past.map fun e =>
        (e.transactionId, e.parentTransactionId)).length =
        (linkedKeys past.ids).length := by
    have hKeys :=
      congrArg List.length (map_fst_linkedKeys past.ids)
    rw [List.length_map] at hKeys
    rw [hKeys, ids, List.length_map, List.length_map]
  have hTail := (List.append_inj hLinked hLength).2
  exact (Prod.mk.inj (List.cons.inj hTail).1).2

theorem ne_nil_of_last
    {past : History}
    {t : TxnId}
    (hLast : past.ids.getLast? = some t) :
    past ≠ [] := by
  rintro rfl
  cases hLast

end History

------------------------------------------------------------
-- Visible Files
------------------------------------------------------------

/- The rows of files that count at a transaction. -/
def Database.visibleFiles
    (db : Database)
    (tableUuid : Uuid)
    (t : TxnId) : List FileRow :=
  (db.filesOf tableUuid).filter (FileRow.isVisibleAt t)

/- A read selects more rows than its limit or all rows. -/
theorem length_selectVisible
    {ext : External}
    {tableUuid : Uuid}
    {t : TxnId}
    {db : Database} :
    maxFilesPerQuery <
        (selectVisible ext tableUuid t db).length ↔
      maxFilesPerQuery <
        (db.visibleFiles tableUuid t).length := by
  rw [selectVisible, List.length_take,
    RowOrder.length_arrange, Database.visibleFiles]
  omega

theorem selectVisible_eq
    {ext : External}
    {tableUuid : Uuid}
    {t : TxnId}
    {db : Database}
    (hFew :
      (db.visibleFiles tableUuid t).length ≤
        maxFilesPerQuery) :
    selectVisible ext tableUuid t db =
      ext.orders.visibleFiles.arrange
        (db.visibleFiles tableUuid t) := by
  apply List.take_of_length_le
  rw [RowOrder.length_arrange]
  exact Nat.le_succ_of_le hFew

theorem isVisibleAt_stampedRow
    (ext : External)
    (tableUuid : Uuid)
    (t : TxnId)
    (s : Stamped FileContents TxnId) :
    (stampedRow ext tableUuid s).isVisibleAt t =
      s.visibleAt t := by
  unfold FileRow.isVisibleAt Stamped.visibleAt stampedRow
  cases s.closed <;> simp

section Selections

variable
  {ext : External}
  {db : Database}
  {tableUuid : Uuid}
  {h past later : History}
  {t : TxnId}

theorem Stored.visibleFiles_eq
    (hStored : Stored ext db tableUuid h) :
    db.visibleFiles tableUuid t =
      ((stampLog h.fileLog).filter
          (Stamped.visibleAt t)).map
        (stampedRow ext tableUuid) := by
  rw [Database.visibleFiles, hStored.files, fileRowsOf,
    List.filter_map]
  congr 2
  funext s
  exact isVisibleAt_stampedRow ext tableUuid t s

/- The visible items are those of the replayed past. -/
theorem visible_fileLog
    (hPast : ∀ i ∈ past.ids, i ≤ t)
    (hLater : ∀ i ∈ later.ids, t < i) :
    ((stampLog (History.fileLog (past ++ later))).filter
        (Stamped.visibleAt t)).map Stamped.item =
      past.files := by
  rw [History.fileLog_append]
  apply visibleItems_stampLog
  · intro entry hEntry
    exact hPast _ (History.mem_ids_of_mem_fileLog hEntry)
  · intro entry hEntry
    exact hLater _ (History.mem_ids_of_mem_fileLog hEntry)

/- Every file of a replay was appended by an entry. -/
theorem History.mem_files
    {f : FileContents}
    (hFile : f ∈ h.files) :
    ∃ e ∈ h, f ∈ insertedBy e.edits := by
  rcases mem_replayLog hFile with ⟨entry, hEntry, hItem⟩
  rcases List.mem_map.mp hEntry with ⟨e, hMember, rfl⟩
  exact ⟨e, hMember, hItem⟩

------------------------------------------------------------
-- The Schema in Force
------------------------------------------------------------

theorem isValidAt_versionRow
    (tableUuid : Uuid)
    (t : TxnId)
    (i : Nat)
    (s : Stamped SchemaContents TxnId) :
    (versionRow tableUuid i s).isValidAt t =
      s.visibleAt t := by
  unfold SchemaRow.isValidAt Stamped.visibleAt versionRow
  cases s.closed <;> simp

/-
  Exactly one schema is valid at a transaction: the last one
  of the past, closed by the first one after it.
-/
theorem Stored.validSchemas_eq
    {last : TxnId × SchemaContents}
    (hStored : Stored ext db tableUuid (past ++ later))
    (hPast : ∀ i ∈ past.ids, i ≤ t)
    (hLater : ∀ i ∈ later.ids, t < i)
    (hLast : past.schemaPoints.getLast? = some last) :
    (db.schemasOf tableUuid).filter
        (SchemaRow.isValidAt t) =
      [versionRow tableUuid (past.schemaPoints.length - 1)
        ⟨last.2, last.1,
          later.schemaPoints.head?.map Prod.fst⟩] := by
  rcases List.getLast?_eq_some_iff.mp hLast with
    ⟨points, hPoints⟩
  have hTimes : ∀ p ∈ past.schemaPoints, p.1 ≤ t :=
    fun p hPoint =>
      hPast _ (History.mem_ids_of_mem_schemaPoints hPoint)
  rw [hPoints] at hTimes
  have hSplit :
      History.schemaPoints (past ++ later) =
        points ++ (last.1, last.2) :: later.schemaPoints := by
    rw [History.schemaPoints_append, hPoints]
    simp
  rw [hStored.schemas, schemaRows, hSplit, hPoints]
  apply filter_mapIdx_of_singleton
    (isValidAt_versionRow tableUuid t)
  · apply filter_visibleAt_succession
    · exact fun p hPoint =>
        hTimes p (List.mem_append_left _ hPoint)
    · exact hTimes last (by simp)
    · exact fun p hPoint =>
        hLater _
          (History.mem_ids_of_mem_schemaPoints hPoint)
  · have hAt := getElem?_succession_middle points
      later.schemaPoints last
    simpa using hAt

/- In whatever order, a read takes the one that is valid. -/
theorem Stored.selectSchema_eq
    {last : TxnId × SchemaContents}
    (hStored : Stored ext db tableUuid (past ++ later))
    (hPast : ∀ i ∈ past.ids, i ≤ t)
    (hLater : ∀ i ∈ later.ids, t < i)
    (hLast : past.schemaPoints.getLast? = some last) :
    selectSchema ext tableUuid t db =
      some (versionRow tableUuid
        (past.schemaPoints.length - 1)
        ⟨last.2, last.1,
          later.schemaPoints.head?.map Prod.fst⟩) := by
  rw [selectSchema,
    hStored.validSchemas_eq hPast hLater hLast,
    RowOrder.first_singleton]

/- At a transaction of the past one version is valid. -/
theorem Holds.validSchema
    (hHolds : Holds ext db tableUuid h)
    (hIncreasing : h.ids.Pairwise (· < ·))
    (hMember : t ∈ h.ids) :
    ∃ past later last,
      h = past ++ later ∧
      past.ids.getLast? = some t ∧
      past.schemaPoints.getLast? = some last ∧
      (db.schemasOf tableUuid).filter
          (SchemaRow.isValidAt t) =
        [versionRow tableUuid
          (past.schemaPoints.length - 1)
          ⟨last.2, last.1,
            later.schemaPoints.head?.map Prod.fst⟩] := by
  rcases History.exists_split hMember with
    ⟨past, later, rfl, hLast⟩
  have hPast : past ≠ [] := History.ne_nil_of_last hLast
  rcases History.lastPoint
      (History.created_past hHolds.lawful.created hPast)
    with ⟨last, hPoint⟩
  refine ⟨past, later, last, rfl, hLast, hPoint, ?_⟩
  exact hHolds.validSchemas_eq
    (History.ids_le_of_past hIncreasing hLast)
    (History.lt_of_later hIncreasing hLast) hPoint

------------------------------------------------------------
-- Files Stamped by One Transaction
------------------------------------------------------------

/- The rows that a transaction added or removed. -/
def Database.changedFiles
    (db : Database)
    (tableUuid : Uuid)
    (kind : TxnFileChangeKind)
    (t : TxnId) : List FileRow :=
  (db.filesOf tableUuid).filter fun row =>
    match kind with
    | .added => row.addedInTransactionId = t
    | .removed => row.removedInTransactionId = some t

/- A listing selects more than its limit or all rows. -/
theorem length_selectChanged
    {kind : TxnFileChangeKind} :
    maxFilesPerQuery <
        (selectChanged ext kind tableUuid t db).length ↔
      maxFilesPerQuery <
        (db.changedFiles tableUuid kind t).length := by
  change _ < (((ext.orders.changedFiles kind).arrange
    (db.changedFiles tableUuid kind t)).take _).length ↔ _
  rw [List.length_take, RowOrder.length_arrange]
  omega

theorem selectChanged_eq
    {kind : TxnFileChangeKind}
    (hFew :
      (db.changedFiles tableUuid kind t).length ≤
        maxFilesPerQuery) :
    selectChanged ext kind tableUuid t db =
      (ext.orders.changedFiles kind).arrange
        (db.changedFiles tableUuid kind t) := by
  apply List.take_of_length_le
  rw [RowOrder.length_arrange]
  exact Nat.le_succ_of_le hFew

/- The stamp of an item that a kind of change names. -/
def TxnFileChangeKind.stamps
    (t : TxnId)
    (s : Stamped FileContents TxnId) :
    TxnFileChangeKind → Bool
| .added => s.opened = t
| .removed => s.closed = some t

theorem Stored.changedFiles_eq
    (hStored : Stored ext db tableUuid h)
    (kind : TxnFileChangeKind) :
    db.changedFiles tableUuid kind t =
      ((stampLog h.fileLog).filter fun s =>
          kind.stamps t s).map
        (stampedRow ext tableUuid) := by
  rw [Database.changedFiles, hStored.files, fileRowsOf,
    List.filter_map]
  cases kind <;> rfl

/- Among distinct ids no other entry has an id. -/
theorem History.ne_of_nodup
    {e : Entry}
    (hNodup : (History.ids (past ++ e :: later)).Nodup) :
    (∀ i ∈ past.ids, i ≠ e.transactionId) ∧
      ∀ i ∈ later.ids, i ≠ e.transactionId := by
  rw [History.ids_append, List.nodup_append] at hNodup
  rcases hNodup with ⟨_, hRest, hApart⟩
  constructor
  · intro i hMember
    exact hApart i hMember e.transactionId
      List.mem_cons_self
  · intro i hMember hEq
    have hNotMem := (List.nodup_cons.mp hRest).1
    rw [hEq] at hMember
    exact hNotMem hMember

/- The files that an entry added, in its order. -/
theorem addedItems_fileLog
    {e : Entry}
    (hNodup : (History.ids (past ++ e :: later)).Nodup) :
    ((stampLog
        (History.fileLog (past ++ e :: later))).filter
          fun s => TxnFileChangeKind.added.stamps
            e.transactionId s).map Stamped.item =
      insertedBy e.edits := by
  rcases History.ne_of_nodup hNodup with ⟨hPast, hLater⟩
  rw [History.fileLog_append]
  apply openedItems_stampLog past.fileLog _
    (e.transactionId, e.edits)
  · intro entry hEntry
    exact hPast _ (History.mem_ids_of_mem_fileLog hEntry)
  · intro entry hEntry
    exact hLater _ (History.mem_ids_of_mem_fileLog hEntry)

/- The files that an entry removed, in some order. -/
theorem removedItems_fileLog
    {e : Entry}
    (hNodup : (History.ids (past ++ e :: later)).Nodup) :
    (((stampLog
        (History.fileLog (past ++ e :: later))).filter
          fun s => TxnFileChangeKind.removed.stamps
            e.transactionId s).map Stamped.item).Perm
      (retiredBy past.files e.edits) := by
  rcases History.ne_of_nodup hNodup with ⟨hPast, hLater⟩
  rw [History.fileLog_append]
  apply closedItems_stampLog past.fileLog _
    (e.transactionId, e.edits)
  · intro entry hEntry
    exact hPast _ (History.mem_ids_of_mem_fileLog hEntry)
  · intro entry hEntry
    exact hLater _ (History.mem_ids_of_mem_fileLog hEntry)

------------------------------------------------------------
-- Schemas Brought by One Transaction
------------------------------------------------------------

theorem opened_versionRow
    (tableUuid : Uuid)
    (i : Nat)
    (s : Stamped SchemaContents TxnId) :
    (versionRow tableUuid i s).validFromTransactionId =
      s.opened := rfl

/- A schema brought by an entry is the only one found. -/
theorem Stored.newSchema_eq
    {e : Entry}
    {s : SchemaContents}
    (hStored :
      Stored ext db tableUuid (past ++ e :: later))
    (hNodup : (History.ids (past ++ e :: later)).Nodup)
    (hSchema : e.schemas = [s]) :
    (db.schemasOf tableUuid).filter
        (fun row =>
          row.validFromTransactionId = e.transactionId) =
      [versionRow tableUuid past.schemaPoints.length
        ⟨s, e.transactionId,
          later.schemaPoints.head?.map Prod.fst⟩] := by
  rcases History.ne_of_nodup hNodup with ⟨hPast, hLater⟩
  have hSplit :
      History.schemaPoints (past ++ e :: later) =
        past.schemaPoints ++
          (e.transactionId, s) :: later.schemaPoints := by
    rw [History.schemaPoints_append, ← List.singleton_append,
      History.schemaPoints_append,
      History.schemaPoints_singleton, hSchema]
    rfl
  rw [hStored.schemas, schemaRows, hSplit]
  apply filter_mapIdx_of_singleton fun j r => by
    rw [opened_versionRow]
  · apply filter_opened_succession
    · exact fun p hPoint =>
        hPast _ (History.mem_ids_of_mem_schemaPoints hPoint)
    · exact fun p hPoint =>
        hLater _
          (History.mem_ids_of_mem_schemaPoints hPoint)
  · rw [getElem?_succession_middle]

/- An entry without a schema has no schema row. -/
theorem Stored.noSchema_eq
    {e : Entry}
    (hStored :
      Stored ext db tableUuid (past ++ e :: later))
    (hNodup : (History.ids (past ++ e :: later)).Nodup)
    (hSchema : e.schemas = []) :
    (db.schemasOf tableUuid).filter
        (fun row =>
          row.validFromTransactionId = e.transactionId) =
      [] := by
  rcases History.ne_of_nodup hNodup with ⟨hPast, hLater⟩
  have hSplit :
      History.schemaPoints (past ++ e :: later) =
        past.schemaPoints ++ later.schemaPoints := by
    rw [History.schemaPoints_append, ← List.singleton_append,
      History.schemaPoints_append,
      History.schemaPoints_singleton, hSchema]
    rfl
  rw [hStored.schemas, hSplit]
  apply List.filter_eq_nil_iff.mpr
  intro row hRow hEq
  rcases List.getElem?_of_mem hRow with ⟨i, hAt⟩
  rw [getElem?_schemaRows] at hAt
  rcases Option.map_eq_some_iff.mp hAt with
    ⟨p, hPoint, rfl⟩
  have hTime : p.1 = e.transactionId := by
    exact of_decide_eq_true hEq
  rcases List.mem_append.mp (List.mem_of_getElem? hPoint)
    with hOld | hNew
  · exact hPast _
      (History.mem_ids_of_mem_schemaPoints hOld) hTime
  · exact hLater _
      (History.mem_ids_of_mem_schemaPoints hNew) hTime

end Selections

end Planar
