import Planar.History.Commits

/-
  What the changes of a commit do to the rows of its own
  table and to the rows of the others.

  Main declarations:
    * `schemaRows`, `fileRowsOf`
    * `filesOf_changes`, `schemas_changes`
    * `filesOf_changes_other`
-/

------------------------------------------------------------
-- The Rows of a History
------------------------------------------------------------

namespace Planar

/- The row of the schema at a position. -/
def versionRow
    (tableUuid : Uuid)
    (position : Nat)
    (s : Stamped SchemaContents TxnId) : SchemaRow :=
  { schemaUuid := s.item.schemaUuid
    tableUuid := tableUuid
    schemaVersion := asI32 ((position + 1 : Nat) : Int)
    validFromTransactionId := s.opened
    validToTransactionId := s.closed
    createdAt := s.item.createdAt }

/- The rows of `schemas` for the schemas of a history. -/
def schemaRows
    (tableUuid : Uuid)
    (points : List (TxnId × SchemaContents)) :
    List SchemaRow :=
  (succession points).mapIdx (versionRow tableUuid)

/- The rows of `files` for a history. -/
def fileRowsOf
    (ext : External)
    (tableUuid : Uuid)
    (h : History) : List FileRow :=
  (stampLog h.fileLog).map (stampedRow ext tableUuid)

theorem fileRowsOf_concat
    (ext : External)
    (tableUuid : Uuid)
    (h : History)
    (e : Entry) :
    fileRowsOf ext tableUuid (h ++ [e]) =
      (stampEdits e.transactionId (stampLog h.fileLog)
        e.edits).map (stampedRow ext tableUuid) := by
  simp [fileRowsOf]

@[simp] theorem length_schemaRows
    (tableUuid : Uuid)
    (points : List (TxnId × SchemaContents)) :
    (schemaRows tableUuid points).length =
      points.length := by
  simp [schemaRows]

/- The schema row at a position. -/
theorem getElem?_schemaRows
    (tableUuid : Uuid)
    (points : List (TxnId × SchemaContents))
    (i : Nat) :
    (schemaRows tableUuid points)[i]? =
      points[i]?.map fun p =>
        versionRow tableUuid i
          ⟨p.2, p.1, points[i + 1]?.map Prod.fst⟩ := by
  simp [schemaRows, getElem?_succession,
    Function.comp_def]

theorem map_schemaUuid_schemaRows
    (tableUuid : Uuid)
    (points : List (TxnId × SchemaContents)) :
    (schemaRows tableUuid points).map
        SchemaRow.schemaUuid =
      points.map fun p => p.2.schemaUuid := by
  apply List.ext_getElem?
  intro i
  rw [List.getElem?_map, getElem?_schemaRows,
    List.getElem?_map, Option.map_map]
  rfl

/- Every schema row comes from a point of the history. -/
theorem exists_point_of_mem
    {tableUuid : Uuid}
    {points : List (TxnId × SchemaContents)}
    {row : SchemaRow}
    (hMember : row ∈ schemaRows tableUuid points) :
    ∃ p ∈ points, p.2.schemaUuid = row.schemaUuid := by
  have hUuid := List.mem_map_of_mem
    (f := SchemaRow.schemaUuid) hMember
  rw [map_schemaUuid_schemaRows] at hUuid
  exact List.mem_map.mp hUuid

/-
  Among schemas with distinct UUIDs, closing the last one by
  its UUID and adding a row is adding a point.
-/
theorem schemaRows_concat
    {tableUuid : Uuid}
    {points : List (TxnId × SchemaContents)}
    {last : TxnId × SchemaContents}
    {transactionId : TxnId}
    {s : SchemaContents}
    (hNodup :
      (points.map fun p => p.2.schemaUuid).Nodup)
    (hLast : points.getLast? = some last) :
    schemaRows tableUuid (points ++ [(transactionId, s)]) =
      (schemaRows tableUuid points).map
          (SchemaRow.close transactionId
            last.2.schemaUuid) ++
        [s.row tableUuid transactionId
          (asI32
            (asI32 ((points.length : Nat) : Int) +
              1))] := by
  have hPosition : points[points.length - 1]? = some last := by
    rw [← List.getLast?_eq_getElem?]
    exact hLast
  have hLength : 0 < points.length := by
    rcases List.length_pos_iff.mpr
      (List.ne_nil_of_mem (List.mem_of_getLast? hLast))
      with hPos
    exact hPos
  apply List.ext_getElem?
  intro i
  rw [getElem?_schemaRows]
  rcases Nat.lt_trichotomy i points.length with
    hOld | rfl | hBeyond
  · have hPoint :
        (points ++ [(transactionId, s)])[i]? =
          points[i]? :=
      List.getElem?_append_left hOld
    have hRow :
        i < ((schemaRows tableUuid points).map
          (SchemaRow.close transactionId
            last.2.schemaUuid)).length := by
      simpa using hOld
    rw [hPoint, List.getElem?_append_left hRow,
      List.getElem?_map, getElem?_schemaRows,
      Option.map_map]
    rcases hAt : points[i]? with _ | p
    · rfl
    simp only [Option.map_some, Function.comp_apply,
      Option.some.injEq]
    by_cases hIsLast : i = points.length - 1
    · subst hIsLast
      rw [hPosition, Option.some.injEq] at hAt
      subst hAt
      have hNext :
          points.length - 1 + 1 = points.length := by
        omega
      simp [SchemaRow.close, versionRow, hNext]
    · have hNe : p.2.schemaUuid ≠ last.2.schemaUuid := by
        intro hEq
        apply hIsLast
        have hUuids :
            (points.map fun p => p.2.schemaUuid)[i]? =
              (points.map fun p =>
                p.2.schemaUuid)[points.length - 1]? := by
          rw [List.getElem?_map, List.getElem?_map, hAt,
            hPosition, Option.map_some, Option.map_some,
            hEq]
        exact (List.getElem?_inj (by simpa using hOld)
          hNodup).mp hUuids
      have hNext :
          (points ++ [(transactionId, s)])[i + 1]? =
            points[i + 1]? :=
        List.getElem?_append_left (by omega)
      simp [SchemaRow.close, versionRow, hNe, hNext]
  · have hCast :
        asI32 ((points.length + 1 : Nat) : Int) =
          asI32
            (asI32 ((points.length : Nat) : Int) + 1) := by
      rw [asI32_asI32_add]
      norm_cast
    simp only [List.getElem?_append_right, List.length_map,
      length_schemaRows, Nat.le_refl, Nat.sub_self,
      List.getElem?_cons_zero, Option.map_some, versionRow,
      SchemaContents.row, hCast]
    simp
  · have hNone :
        (points ++ [(transactionId, s)])[i]? = none := by
      apply List.getElem?_eq_none
      simp only [List.length_append, List.length_singleton]
      omega
    rw [hNone, Option.map_none, eq_comm]
    apply List.getElem?_eq_none
    simp only [List.length_append, List.length_map,
      length_schemaRows, List.length_singleton]
    omega

------------------------------------------------------------
-- Files
------------------------------------------------------------

@[simp] theorem stampedRow_tableUuid
    (ext : External)
    (tableUuid : Uuid)
    (s : Stamped FileContents TxnId) :
    (stampedRow ext tableUuid s).tableUuid = tableUuid :=
  rfl

/- Marking a stored file is closing its stamped item. -/
theorem markRemoved_stampedRow
    (ext : External)
    (tableUuid : Uuid)
    (transactionId : TxnId)
    (fileUuids : List Uuid)
    (s : Stamped FileContents TxnId) :
    (stampedRow ext tableUuid s).markRemoved transactionId
        tableUuid fileUuids =
      stampedRow ext tableUuid
        (s.closeIf transactionId fun f =>
          f.fileUuid ∈ fileUuids) := by
  have hLive :
      (stampedRow ext tableUuid s).isLiveIn tableUuid
          fileUuids =
        (s.isOpen && decide
          (s.item.fileUuid ∈ fileUuids)) := by
    simp [FileRow.isLiveIn, Stamped.isOpen, stampedRow]
    rfl
  unfold FileRow.markRemoved Stamped.closeIf
  rw [hLive]
  split <;> rfl

/- Files marked in one table leave the others alone. -/
theorem FileRow.markRemoved_other
    {transactionId : TxnId}
    {tableUuid : Uuid}
    {fileUuids : List Uuid}
    {row : FileRow}
    (hOther : row.tableUuid ≠ tableUuid) :
    row.markRemoved transactionId tableUuid fileUuids =
      row := by
  simp [markRemoved, isLiveIn, hOther]

/- The files of a table after a statement that marks. -/
theorem filesOf_markFilesRemoved
    (db : Database)
    (transactionId : TxnId)
    (tableUuid t : Uuid)
    (fileUuids : List Uuid) :
    (db.effect (.markFilesRemoved transactionId tableUuid
        fileUuids)).filesOf t =
      (db.filesOf t).map
        (FileRow.markRemoved transactionId tableUuid
          fileUuids) := by
  have hTable :
      (fun row : FileRow => decide (row.tableUuid = t)) ∘
          FileRow.markRemoved transactionId tableUuid
            fileUuids =
        fun row => decide (row.tableUuid = t) := by
    funext row
    simp [FileRow.markRemoved_tableUuid]
  simp only [Database.filesOf, Database.effect,
    List.filter_map, hTable]

/- One change acts on the stored files as its edit. -/
theorem filesOf_change
    {ext : External}
    {tableUuid : Uuid}
    {transactionId : TxnId}
    {head : SchemaHead}
    {v : Database}
    {rows : List (Stamped FileContents TxnId)}
    (change : Change)
    (hRows :
      v.filesOf tableUuid =
        rows.map (stampedRow ext tableUuid)) :
    (sqlStore.apply v
        (change.statements ext tableUuid transactionId
          head)).filesOf tableUuid =
      (stampEdits transactionId rows
        change.edit.toList).map
          (stampedRow ext tableUuid) := by
  cases change with
  | appendFiles files =>
      have hNew :
          (appendedRows ext tableUuid transactionId
              files).filter
            (fun row => row.tableUuid = tableUuid) =
          appendedRows ext tableUuid transactionId
            files := by
        apply List.filter_eq_self.mpr
        intro row hRow
        rcases List.mem_map.mp hRow with ⟨f, _, rfl⟩
        simp
      have hOld :
          v.files.filter
              (fun row => row.tableUuid = tableUuid) =
            rows.map (stampedRow ext tableUuid) := hRows
      simp only [Change.statements, Store.apply_cons,
        Store.apply_nil, sqlStore_effect, Database.effect,
        Database.filesOf, List.filter_append, hOld, hNew,
        Change.edit, Option.toList_some, stampEdits_cons,
        stampEdits_nil, Edit.stamp, List.map_append,
        List.map_map]
      simp only [appendedRows, Function.comp_def]
  | deleteFiles fileUuids =>
      simp only [Change.statements, Store.apply_cons,
        Store.apply_nil, sqlStore_effect,
        filesOf_markFilesRemoved, hRows, Change.edit,
        Option.toList_some, stampEdits_cons,
        stampEdits_nil, Edit.stamp, List.map_map]
      apply List.map_congr_left
      intro s _
      exact markRemoved_stampedRow ext tableUuid
        transactionId fileUuids s
  | updateSchema s => exact hRows
  | setProperties properties => exact hRows
  | removeProperties keys => exact hRows

/- All changes of a commit act as their edits. -/
theorem filesOf_changes
    {ext : External}
    {tableUuid : Uuid}
    {transactionId : TxnId}
    {head : SchemaHead}
    {v : Database}
    {rows : List (Stamped FileContents TxnId)}
    (changes : List Change)
    (hRows :
      v.filesOf tableUuid =
        rows.map (stampedRow ext tableUuid)) :
    (sqlStore.apply v
        (changes.flatMap
          (Change.statements ext tableUuid transactionId
            head))).filesOf tableUuid =
      (stampEdits transactionId rows
        (changes.filterMap Change.edit)).map
          (stampedRow ext tableUuid) := by
  induction changes generalizing v rows with
  | nil => exact hRows
  | cons change rest ih =>
      rw [List.flatMap_cons, Store.apply_append,
        ih (filesOf_change change hRows)]
      cases hEdit : change.edit with
      | none => simp [hEdit]
      | some edit => simp [hEdit]

/- The changes of one table leave other files alone. -/
theorem filesOf_changes_other
    {ext : External}
    {tableUuid t : Uuid}
    {transactionId : TxnId}
    {head : SchemaHead}
    {v : Database}
    (changes : List Change)
    (hOther : t ≠ tableUuid) :
    (sqlStore.apply v
        (changes.flatMap
          (Change.statements ext tableUuid transactionId
            head))).filesOf t =
      v.filesOf t := by
  induction changes generalizing v with
  | nil => rfl
  | cons change rest ih =>
      rw [List.flatMap_cons, Store.apply_append, ih]
      cases change with
      | appendFiles files =>
          have hNone :
              (appendedRows ext tableUuid transactionId
                  files).filter
                (fun row => row.tableUuid = t) = [] := by
            apply List.filter_eq_nil_iff.mpr
            intro row hRow
            rcases List.mem_map.mp hRow with ⟨f, _, rfl⟩
            intro hEq
            exact hOther (of_decide_eq_true hEq).symm
          simp [Change.statements, Database.effect,
            Database.filesOf, hNone]
      | deleteFiles fileUuids =>
          simp only [Change.statements, Store.apply_cons,
            Store.apply_nil, sqlStore_effect,
            filesOf_markFilesRemoved]
          apply (List.map_congr_left _).trans
            (List.map_id _)
          intro row hRow
          have hTable : row.tableUuid = t := by
            simpa using (List.mem_filter.mp hRow).2
          exact FileRow.markRemoved_other (hTable ▸ hOther)
      | updateSchema s => rfl
      | setProperties properties => rfl
      | removeProperties keys => rfl

------------------------------------------------------------
-- Tables and Transactions
------------------------------------------------------------

/- Changes write no row of `tables` or `transactions`. -/
theorem tables_changes
    {ext : External}
    {tableUuid : Uuid}
    {transactionId : TxnId}
    {head : SchemaHead}
    {v : Database}
    (changes : List Change) :
    (sqlStore.apply v
        (changes.flatMap
          (Change.statements ext tableUuid transactionId
            head))).tables = v.tables ∧
    (sqlStore.apply v
        (changes.flatMap
          (Change.statements ext tableUuid transactionId
            head))).transactions = v.transactions ∧
    (sqlStore.apply v
        (changes.flatMap
          (Change.statements ext tableUuid transactionId
            head))).tableStats = v.tableStats := by
  induction changes generalizing v with
  | nil => exact ⟨rfl, rfl, rfl⟩
  | cons change rest ih =>
      rw [List.flatMap_cons, Store.apply_append]
      cases change with
      | _ => exact ih

------------------------------------------------------------
-- Schemas and Columns
------------------------------------------------------------

/- What one new schema does to the rows of `schemas`. -/
def pushSchema
    (tableUuid : Uuid)
    (transactionId : TxnId)
    (head : SchemaHead)
    (rows : List SchemaRow)
    (s : SchemaContents) : List SchemaRow :=
  (rows ++
      [s.row tableUuid transactionId
        (asI32 (head.schemaVersion + 1))]).map
    (SchemaRow.close transactionId head.schemaUuid)

/- The schemas and columns after the changes of a commit. -/
theorem schemas_changes
    {ext : External}
    {tableUuid : Uuid}
    {transactionId : TxnId}
    {head : SchemaHead}
    {v : Database}
    (changes : List Change) :
    (sqlStore.apply v
        (changes.flatMap
          (Change.statements ext tableUuid transactionId
            head))).schemas =
      (changes.filterMap Change.schema).foldl
        (pushSchema tableUuid transactionId head)
        v.schemas ∧
    (sqlStore.apply v
        (changes.flatMap
          (Change.statements ext tableUuid transactionId
            head))).columns =
      v.columns ++
        (changes.filterMap Change.schema).flatMap
          (SchemaContents.columnRows ext) := by
  induction changes generalizing v with
  | nil => simp
  | cons change rest ih =>
      rw [List.flatMap_cons, Store.apply_append]
      rcases ih (v := sqlStore.apply v
        (change.statements ext tableUuid transactionId
          head)) with ⟨hSchemas, hColumns⟩
      rw [hSchemas, hColumns]
      cases change with
      | updateSchema s =>
          simp [Change.statements, Database.effect,
            Change.schema, pushSchema]
      | _ => exact ⟨rfl, rfl⟩

end Planar
