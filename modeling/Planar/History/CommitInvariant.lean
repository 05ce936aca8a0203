import Planar.History.World

/-
  A successful commit keeps the rows of every table those of
  its history.

  Main declarations:
    * `advanceTo`, `tables_commitStatements`
    * `Tracked.commit`, `Lawful.commit`
    * `Tracked.commit_other`
-/

------------------------------------------------------------
-- The Variables of the Loop
------------------------------------------------------------

namespace Planar

theorem foldl_stage_properties
    (changes : List Change)
    (staging : Staging) :
    (changes.foldl Change.stage staging).properties =
      changes.foldl Change.onProperties
        staging.properties := by
  induction changes generalizing staging with
  | nil => rfl
  | cons change rest ih => exact ih _

theorem foldl_stage_newSchemaUuid
    (changes : List Change)
    (staging : Staging) :
    (changes.foldl Change.stage staging).newSchemaUuid =
      ((changes.filterMap Change.schema).getLast?.map
        SchemaContents.schemaUuid).or
          staging.newSchemaUuid := by
  induction changes generalizing staging with
  | nil => rfl
  | cons change rest ih =>
      rw [List.foldl_cons, ih]
      cases hSchema : change.schema with
      | none => simp [Change.stage, hSchema]
      | some s =>
          simp only [Change.stage, hSchema, Option.map_some,
            List.filterMap_cons, List.getLast?_cons]
          cases (rest.filterMap Change.schema).getLast? <;>
            simp

/- Operations that update the schema bring schemas. -/
theorem length_schemas_changesFrom
    (draws : Draws)
    (op : Nat)
    (operations : List MutationOp) :
    ((changesFrom draws op operations).filterMap
        Change.schema).length =
      (operations.filter
        MutationOp.isUpdateSchema).length := by
  induction operations generalizing op with
  | nil => rfl
  | cons operation rest ih =>
      rw [changesFrom, List.filterMap_cons,
        List.filter_cons]
      cases operation <;>
        simp [MutationOp.change, Change.schema,
          MutationOp.isUpdateSchema, ih]

/- A schema of the entry comes from an operation. -/
theorem mem_schemas_changesFrom
    {draws : Draws}
    {op : Nat}
    {operations : List MutationOp}
    {s : SchemaContents}
    (hSchema :
      s ∈ (changesFrom draws op operations).filterMap
        Change.schema) :
    ∃ spec, .updateSchema spec ∈ operations ∧
      s.specs = spec.columns ∧
      s.createdAt = draws.now := by
  rcases List.mem_filterMap.mp hSchema with
    ⟨change, hChange, hSome⟩
  rcases mem_changesFrom.mp hChange with
    ⟨i, operation, hAt, rfl⟩
  cases operation with
  | updateSchema spec =>
      refine ⟨spec, List.mem_of_getElem? hAt, ?_⟩
      rw [← Option.some.inj hSome]
      exact ⟨spec.specs_contents draws _, rfl⟩
  | _ => cases hSome

/- A mutation that passes the checks brings one schema. -/
theorem precheck_oneSchema
    {base : TxnId}
    {mutation : Mutation}
    {draws : Draws}
    (hChecked : precheck mutation = .ok ()) :
    (commitEntry base mutation draws).schemas.length ≤
      1 := by
  unfold precheck at hChecked
  split at hChecked
  · cases hChecked
  split at hChecked
  · cases hChecked
  unfold Entry.schemas commitEntry
  rw [length_schemas_changesFrom]
  exact mutation.validate_updates hChecked

------------------------------------------------------------
-- The Rows After a Commit
------------------------------------------------------------

variable
  {ext : External}
  {row : TableRow}
  {properties : TableProperties}
  {head : SchemaHead}
  {e : Entry}
  {db : Database}

/- A row of `tables` after a commit to the table `row`. -/
def advanceTo
    (ext : External)
    (row : TableRow)
    (properties : TableProperties)
    (e : Entry)
    (other : TableRow) : TableRow :=
  other.advanceHead e.transactionId
    (((stagedBy row properties
      e.changes).newSchemaUuid).or row.currentSchemaUuid)
    (ext.jsonToString (stagedBy row properties
      e.changes).properties.toJson)
    row.tableUuid

@[simp] theorem ident_advanceTo
    (ext : External)
    (row : TableRow)
    (properties : TableProperties)
    (e : Entry)
    (other : TableRow) :
    (advanceTo ext row properties e other).ident =
      other.ident := by
  unfold advanceTo TableRow.advanceHead
  split <;> rfl

@[simp] theorem tableUuid_advanceTo
    (ext : External)
    (row : TableRow)
    (properties : TableProperties)
    (e : Entry)
    (other : TableRow) :
    (advanceTo ext row properties e other).tableUuid =
      other.tableUuid := by
  unfold advanceTo TableRow.advanceHead
  split <;> rfl

theorem advanceTo_other
    {ext : External}
    {row : TableRow}
    {properties : TableProperties}
    {e : Entry}
    {other : TableRow}
    (hTable : other.tableUuid ≠ row.tableUuid) :
    advanceTo ext row properties e other = other := by
  simp [advanceTo, TableRow.advanceHead, hTable]

/- The tables after the statements of a commit. -/
theorem tables_commitStatements :
    (sqlStore.apply db
        (commitStatements ext row properties head
          e)).tables =
      db.tables.map (advanceTo ext row properties e) := by
  simp only [commitStatements, Store.apply_cons,
    Store.apply_append, Store.apply_nil, sqlStore_effect]
  exact congrArg (List.map _) (tables_changes e.changes).1

theorem transactions_commitStatements :
    (sqlStore.apply db
        (commitStatements ext row properties head
          e)).transactions =
      db.transactions ++
        [e.transactionRow row.tableUuid] := by
  simp only [commitStatements, Store.apply_cons,
    Store.apply_append, Store.apply_nil, sqlStore_effect]
  exact (tables_changes e.changes).2.1

theorem tableStats_commitStatements :
    (sqlStore.apply db
        (commitStatements ext row properties head
          e)).tableStats = db.tableStats := by
  simp only [commitStatements, Store.apply_cons,
    Store.apply_append, Store.apply_nil, sqlStore_effect]
  exact (tables_changes e.changes).2.2

theorem schemas_commitStatements :
    (sqlStore.apply db
        (commitStatements ext row properties head
          e)).schemas =
      e.schemas.foldl
        (pushSchema row.tableUuid e.transactionId head)
        db.schemas := by
  simp only [commitStatements, Store.apply_cons,
    Store.apply_append, Store.apply_nil, sqlStore_effect]
  exact (schemas_changes e.changes).1

theorem columns_commitStatements :
    (sqlStore.apply db
        (commitStatements ext row properties head
          e)).columns =
      db.columns ++
        e.schemas.flatMap
          (SchemaContents.columnRows ext) := by
  simp only [commitStatements, Store.apply_cons,
    Store.apply_append, Store.apply_nil, sqlStore_effect]
  exact (schemas_changes e.changes).2

theorem filesOf_commitStatements
    {h : History}
    (hFiles :
      db.filesOf row.tableUuid =
        fileRowsOf ext row.tableUuid h) :
    (sqlStore.apply db
        (commitStatements ext row properties head
          e)).filesOf row.tableUuid =
      fileRowsOf ext row.tableUuid (h ++ [e]) := by
  simp only [commitStatements, Store.apply_cons,
    Store.apply_append, Store.apply_nil, sqlStore_effect]
  rw [fileRowsOf_concat]
  exact filesOf_changes e.changes hFiles

theorem filesOf_commitStatements_other
    {t : Uuid}
    (hOther : t ≠ row.tableUuid) :
    (sqlStore.apply db
        (commitStatements ext row properties head
          e)).filesOf t = db.filesOf t := by
  simp only [commitStatements, Store.apply_cons,
    Store.apply_append, Store.apply_nil, sqlStore_effect]
  exact filesOf_changes_other e.changes hOther

/- The keys of the new schemas are among those staged. -/
theorem schema_key_commitStatements
    {s : SchemaContents}
    (hSchema : s ∈ e.schemas) :
    Key.schema s.schemaUuid ∈
      (commitStatements ext row properties head e).flatMap
        Statement.keys := by
  rcases List.mem_filterMap.mp hSchema with
    ⟨change, hChange, hSome⟩
  apply List.mem_flatMap.mpr
  refine ⟨.insertSchema (s.row row.tableUuid
    e.transactionId (asI32 (head.schemaVersion + 1))),
    ?_, ?_⟩
  · unfold commitStatements
    apply List.mem_cons_of_mem
    apply List.mem_append_left
    apply List.mem_flatMap.mpr
    refine ⟨change, hChange, ?_⟩
    cases change with
    | updateSchema s' =>
        rcases Option.some.inj hSome with rfl
        exact List.mem_cons_self
    | _ => cases hSome
  · simp [Statement.keys, SchemaRow.keys,
      SchemaContents.row]

end Planar

------------------------------------------------------------
-- The Current Schema
------------------------------------------------------------

namespace Planar

variable
  {ext : External}
  {db : Database}
  {row : TableRow}
  {h : History}

theorem Lawful.nonempty
    (hLawful : Lawful ext h) :
    h ≠ [] := by
  rcases hLawful.created with ⟨first, hFirst, _⟩
  exact List.ne_nil_of_mem (List.mem_of_mem_head? hFirst)

/- A history that begins with a schema has a last one. -/
theorem History.lastPoint
    (hCreated : ∃ first ∈ h.head?, first.schemas ≠ []) :
    ∃ last, h.schemaPoints.getLast? = some last := by
  rcases hCreated with ⟨first, hFirst, hSchemas⟩
  rcases List.exists_mem_of_ne_nil _ hSchemas with
    ⟨s, hSchema⟩
  have hPoint :
      (first.transactionId, s) ∈ h.schemaPoints := by
    apply List.mem_flatMap.mpr
    exact ⟨first, List.mem_of_mem_head? hFirst,
      List.mem_map_of_mem hSchema⟩
  cases hLast : h.schemaPoints.getLast? with
  | some last => exact ⟨last, rfl⟩
  | none =>
      rw [List.getLast?_eq_none_iff.mp hLast] at hPoint
      cases hPoint

theorem Lawful.lastSchema
    (hLawful : Lawful ext h) :
    ∃ last, h.schemaPoints.getLast? = some last :=
  History.lastPoint hLawful.created

/- The row of the last schema is stored. -/
theorem Tracked.lastSchemaRow
    {last : TxnId × SchemaContents}
    (hTracked : Tracked ext db row h)
    (hLast : h.schemaPoints.getLast? = some last) :
    versionRow row.tableUuid (h.schemaPoints.length - 1)
        ⟨last.2, last.1, none⟩ ∈ db.schemas := by
  have hPosition :
      h.schemaPoints[h.schemaPoints.length - 1]? =
        some last := by
    rw [← List.getLast?_eq_getElem?]
    exact hLast
  have hLength : 0 < h.schemaPoints.length :=
    List.length_pos_iff.mpr
      (List.ne_nil_of_mem (List.mem_of_getLast? hLast))
  have hNext :
      h.schemaPoints.length - 1 + 1 =
        h.schemaPoints.length := by
    omega
  have hRow :
      versionRow row.tableUuid (h.schemaPoints.length - 1)
          ⟨last.2, last.1, none⟩ ∈
        schemaRows row.tableUuid h.schemaPoints := by
    apply List.mem_of_getElem?
    rw [getElem?_schemaRows, hPosition, hNext]
    simp
  rw [← hTracked.schemas] at hRow
  exact (List.mem_filter.mp hRow).1

theorem Tracked.fetchSchemaVersion
    {last : TxnId × SchemaContents}
    (hTracked : Tracked ext db row h)
    (hSound : db.Sound)
    (hLast : h.schemaPoints.getLast? = some last) :
    fetchSchemaVersion last.2.schemaUuid db =
      .ok (asI32 ((h.schemaPoints.length : Nat) : Int)) := by
  have hRow := hTracked.lastSchemaRow hLast
  have hLength : 0 < h.schemaPoints.length :=
    List.length_pos_iff.mpr
      (List.ne_nil_of_mem (List.mem_of_getLast? hLast))
  have hNext :
      h.schemaPoints.length - 1 + 1 =
        h.schemaPoints.length := by omega
  have hFind :
      (db.schemas.find? fun other =>
        other.schemaUuid = last.2.schemaUuid) = some _ :=
    hSound.find?_schema hRow
  unfold Planar.fetchSchemaVersion
  rw [hFind]
  simp [versionRow, hNext]

/- The schema head of a tracked table. -/
theorem Tracked.schemaHead_eq
    {last : TxnId × SchemaContents}
    (hTracked : Tracked ext db row h)
    (hSound : db.Sound)
    (hLast : h.schemaPoints.getLast? = some last) :
    row.currentSchemaUuid = some last.2.schemaUuid ∧
    Planar.schemaHead row.currentSchemaUuid db =
      ⟨last.2.schemaUuid,
        asI32 ((h.schemaPoints.length : Nat) : Int)⟩ := by
  have hCurrent :
      row.currentSchemaUuid =
        some last.2.schemaUuid := by
    rw [hTracked.schemaHead, History.schema, hLast]
    rfl
  refine ⟨hCurrent, ?_⟩
  rw [hCurrent]
  exact schemaHead_of_ok
    (hTracked.fetchSchemaVersion hSound hLast)

/- The schemas of a tracked table have distinct UUIDs. -/
theorem Tracked.schemaUuids_nodup
    (hTracked : Tracked ext db row h)
    (hSound : db.Sound) :
    (h.schemaPoints.map fun p =>
      p.2.schemaUuid).Nodup := by
  rw [← map_schemaUuid_schemaRows row.tableUuid,
    ← hTracked.schemas]
  have hSublist :
      ((db.schemasOf row.tableUuid).map
          SchemaRow.schemaUuid).Sublist
        (db.schemas.map SchemaRow.schemaUuid) :=
    List.filter_sublist.map SchemaRow.schemaUuid
  exact hSublist.nodup hSound.schemaUuids

/- Schemas of a history are stored under their UUIDs. -/
theorem Tracked.schemaKey
    {p : TxnId × SchemaContents}
    (hTracked : Tracked ext db row h)
    (hPoint : p ∈ h.schemaPoints) :
    Key.schema p.2.schemaUuid ∈ db.keyList := by
  have hUuid :
      p.2.schemaUuid ∈
        (db.schemasOf row.tableUuid).map
          SchemaRow.schemaUuid := by
    rw [hTracked.schemas, map_schemaUuid_schemaRows]
    exact List.mem_map_of_mem hPoint
  rcases List.mem_map.mp hUuid with ⟨r, hr, hEq⟩
  exact Database.mem_keyList_schema.mpr
    ⟨r, (List.mem_filter.mp hr).1, hEq⟩

end Planar

------------------------------------------------------------
-- The Table of the Commit
------------------------------------------------------------

namespace Planar

variable
  {ext : External}
  {db : Database}
  {row : TableRow}
  {h : History}
  {e : Entry}

theorem storedProperties_concat
    (ext : External)
    (h : History)
    (e : Entry) :
    storedProperties ext (h ++ [e]) =
      e.changes.foldl Change.onProperties
        (reread ext (storedProperties ext h)) := by
  simp [storedProperties]

theorem schema_concat
    (h : History)
    (e : Entry) :
    History.schema (h ++ [e]) =
      e.schemas.getLast?.or h.schema := by
  rw [History.schema, History.schemaPoints_append,
    History.schemaPoints_singleton,
    List.getLast?_append, List.getLast?_map,
    History.schema]
  cases e.schemas.getLast? <;> rfl

/- Rows of a new schema do not belong to an old one. -/
theorem columnRows_filter_other
    {s : SchemaContents}
    {schemaUuid : Uuid}
    (hOther : s.schemaUuid ≠ schemaUuid) :
    (s.columnRows ext).filter
        (fun row => row.schemaUuid = schemaUuid) = [] := by
  apply List.filter_eq_nil_iff.mpr
  intro r hr
  rcases List.mem_mapIdx.mp hr with ⟨i, _, rfl⟩
  simpa using hOther

theorem columnRows_filter_self
    (s : SchemaContents) :
    (s.columnRows ext).filter
        (fun row => row.schemaUuid = s.schemaUuid) =
      s.columnRows ext := by
  apply List.filter_eq_self.mpr
  intro r hr
  rcases List.mem_mapIdx.mp hr with ⟨i, _, rfl⟩
  simp

/- A schema without a row has no columns. -/
theorem Database.Sound.columnsOf_fresh
    (hSound : db.Sound)
    {schemaUuid : Uuid}
    (hFresh : Key.schema schemaUuid ∉ db.keyList) :
    db.columnsOf schemaUuid = [] := by
  apply List.filter_eq_nil_iff.mpr
  intro r hr hEq
  apply hFresh
  apply hSound.references
  have hReference : Key.schema schemaUuid ∈ r.references := by
    simp [ColumnRow.references, of_decide_eq_true hEq]
  have hColumns :
      Key.schema schemaUuid ∈
        db.columns.flatMap ColumnRow.references :=
    List.mem_flatMap.mpr ⟨r, hr, hReference⟩
  simp only [Database.referenceList, List.mem_append]
  exact .inr (.inr (.inl hColumns))

/- What the database has of a table after its commit. -/
theorem Tracked.commit
    {properties : TableProperties}
    (hTracked : Tracked ext db row h)
    (hLawful : Lawful ext h)
    (hSound : db.Sound)
    (hSound' :
      (sqlStore.apply db
        (commitStatements ext row properties
          (Planar.schemaHead row.currentSchemaUuid db) e)).Sound)
    (hProperties :
      properties = reread ext (storedProperties ext h))
    (hOne : e.schemas.length ≤ 1) :
    Tracked ext
      (sqlStore.apply db
        (commitStatements ext row properties
          (Planar.schemaHead row.currentSchemaUuid db) e))
      (advanceTo ext row properties e row)
      (h ++ [e]) := by
  rcases hLawful.lastSchema with ⟨last, hLast⟩
  rcases hTracked.schemaHead_eq hSound hLast with
    ⟨hCurrent, hHead⟩
  have hFresh : ∀ s ∈ e.schemas,
      Key.schema s.schemaUuid ∉ db.keyList :=
    fun s hs => hSound'.fresh _
      (schema_key_commitStatements hs)
  have hRow :
      advanceTo ext row properties e row =
        { row with
          currentTransactionId := some e.transactionId
          currentSchemaUuid :=
            ((stagedBy row properties
              e.changes).newSchemaUuid).or
                row.currentSchemaUuid
          properties := some (ext.jsonToString
            (stagedBy row properties
              e.changes).properties.toJson) } := by
    simp [advanceTo, TableRow.advanceHead]
  rw [hRow]
  refine ⟨⟨?transactions, ?schemas, ?columns, ?files⟩,
    ?head, ?schemaHead, ?properties⟩
  case head => simp
  case schemaHead =>
    rw [stagedBy, foldl_stage_newSchemaUuid, schema_concat]
    rw [Option.map_or, ← hTracked.schemaHead]
    change
      ((e.schemas.getLast?.map _).or _).or _ = _
    cases e.schemas.getLast? with
    | none => cases row.currentSchemaUuid <;> rfl
    | some s => rfl
  case properties =>
    rw [stagedBy, foldl_stage_properties,
      storedProperties_concat, hProperties]
  case transactions =>
    rw [Database.transactionsOf,
      transactions_commitStatements, List.filter_append,
      List.map_append]
    congr 1
    · exact hTracked.transactions
    · simp [Entry.transactionRow]
  case files =>
    exact filesOf_commitStatements hTracked.files
  case schemas =>
    rw [Database.schemasOf, schemas_commitStatements,
      History.schemaPoints_append,
      History.schemaPoints_singleton]
    have hOld :
        db.schemas.filter
            (fun r => r.tableUuid = row.tableUuid) =
          schemaRows row.tableUuid h.schemaPoints :=
      hTracked.schemas
    rcases nil_or_singleton hOne with
      hSchemas | ⟨s, hSchemas⟩
    · rw [hSchemas]
      simpa [hSchemas] using hOld
    · rw [hSchemas]
      have hNew : s.schemaUuid ≠ last.2.schemaUuid := by
        intro hEq
        apply hFresh s (by simp [hSchemas])
        rw [hEq]
        exact hTracked.schemaKey
          (List.mem_of_getLast? hLast)
      have hTable :
          (fun r : SchemaRow =>
              decide (r.tableUuid = row.tableUuid)) ∘
              SchemaRow.close e.transactionId
                last.2.schemaUuid =
            fun r =>
              decide (r.tableUuid = row.tableUuid) := by
        funext r
        unfold Function.comp SchemaRow.close
        split <;> rfl
      rw [List.map_singleton,
        schemaRows_concat
          (hTracked.schemaUuids_nodup hSound) hLast]
      simp only [List.foldl_cons, List.foldl_nil,
        pushSchema, hHead, List.filter_map, hTable,
        List.filter_append, hOld, List.map_append]
      congr 1
      simp [SchemaContents.row, SchemaRow.close, hNew]
  case columns =>
    intro p hp
    rw [Database.columnsOf, columns_commitStatements,
      List.filter_append]
    rw [History.schemaPoints_append,
      History.schemaPoints_singleton,
      List.mem_append] at hp
    rcases nil_or_singleton hOne with
      hSchemas | ⟨s, hSchemas⟩
    · rw [hSchemas]
      rw [hSchemas] at hp
      have hOld := hTracked.columns p (by simpa using hp)
      unfold Database.columnsOf at hOld
      simpa using hOld
    · rw [hSchemas]
      have hNew := hFresh s (by simp [hSchemas])
      simp only [List.flatMap_singleton]
      rcases hp with hp | hp
      · have hNe : s.schemaUuid ≠ p.2.schemaUuid := by
          intro hEq
          apply hNew
          rw [hEq]
          exact hTracked.schemaKey hp
        rw [columnRows_filter_other hNe, List.append_nil]
        exact hTracked.columns p hp
      · rw [hSchemas, List.map_singleton,
          List.mem_singleton] at hp
        subst hp
        rw [columnRows_filter_self]
        have hNone := hSound.columnsOf_fresh hNew
        unfold Database.columnsOf at hNone
        rw [hNone, List.nil_append]

/- What the database has of another table. -/
theorem Tracked.commit_other
    {properties : TableProperties}
    {other : TableRow}
    {k : History}
    (hTracked : Tracked ext db row h)
    (hLawful : Lawful ext h)
    (hOther : Tracked ext db other k)
    (hTable : other.tableUuid ≠ row.tableUuid)
    (hSound : db.Sound)
    (hSound' :
      (sqlStore.apply db
        (commitStatements ext row properties
          (Planar.schemaHead row.currentSchemaUuid db)
          e)).Sound)
    (hOne : e.schemas.length ≤ 1) :
    Tracked ext
      (sqlStore.apply db
        (commitStatements ext row properties
          (Planar.schemaHead row.currentSchemaUuid db) e))
      other k := by
  rcases hLawful.lastSchema with ⟨last, hLast⟩
  rcases hTracked.schemaHead_eq hSound hLast with
    ⟨hCurrent, hHead⟩
  refine ⟨⟨?_, ?_, ?_, ?_⟩, hOther.head,
    hOther.schemaHead, hOther.properties⟩
  · rw [← hOther.transactions, Database.transactionsOf,
      transactions_commitStatements, List.filter_append]
    have hNone :
        [e.transactionRow row.tableUuid].filter
            (fun r => r.tableUuid = other.tableUuid) =
          [] := by
      simpa [Entry.transactionRow] using hTable.symm
    rw [hNone, List.append_nil]
    rfl
  · rw [← hOther.schemas, Database.schemasOf,
      schemas_commitStatements]
    rcases nil_or_singleton hOne with
      hSchemas | ⟨s, hSchemas⟩
    · rw [hSchemas]
      rfl
    · rw [hSchemas]
      have hKeep :
          (fun r : SchemaRow =>
              decide (r.tableUuid = other.tableUuid)) ∘
              SchemaRow.close e.transactionId
                last.2.schemaUuid =
            fun r =>
              decide (r.tableUuid =
                other.tableUuid) := by
        funext r
        unfold Function.comp SchemaRow.close
        split <;> rfl
      have hNone :
          [s.row row.tableUuid e.transactionId
              (asI32 (asI32
                ((h.schemaPoints.length : Nat) : Int) +
                  1))].filter
            (fun r => r.tableUuid = other.tableUuid) =
          [] := by
        simpa [SchemaContents.row] using hTable.symm
      simp only [List.foldl_cons, List.foldl_nil,
        pushSchema, hHead, List.filter_map, hKeep,
        List.filter_append, hNone, List.append_nil]
      apply (List.map_congr_left _).trans (List.map_id _)
      intro r hr
      rcases List.mem_filter.mp hr with ⟨hMem, hEq⟩
      have hNe : r.schemaUuid ≠ last.2.schemaUuid := by
        intro hUuid
        have hSame := hSound.schema_unique hMem
          (hTracked.lastSchemaRow hLast) hUuid
        rw [hSame] at hEq
        exact hTable (of_decide_eq_true hEq).symm
      simp [SchemaRow.close, hNe]
  · intro p hp
    rw [Database.columnsOf, columns_commitStatements,
      List.filter_append]
    have hNone :
        (e.schemas.flatMap
            (SchemaContents.columnRows ext)).filter
          (fun r => r.schemaUuid = p.2.schemaUuid) =
        [] := by
      apply List.filter_eq_nil_iff.mpr
      intro r hr
      rcases List.mem_flatMap.mp hr with ⟨s, hs, hrs⟩
      have hNe : s.schemaUuid ≠ p.2.schemaUuid := by
        intro hEq
        apply hSound'.fresh _
          (schema_key_commitStatements hs)
        rw [hEq]
        exact hOther.schemaKey hp
      exact List.filter_eq_nil_iff.mp
        (columnRows_filter_other hNe) r hrs
    rw [hNone, List.append_nil]
    exact hOther.columns p hp
  · rw [filesOf_commitStatements_other hTable]
    exact hOther.files

------------------------------------------------------------
-- The Laws of the History
------------------------------------------------------------

theorem linked_concat
    {base : TxnId}
    (hLinked : h.Linked)
    (hBase : h.ids.getLast? = some base)
    (hParent : e.parentTransactionId = some base) :
    History.Linked (h ++ [e]) := by
  unfold History.Linked at hLinked ⊢
  rw [List.map_append, hLinked, History.ids_append,
    History.ids_singleton, linkedKeys_concat, hBase,
    List.map_singleton, hParent]

/- The laws of a history after a commit. -/
theorem Lawful.commit
    {base : TxnId}
    {mutation : Mutation}
    {draws : Draws}
    (hLawful : Lawful ext h)
    (hTracked : Tracked ext db row h)
    (hSound : db.Sound)
    (hBase : row.currentTransactionId = some base)
    (hChecked : precheck mutation = .ok ())
    (hAccepts : ∀ operation ∈ mutation.operations,
      Accepts ext row.currentSchemaUuid db operation) :
    Lawful ext (h ++ [commitEntry base mutation draws]) := by
  have hOne :
      (commitEntry base mutation draws).schemas.length ≤
        1 :=
    precheck_oneSchema hChecked
  rcases hLawful.lastSchema with ⟨last, hLast⟩
  rcases hTracked.schemaHead_eq hSound hLast with
    ⟨hCurrent, _⟩
  have hNew :
      ∀ s ∈ (commitEntry base mutation draws).schemas,
        (SchemaSpec.mk s.specs).validate = .ok () ∧
          Succeeds ext last.2 s := by
    intro s hs
    rcases mem_schemas_changesFrom hs with
      ⟨spec, hSpec, hSpecs, _⟩
    rcases hAccepts _ hSpec with
      ⟨hValid, current, version, hEq, _, hCheck⟩
    rw [hCurrent, Option.some.injEq] at hEq
    subst hEq
    rw [hSpecs]
    refine ⟨hValid, ?_⟩
    intro r hr
    rw [hSpecs]
    apply checkAgainstCurrent_ok hCheck
      (hSound.columnNames _)
    rw [hTracked.columns last (List.mem_of_getLast? hLast)]
    exact hr
  constructor
  case linked =>
    exact linked_concat hLawful.linked
      (hTracked.head.symm.trans hBase) rfl
  case created =>
    rw [List.head?_append_of_ne_nil _ hLawful.nonempty]
    exact hLawful.created
  case oneSchema =>
    intro e he
    rcases List.mem_append.mp he with hOld | hLastEntry
    · exact hLawful.oneSchema e hOld
    · rw [List.mem_singleton.mp hLastEntry]
      exact hOne
  case valid =>
    intro p hp
    rw [History.schemaPoints_append,
      History.schemaPoints_singleton,
      List.mem_append] at hp
    rcases hp with hp | hp
    · exact hLawful.valid p hp
    · rcases List.mem_map.mp hp with ⟨s, hs, rfl⟩
      exact (hNew s hs).1
  case evolves =>
    rw [History.schemaPoints_append,
      History.schemaPoints_singleton,
      List.isChain_append]
    refine ⟨hLawful.evolves, ?_, ?_⟩
    · rcases nil_or_singleton hOne with
        hSchemas | ⟨s, hSchemas⟩
      · simp [hSchemas]
      · simp [hSchemas]
    · intro p hp q hq
      rw [hLast, Option.mem_some_iff] at hp
      subst hp
      rcases List.mem_map.mp (List.mem_of_mem_head? hq)
        with ⟨s, hs, rfl⟩
      exact (hNew s hs).2

end Planar
