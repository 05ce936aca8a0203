import Planar.History.OwnCalls
import Planar.History.Versions
import Planar.Properties.FileRows
import Planar.Properties.TimeTravel

/-
  Columns that the current schema declares non-nullable,
  and the files that were added before them.

  Main declarations:
    * `NonNull`
    * `CommitCall.AddsSafely`, `World.SafeStep`
    * `History.NonNull.concat`
    * `World.nonNull_of_safe`
-/

------------------------------------------------------------
-- Columns Without Nulls
------------------------------------------------------------

namespace Planar

/- The stored columns of the current schema of a table. -/
def Database.columnsAtHead
    (db : Database)
    (row : TableRow) : List ColumnRow :=
  (row.currentSchemaUuid.map db.columnsOf).getD []

/-
  Every column that the current schema declares
  non-nullable was there, and declared so, in the schema of
  the transaction that added a live file.
-/
def NonNull (w : World) (row : TableRow) : Prop :=
  ∀ file ∈ w.database.filesOf row.tableUuid,
    file.removedInTransactionId = none →
    ∀ column ∈ w.database.columnsAtHead row,
      column.isNullable = false →
      ∃ past later schema,
        w.history row.ident = past ++ later ∧
          past.ids.getLast? =
            some file.addedInTransactionId ∧
          past.schema = some schema ∧
          ∃ old ∈ w.database.columnsOf schema.schemaUuid,
            old.columnName = column.columnName ∧
              old.isNullable = false

/- Some operation of the mutation deletes the file. -/
def Mutation.Deletes
    (mutation : Mutation)
    (fileUuid : Uuid) : Prop :=
  ∃ fileUuids,
    .deleteFiles fileUuids ∈ mutation.operations ∧
      fileUuid ∈ fileUuids

/-
  A column that the commit brings is nullable, or the
  current schema has one of its name, or the commit deletes
  all files that are live before it.
-/
def CommitCall.AddsSafely
    (call : CommitCall)
    (db : Database) : Prop :=
  ∀ row ∈ db.tables, row.ident = call.ident →
    ∀ spec,
      .updateSchema spec ∈ call.mutation.operations →
    ∀ c ∈ spec.columns, c.isNullable = false →
      (∃ column ∈ db.columnsAtHead row,
        column.columnName = c.name) ∨
      ∀ file ∈ db.filesOf row.tableUuid,
        file.removedInTransactionId = none →
          call.mutation.Deletes file.fileUuid

/- A step in which every successful commit adds safely. -/
def World.SafeStep
    (ext : External)
    (w w' : World) : Prop :=
  World.Step ext w w' ∧
    ∀ call, w'.calls = w.calls ++ [.commit call] →
      call.AddsSafely w.database

------------------------------------------------------------
-- Histories
------------------------------------------------------------

/- The same of a history. -/
def History.NonNull (h : History) : Prop :=
  ∀ s ∈ stampLog h.fileLog, s.isOpen = true →
    ∀ current, h.schema = some current →
    ∀ c ∈ current.specs, c.isNullable = false →
      ∃ past later schema,
        h = past ++ later ∧
          past.ids.getLast? = some s.opened ∧
          past.schema = some schema ∧
          ∃ old ∈ schema.specs,
            old.name = c.name ∧ old.isNullable = false

/- The same of an entry that is added to a history. -/
def Entry.AddsSafely (e : Entry) (h : History) : Prop :=
  ∀ new ∈ e.schemas,
    ∀ c ∈ new.specs, c.isNullable = false →
      (∃ current, h.schema = some current ∧
        ∃ old ∈ current.specs, old.name = c.name) ∨
      ∀ s ∈ stampLog h.fileLog, s.isOpen = true →
        ∃ selected, Edit.retire selected ∈ e.edits ∧
          selected s.item = true

variable
  {ext : External}
  {h : History}
  {e : Entry}

/- Names are distinct, so a name tells a column. -/
theorem SchemaContents.eq_of_name
    {s : SchemaContents}
    {c d : ColumnSpec}
    (hValid : (SchemaSpec.mk s.specs).validate = .ok ())
    (hColumn : c ∈ s.specs)
    (hOther : d ∈ s.specs)
    (hName : d.name = c.name) :
    d = c :=
  List.inj_on_of_nodup_map
    (SchemaSpec.validate_ok hValid).2.2 hOther hColumn hName

theorem History.schema_concat_of_nil
    (hNone : e.schemas = []) :
    History.schema (h ++ [e]) = h.schema := by
  rw [Planar.schema_concat, hNone]
  rfl

theorem History.schema_concat_of_singleton
    {new : SchemaContents}
    (hNew : e.schemas = [new]) :
    History.schema (h ++ [e]) = some new := by
  rw [Planar.schema_concat, hNew]
  rfl

/- A new file is added under the schema it is added with. -/
theorem History.nonNull_inserted
    {current : SchemaContents}
    {c : ColumnSpec}
    (hCurrent : History.schema (h ++ [e]) = some current)
    (hColumn : c ∈ current.specs)
    (hNull : c.isNullable = false) :
    ∃ past later schema,
      h ++ [e] = past ++ later ∧
        past.ids.getLast? = some e.transactionId ∧
        past.schema = some schema ∧
        ∃ old ∈ schema.specs,
          old.name = c.name ∧ old.isNullable = false :=
  ⟨h ++ [e], [], current, by simp, by simp, hCurrent, c,
    hColumn, rfl, hNull⟩

/-
  A safe entry keeps the property: a column of an older
  file's schema is checked against the new schema, and a new
  column meets no older file.
-/
theorem History.NonNull.concat
    (hNonNull : h.NonNull)
    (hLawful : Lawful ext (h ++ [e]))
    (hSafe : e.AddsSafely h) :
    History.NonNull (h ++ [e]) := by
  intro s hRow hOpen current hCurrent c hColumn hNull
  rw [History.fileLog_append, History.fileLog_singleton,
    stampLog_concat] at hRow
  rcases spared_of_isOpen hRow hOpen with
    ⟨v, _, rfl⟩ | ⟨hOld, hSpared⟩
  · exact History.nonNull_inserted hCurrent hColumn hNull
  suffices hBefore : ∃ before, h.schema = some before ∧
      ∃ d ∈ before.specs,
        d.name = c.name ∧ d.isNullable = false by
    rcases hBefore with ⟨before, hBefore, d, hd, hName, hd'⟩
    rcases hNonNull s hOld hOpen before hBefore d hd hd'
      with ⟨past, later, schema, rfl, hLast, hPast, old,
        hOldColumn, hOldName, hOldNull⟩
    exact ⟨past, later ++ [e], schema, by simp, hLast,
      hPast, old, hOldColumn, hOldName.trans hName,
      hOldNull⟩
  have hOne := hLawful.oneSchema e (by simp)
  rcases nil_or_singleton hOne with hNone | ⟨new, hNew⟩
  · rw [History.schema_concat_of_nil hNone] at hCurrent
    exact ⟨current, hCurrent, c, hColumn, rfl, hNull⟩
  · rw [History.schema_concat_of_singleton hNew,
      Option.some.injEq] at hCurrent
    subst hCurrent
    rcases hSafe new (by simp [hNew]) c hColumn hNull with
      ⟨before, hBefore, d, hd, hName⟩ | hRetired
    · refine ⟨before, hBefore, d, hd, hName, ?_⟩
      have hPoint :
          (e.transactionId, new) ∈
            History.schemaPoints (h ++ [e]) := by
        simp [hNew]
      rcases History.keptIn_past hLawful.evolves hBefore
        (History.schema_concat_of_singleton hNew) d hd with
        ⟨c', hc', hName', hNullable⟩
      have hSame : c' = c :=
        SchemaContents.eq_of_name
          (hLawful.valid _ hPoint) hColumn hc'
          (hName'.trans hName)
      rw [hSame, hNull] at hNullable
      simpa using hNullable
    · rcases hRetired s hOld hOpen with
        ⟨selected, hEdit, hSelected⟩
      rw [hSpared selected hEdit] at hSelected
      cases hSelected

/-
  An entry that is not safe brings a column that no schema
  of an older file can have.
-/
theorem History.NonNull.addsSafely
    (hNonNull : History.NonNull (h ++ [e]))
    (hLawful : Lawful ext (h ++ [e]))
    (hNodup : (History.ids (h ++ [e])).Nodup) :
    e.AddsSafely h := by
  intro new hNew c hColumn hNull
  by_cases hAll : ∀ s ∈ stampLog h.fileLog,
      s.isOpen = true →
      ∃ selected, Edit.retire selected ∈ e.edits ∧
        selected s.item = true
  · exact .inr hAll
  left
  push Not at hAll
  rcases hAll with ⟨s, hOld, hOpen, hSpared⟩
  have hRow : s ∈ stampLog (History.fileLog (h ++ [e])) := by
    rw [History.fileLog_append, History.fileLog_singleton,
      stampLog_concat]
    exact mem_stampEdits_of_spared _ hOld
      fun selected hEdit => by
        simpa using hSpared selected hEdit
  have hSchemas : e.schemas = [new] := by
    have hOne := hLawful.oneSchema e (by simp)
    rcases nil_or_singleton hOne with hNone | ⟨only, hOnly⟩
    · rw [hNone] at hNew
      cases hNew
    · rw [hOnly, List.mem_singleton] at hNew
      rw [hOnly, hNew]
  rcases hNonNull s hRow hOpen new
    (History.schema_concat_of_singleton hSchemas) c hColumn
    hNull with
    ⟨past, later, schema, hSplit, hLast, hPast, old,
      hOldColumn, hName, _⟩
  have hOpened : s.opened ∈ h.ids :=
    (stampsIn_stampLog (P := (· ∈ h.ids)) h.fileLog
      (fun _ hEntry => History.mem_ids_of_mem_fileLog hEntry)
      s hOld).1
  rcases History.exists_split hOpened with
    ⟨past', later', rfl, hLast'⟩
  have hSame : past = past' := by
    rw [List.append_assoc] at hSplit hNodup
    exact History.split_unique (hSplit ▸ hNodup)
      hSplit.symm (hLast.trans hLast'.symm)
  subst hSame
  have hEvolves := hLawful.evolves
  rw [History.schemaPoints_append] at hEvolves
  have hBefore : ∃ current,
      History.schema (past ++ later') = some current := by
    rcases Option.map_eq_some_iff.mp hPast with ⟨p, hp, _⟩
    unfold History.schema
    rw [History.schemaPoints_append, List.getLast?_append,
      hp]
    cases (History.schemaPoints later').getLast? with
    | none => exact ⟨_, rfl⟩
    | some q => exact ⟨_, rfl⟩
  rcases hBefore with ⟨current, hCurrent⟩
  rcases History.keptIn_past hEvolves.left_of_append hPast
    hCurrent old hOldColumn with ⟨d, hd, hName', _⟩
  exact ⟨current, hCurrent, d, hd, hName'.trans hName⟩

end Planar

------------------------------------------------------------
-- Rows
------------------------------------------------------------

namespace Planar

variable
  {ext : External}
  {db : Database}
  {w : World}
  {row : TableRow}
  {h : History}

/- The schema of a past is one of the history's schemas. -/
theorem History.mem_schemas_of_past
    {past : History}
    {s : SchemaContents}
    (later : History)
    (hPast : past.schema = some s) :
    s ∈ (History.schemaPoints (past ++ later)).map
      Prod.snd := by
  rcases Option.map_eq_some_iff.mp hPast with ⟨p, hp, rfl⟩
  apply List.mem_map_of_mem
  rw [History.schemaPoints_append]
  exact List.mem_append_left _ (List.mem_of_getLast? hp)

theorem History.mem_schemas_of_schema
    {s : SchemaContents}
    (hSchema : h.schema = some s) :
    s ∈ h.schemaPoints.map Prod.snd := by
  rcases Option.map_eq_some_iff.mp hSchema with ⟨p, hp, rfl⟩
  exact List.mem_map_of_mem (List.mem_of_getLast? hp)

/- The stored columns of a schema are its columns. -/
theorem Stored.exists_column_iff
    {tableUuid : Uuid}
    {s : SchemaContents}
    {name : String}
    {isNullable : Bool}
    (hStored : Stored ext db tableUuid h)
    (hSchema : s ∈ h.schemaPoints.map Prod.snd) :
    (∃ column ∈ db.columnsOf s.schemaUuid,
        column.columnName = name ∧
          column.isNullable = isNullable) ↔
      ∃ c ∈ s.specs,
        c.name = name ∧ c.isNullable = isNullable := by
  rcases List.mem_map.mp hSchema with ⟨p, hPoint, rfl⟩
  rw [hStored.columns p hPoint]
  have hEncodes := encodes_columnRows ext p.2
  constructor
  · rintro ⟨column, hColumn, rfl, rfl⟩
    rcases mem_of_forall₂ hEncodes.flip hColumn with
      ⟨c, hc, hOne⟩
    exact ⟨c, hc, hOne.columnName.symm,
      hOne.isNullable.symm⟩
  · rintro ⟨c, hc, rfl, rfl⟩
    rcases mem_of_forall₂ hEncodes hc with
      ⟨column, hColumn, hOne⟩
    exact ⟨column, hColumn, hOne.columnName,
      hOne.isNullable⟩

theorem Tracked.columnsAtHead_eq
    {current : SchemaContents}
    (hTracked : Tracked ext db row h)
    (hCurrent : h.schema = some current) :
    db.columnsAtHead row =
      db.columnsOf current.schemaUuid := by
  unfold Database.columnsAtHead
  rw [hTracked.schemaHead, hCurrent]
  rfl

/- A stored column of the current schema is one of it. -/
theorem Tracked.schema_of_column
    {column : ColumnRow}
    (hTracked : Tracked ext db row h)
    (hColumn : column ∈ db.columnsAtHead row) :
    ∃ current, h.schema = some current := by
  cases hSchema : h.schema with
  | some current => exact ⟨current, rfl⟩
  | none =>
      unfold Database.columnsAtHead at hColumn
      rw [hTracked.schemaHead, hSchema] at hColumn
      cases hColumn

theorem Tracked.nonNull_iff
    (hTracked :
      Tracked ext w.database row (w.history row.ident)) :
    NonNull w row ↔ (w.history row.ident).NonNull := by
  constructor
  · intro hNonNull s hRow hOpen current hCurrent c hColumn
      hNull
    have hFile : stampedRow ext row.tableUuid s ∈
        w.database.filesOf row.tableUuid := by
      rw [hTracked.files]
      exact List.mem_map_of_mem hRow
    rcases (hTracked.exists_column_iff
      (History.mem_schemas_of_schema hCurrent)).mpr
        ⟨c, hColumn, rfl, hNull⟩ with
      ⟨column, hStored, hName, hNull'⟩
    rw [← hTracked.columnsAtHead_eq hCurrent] at hStored
    rcases hNonNull _ hFile
      (Option.isNone_iff_eq_none.mp hOpen) column hStored
      hNull' with
      ⟨past, later, schema, hSplit, hLast, hPast, hOld⟩
    rw [hName] at hOld
    have hSchema := History.mem_schemas_of_past later hPast
    rw [← hSplit] at hSchema
    exact ⟨past, later, schema, hSplit, hLast, hPast,
      (hTracked.exists_column_iff hSchema).mp hOld⟩
  · intro hNonNull file hFile hLive column hColumn hNull
    rcases hTracked.schema_of_column hColumn with
      ⟨current, hCurrent⟩
    rw [hTracked.columnsAtHead_eq hCurrent] at hColumn
    rcases (hTracked.exists_column_iff
      (History.mem_schemas_of_schema hCurrent)).mp
        ⟨column, hColumn, rfl, hNull⟩ with
      ⟨c, hc, hName, hNull'⟩
    rw [hTracked.files] at hFile
    rcases List.mem_map.mp hFile with ⟨s, hRow, rfl⟩
    rcases hNonNull s hRow
      (Option.isNone_iff_eq_none.mpr hLive) current hCurrent
      c hc hNull' with
      ⟨past, later, schema, hSplit, hLast, hPast, hOld⟩
    rw [hName] at hOld
    have hSchema := History.mem_schemas_of_past later hPast
    rw [← hSplit] at hSchema
    exact ⟨past, later, schema, hSplit, hLast, hPast,
      (hTracked.exists_column_iff hSchema).mpr hOld⟩

------------------------------------------------------------
-- Calls
------------------------------------------------------------

theorem CommitCall.deletes_iff
    {call : CommitCall}
    {fileUuid : Uuid} :
    call.mutation.Deletes fileUuid ↔
      (Call.commit call).entry.Deletes fileUuid := by
  constructor
  · rintro ⟨fileUuids, hOperation, hMember⟩
    rcases List.getElem?_of_mem hOperation with ⟨i, hAt⟩
    exact ⟨fileUuids, mem_changesFrom.mpr ⟨i, _, hAt, rfl⟩,
      hMember⟩
  · rintro ⟨fileUuids, hChange, hMember⟩
    rcases mem_changesFrom.mp hChange with
      ⟨i, operation, hAt, hEq⟩
    cases operation with
    | deleteFiles listed =>
        cases hEq
        exact ⟨fileUuids, List.mem_of_getElem? hAt, hMember⟩
    | _ => cases hEq

/- An update of the schema brings its columns. -/
theorem CommitCall.exists_schema
    {call : CommitCall}
    {spec : SchemaSpec}
    (hOperation :
      .updateSchema spec ∈ call.mutation.operations) :
    ∃ new ∈ (Call.commit call).entry.schemas,
      new.specs = spec.columns := by
  rcases List.getElem?_of_mem hOperation with ⟨i, hAt⟩
  exact ⟨spec.contents call.draws (0 + i),
    List.mem_filterMap.mpr ⟨_,
      mem_changesFrom.mpr ⟨i, _, hAt, rfl⟩, rfl⟩,
    spec.specs_contents _ _⟩

/- The condition on a commit is that on its entry. -/
theorem CommitCall.addsSafely_iff
    {call : CommitCall}
    (hSound : db.Sound)
    (hRow : row ∈ db.tables)
    (hIdent : row.ident = call.ident)
    (hTracked : Tracked ext db row h) :
    call.AddsSafely db ↔
      (Call.commit call).entry.AddsSafely h := by
  have hKnown (name : String) :
      (∃ column ∈ db.columnsAtHead row,
          column.columnName = name) ↔
        ∃ current, h.schema = some current ∧
          ∃ old ∈ current.specs, old.name = name := by
    constructor
    · rintro ⟨column, hColumn, rfl⟩
      rcases hTracked.schema_of_column hColumn with
        ⟨current, hCurrent⟩
      rw [hTracked.columnsAtHead_eq hCurrent] at hColumn
      rcases (hTracked.exists_column_iff
        (History.mem_schemas_of_schema hCurrent)).mp
          ⟨column, hColumn, rfl, rfl⟩ with
        ⟨old, hOld, hName, _⟩
      exact ⟨current, hCurrent, old, hOld, hName⟩
    · rintro ⟨current, hCurrent, old, hOld, rfl⟩
      rw [hTracked.columnsAtHead_eq hCurrent]
      rcases (hTracked.exists_column_iff
        (History.mem_schemas_of_schema hCurrent)).mpr
          ⟨old, hOld, rfl, rfl⟩ with
        ⟨column, hColumn, hName, _⟩
      exact ⟨column, hColumn, hName⟩
  have hDeleted :
      (∀ file ∈ db.filesOf row.tableUuid,
        file.removedInTransactionId = none →
          call.mutation.Deletes file.fileUuid) ↔
      ∀ s ∈ stampLog h.fileLog, s.isOpen = true →
        ∃ selected, Edit.retire selected ∈
            (Call.commit call).entry.edits ∧
          selected s.item = true := by
    rw [hTracked.files, fileRowsOf, List.forall_mem_map]
    constructor
    · intro hAll s hs hOpen
      exact Entry.deletes_iff.mp (CommitCall.deletes_iff.mp
        (hAll s hs (Option.isNone_iff_eq_none.mp hOpen)))
    · intro hAll s hs hLive
      exact CommitCall.deletes_iff.mpr
        (Entry.deletes_iff.mpr
          (hAll s hs (Option.isNone_iff_eq_none.mpr hLive)))
  constructor
  · intro hSafe new hNew c hColumn hNull
    rcases mem_schemas_changesFrom hNew with
      ⟨spec, hOperation, hSpecs, _⟩
    rw [hSpecs] at hColumn
    rw [← hKnown, ← hDeleted]
    exact hSafe row hRow hIdent spec hOperation c hColumn
      hNull
  · intro hSafe row' hRow' hIdent' spec hOperation c hColumn
      hNull
    have hSame : row' = row :=
      hSound.ident_unique hRow' hRow
        (hIdent'.trans hIdent.symm)
    rcases CommitCall.exists_schema hOperation with
      ⟨new, hNew, hSpecs⟩
    rw [hSame, hKnown, hDeleted]
    exact hSafe new hNew c (hSpecs ▸ hColumn) hNull

------------------------------------------------------------
-- Runs
------------------------------------------------------------

namespace World

theorem Inv.nonNull_iff
    (hInv : w.Inv ext) :
    (∀ row ∈ w.database.tables, NonNull w row) ↔
      ∀ ident, (w.history ident).NonNull := by
  constructor
  · intro hAll ident
    cases hFind : w.database.findTable ident with
    | none =>
        rw [hInv.history_of_absent hFind]
        intro s hRow
        cases hRow
    | some row =>
        rcases Database.findTable_some hFind with
          ⟨hRow, rfl⟩
        exact (hInv.tracked row hRow).nonNull_iff.mp
          (hAll row hRow)
  · intro hAll row hRow
    exact (hInv.tracked row hRow).nonNull_iff.mpr
      (hAll row.ident)

/-
  A step keeps the property if and only if its commit, when
  it is one that succeeds, adds safely.
-/
theorem Inv.nonNull_step
    {w' : World}
    (hInv : w.Inv ext)
    (hStep : Step ext w w')
    (hAll : ∀ ident, (w.history ident).NonNull) :
    (∀ ident, (w'.history ident).NonNull) ↔
      SafeStep ext w w' := by
  have hInv' := hInv.step hStep
  have hLawful : ∀ call ∈ w'.calls,
      Lawful ext (w'.history call.ident) ∧
        (w'.history call.ident).ids.Nodup := by
    intro call hCall
    rcases hInv'.known call hCall with ⟨row, hRow, hIdent⟩
    rw [← hIdent]
    exact ⟨hInv'.lawful row hRow,
      (hInv'.holds hRow).ids_nodup hInv'.sound⟩
  cases hInv.moves hStep with
  | stays =>
      refine ⟨fun _ => ⟨hStep, fun call hCalls => ?_⟩,
        fun _ => hAll⟩
      exact absurd hCalls (by simp)
  | @creates call db' hSound hCreates =>
      refine ⟨fun _ => ⟨hStep, fun other hCalls => ?_⟩,
        fun _ ident => ?_⟩
      · exact absurd hCalls (by simp)
      · rw [history_concat]
        split
        · rename_i hIdent
          have hLast := (hLawful (.create call) (by simp)).1
          rw [history_concat, if_pos rfl] at hLast
          subst hIdent
          apply History.NonNull.concat (hAll _) hLast
          have hEmpty :=
            hInv.history_of_absent hCreates.absent
          intro new _ c _ _
          refine .inr fun s hRow => ?_
          change s ∈ stampLog
            (w.history call.ident).fileLog at hRow
          rw [hEmpty] at hRow
          cases hRow
        · rw [List.append_nil]
          exact hAll ident
  | @commits call db' row properties hSound hCommits =>
      rcases Database.findTable_some hCommits.found with
        ⟨hRow, hIdent⟩
      have hTracked := hInv.tracked row hRow
      have hLast := hLawful (.commit call) (by simp)
      rw [history_concat, if_pos rfl] at hLast
      change Lawful ext (w.history call.ident ++ _) ∧ _
        at hLast
      rw [hIdent] at hTracked
      have hSafe := CommitCall.addsSafely_iff hInv.sound
        hRow hIdent hTracked
      constructor
      · intro hAll'
        refine ⟨hStep, fun other hCalls => ?_⟩
        have hSame : call = other := by
          simpa using hCalls
        subst hSame
        have hNonNull := hAll' (Call.commit call).ident
        rw [history_concat, if_pos rfl] at hNonNull
        exact hSafe.mpr
          (hNonNull.addsSafely hLast.1 hLast.2)
      · intro hSafeStep ident
        rw [history_concat]
        split
        · rename_i hSame
          subst hSame
          exact (hAll _).concat hLast.1
            (hSafe.mp (hSafeStep.2 call rfl))
        · rw [List.append_nil]
          exact hAll ident

/-
  In a run whose successful commits all add safely the
  property holds in every state, and in the next state if
  and only if the next step is of this kind.
-/
theorem nonNull_of_safe
    (hRun : Relation.ReflTransGen (SafeStep ext) {} w) :
    (∀ row ∈ w.database.tables, NonNull w row) ∧
      ∀ w', Step ext w w' →
        ((∀ row ∈ w'.database.tables, NonNull w' row) ↔
          SafeStep ext w w') := by
  have hAll : w.Inv ext ∧
      ∀ ident, (w.history ident).NonNull := by
    induction hRun with
    | refl =>
        refine ⟨inv_start, fun ident s hRow => ?_⟩
        cases hRow
    | tail _ hSafe ih =>
        exact ⟨ih.1.step hSafe.1,
          (ih.1.nonNull_step hSafe.1 ih.2).mpr hSafe⟩
  refine ⟨hAll.1.nonNull_iff.mpr hAll.2, ?_⟩
  intro w' hStep
  rw [(hAll.1.step hStep).nonNull_iff]
  exact hAll.1.nonNull_step hStep hAll.2

/- One more call that adds safely keeps a run safe. -/
theorem safeRun_concat
    {calls : List Call}
    {call : Call}
    (hRun :
      Relation.ReflTransGen (SafeStep ext) {}
        (run ext calls))
    (hSafe : ∀ commit, call = .commit commit →
      commit.AddsSafely (run ext calls).database) :
    Relation.ReflTransGen (SafeStep ext) {}
      (run ext (calls ++ [call])) := by
  refine hRun.tail
    ⟨.inl ⟨call, run_concat ..⟩, fun commit hCalls => ?_⟩
  apply hSafe
  rw [run_concat, perform] at hCalls
  cases hCall : call.perform ext (run ext calls).database with
  | mk result db' =>
      rw [hCall] at hCalls
      cases result with
      | error e => exact absurd hCalls (by simp)
      | ok u => simpa using hCalls

end World

/- A file is added, and then a new column. -/
def sampleColumnCalls (isNullable : Bool) : List Call :=
  [sampleCreate 1,
    sampleCommit 2 1 [.appendFiles [sampleFile]],
    sampleCommit 3 2
      [.updateSchema
        ⟨[⟨"a", .int32, false⟩,
          ⟨"b", .int32, isNullable⟩]⟩]]

def sampleColumnWorld (isNullable : Bool) : World :=
  World.run sampleExternal (sampleColumnCalls isNullable)

theorem nonNull_sample :
    (sampleColumnWorld true).database.tables ≠ [] ∧
      ∀ row ∈ (sampleColumnWorld true).database.tables,
        NonNull (sampleColumnWorld true) row := by
  have hFirst : Relation.ReflTransGen
      (World.SafeStep sampleExternal) {}
      (World.run sampleExternal ([] ++ [sampleCreate 1])) := by
    apply World.safeRun_concat .refl
    intro commit hCommit
    cases hCommit
  have hSecond : Relation.ReflTransGen
      (World.SafeStep sampleExternal) {}
      (World.run sampleExternal
        ([sampleCreate 1] ++
          [sampleCommit 2 1 [.appendFiles [sampleFile]]])) := by
    apply World.safeRun_concat hFirst
    rintro _ ⟨⟩ row _ _ spec hSpec
    simp at hSpec
  have hNames : ∀ row ∈ (World.run sampleExternal
      ((sampleColumnCalls true).take 2)).database.tables,
      ∀ c ∈ ([⟨"a", .int32, false⟩, ⟨"b", .int32, true⟩] :
        List ColumnSpec),
        c.isNullable = false →
        ∃ column ∈ (World.run sampleExternal
            ((sampleColumnCalls true).take
              2)).database.columnsAtHead row,
          column.columnName = c.name := by
    decide +kernel
  have hThird : Relation.ReflTransGen
      (World.SafeStep sampleExternal) {}
      (World.run sampleExternal
        ((sampleColumnCalls true).take 2 ++
          (sampleColumnCalls true).drop 2)) := by
    apply World.safeRun_concat hSecond
    rintro _ ⟨⟩ row hRow _ spec hSpec
    rw [List.mem_singleton,
      MutationOp.updateSchema.injEq] at hSpec
    subst hSpec
    intro c hColumn hNull
    exact .inl (hNames row hRow c hColumn hNull)
  exact ⟨by decide +kernel,
    (World.nonNull_of_safe hThird).1⟩

/- A file without the column is live under the schema. -/
theorem nonNull_required :
    ∃ w row, World.Reachable sampleExternal w ∧
      row ∈ w.database.tables ∧ ¬ NonNull w row := by
  have hRow : ∃ row ∈ (sampleColumnWorld false).database.tables,
      row.ident = sampleIdent ∧
      ∃ file ∈ (sampleColumnWorld false).database.filesOf
          row.tableUuid,
        file.removedInTransactionId = none ∧
        file.addedInTransactionId = 2 ∧
      ∃ column ∈
          (sampleColumnWorld false).database.columnsAtHead row,
        column.columnName = "b" ∧
          column.isNullable = false := by
    decide +kernel
  rcases hRow with ⟨row, hRow, hIdent, file, hFile, hLive,
    hAdded, column, hColumn, hName, hNull⟩
  refine ⟨sampleColumnWorld false, row,
    World.reachable_run _ _, hRow, ?_⟩
  intro hNonNull
  rcases hNonNull file hFile hLive column hColumn hNull with
    ⟨past, later, schema, hSplit, hLast, hPast, old, hOld,
      hOldName, _⟩
  rw [hIdent] at hSplit
  rw [hAdded] at hLast
  have hNodup : (History.ids ((sampleColumnWorld
      false).history sampleIdent)).Nodup := by
    decide +kernel
  have hFirst : past = ((sampleColumnWorld false).history
      sampleIdent).take 2 := by
    refine History.split_unique (hSplit ▸ hNodup)
      (hSplit.symm.trans (List.take_append_drop 2 _).symm) ?_
    rw [hLast]
    decide +kernel
  subst hFirst
  have hMissing : ∀ schema ∈ History.schema
      (((sampleColumnWorld false).history
        sampleIdent).take 2),
      ∀ old ∈ (sampleColumnWorld false).database.columnsOf
        schema.schemaUuid, old.columnName ≠ "b" := by
    decide +kernel
  exact hMissing schema hPast old hOld
    (hOldName.trans hName)

end Planar
