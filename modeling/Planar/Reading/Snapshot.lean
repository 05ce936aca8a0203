import Planar.Reading.Decoding
import Planar.Reading.Selections

/-
  What a successful read of a table has seen, and that it is
  the snapshot of its transaction.

  Main declarations:
    * `SchemaSeen`, `FilesSeen`, `TableSeen`
    * `runs_readTable`, `exec_readTable`
    * `TableView.Shows`, `TableSeen.shows`
-/

------------------------------------------------------------
-- What a Read Has Seen
------------------------------------------------------------

namespace Planar

/-
  A schema read at a transaction: its row in one database
  and its columns in another.
-/
structure SchemaSeen
    (ext : External)
    (kind : DbKind)
    (tableUuid : Uuid)
    (t : TxnId)
    (rowDb columnDb : Database)
    (schema : Schema) : Prop where
  seen : ∃ row columns,
    selectSchema ext tableUuid t rowDb = some row ∧
    (selectColumns row.schemaUuid columnDb).length ≤
        maxColumnsPerSchema ∧
    decodeColumns ext
        (selectColumns row.schemaUuid columnDb) =
      .ok columns ∧
    decodeSchema kind row columns = .ok schema

/- The files read at a transaction. -/
structure FilesSeen
    (ext : External)
    (tableUuid : Uuid)
    (t : TxnId)
    (db : Database)
    (files : List File) : Prop where
  limit :
    (db.visibleFiles tableUuid t).length ≤ maxFilesPerQuery
  decoded :
    FilesOf ext (db.visibleFiles tableUuid t) files

/-
  A successful read: the row of the table, the schema, its
  columns and the files were seen in databases of their own.
-/
structure TableSeen
    (ext : External)
    (catalog : SqlCatalog)
    (ident : TableIdent)
    (atTransactionId : Option TxnId)
    (w₀ w₁ w₂ w₃ : World)
    (row : TableRow)
    (view : TableView) : Prop where
  found : row ∈ w₀.database.tables
  rowIdent : row.ident = ident
  tableUuid : view.tableUuid = row.tableUuid
  properties :
    parseTableProperties ext row.properties =
      .ok view.properties
  requested :
    some view.transactionId =
      atTransactionId.or row.currentTransactionId
  member : view.transactionId ∈ (w₀.history ident).ids
  schema :
    SchemaSeen ext catalog.kind row.tableUuid
      view.transactionId w₁.database w₂.database view.schema
  files :
    FilesSeen ext row.tableUuid view.transactionId
      w₃.database view.files

section Parts

variable
  {ω : Type}
  {Step : ω → ω → Prop}
  {see : ω → Database}
  {w w' : ω}
  {ext : External}
  {kind : DbKind}
  {ident : TableIdent}
  {tableUuid : Uuid}
  {t : TxnId}

theorem runs_fetchColumns
    {what : String}
    {schemaUuid : Uuid}
    {columns : List Column}
    (hRuns :
      Query.Runs Step see w
        (fetchColumns ext what schemaUuid) w'
        (.ok columns)) :
    ∃ w₁, Relation.ReflTransGen Step w w₁ ∧
      Relation.ReflTransGen Step w₁ w' ∧
      (selectColumns schemaUuid (see w₁)).length ≤
        maxColumnsPerSchema ∧
      decodeColumns ext (selectColumns schemaUuid (see w₁)) =
        .ok columns := by
  rcases Query.runs_fetch_bind hRuns with
    ⟨w₁, hWait, hRest⟩
  split at hRest
  · cases Query.not_runs_fail_ok hRest
  rename_i hLimit
  rcases Query.runs_lift_ok hRest with ⟨hDecoded, hEnd⟩
  exact ⟨w₁, hWait, hEnd, by omega, hDecoded⟩

theorem runs_fetchSchema
    {schema : Schema}
    (hRuns :
      Query.Runs Step see w
        (fetchSchema ext kind ident tableUuid t) w'
        (.ok schema)) :
    ∃ w₁ w₂, Relation.ReflTransGen Step w w₁ ∧
      Relation.ReflTransGen Step w₁ w₂ ∧
      Relation.ReflTransGen Step w₂ w' ∧
      SchemaSeen ext kind tableUuid t (see w₁) (see w₂)
        schema := by
  rcases Query.runs_fetch_bind hRuns with
    ⟨w₁, hWait, hRest⟩
  split at hRest
  · cases Query.not_runs_fail_ok hRest
  rename_i row hRow
  rcases Query.runs_bind_ok hRest with
    ⟨w₂, columns, hColumns, hDecode⟩
  rcases runs_fetchColumns hColumns with
    ⟨w₃, hBefore, hAfter, hLimit, hDecoded⟩
  rcases Query.runs_lift_ok hDecode with ⟨hSchema, hEnd⟩
  exact ⟨w₁, w₃, hWait, hBefore, hAfter.trans hEnd,
    ⟨row, columns, hRow, hLimit, hDecoded, hSchema⟩⟩

theorem runs_fetchFiles
    {files : List File}
    (hRuns :
      Query.Runs Step see w
        (fetchFiles ext tableUuid t) w' (.ok files)) :
    ∃ w₁, Relation.ReflTransGen Step w w₁ ∧
      Relation.ReflTransGen Step w₁ w' ∧
      FilesSeen ext tableUuid t (see w₁) files := by
  rcases Query.runs_fetch_bind hRuns with
    ⟨w₁, hWait, hRest⟩
  split at hRest
  · cases Query.not_runs_fail_ok hRest
  rename_i hLimit
  rcases Query.runs_lift_ok hRest with ⟨hDecoded, hEnd⟩
  have hFew := not_lt.mp (mt length_selectVisible.mpr hLimit)
  rw [selectVisible_eq hFew] at hDecoded
  exact ⟨w₁, hWait, hEnd, hFew,
    filesOf_perm (RowOrder.perm ..) hDecoded⟩

end Parts

/-
  The specification of `readTable`: the world may move by
  any of its steps between the queries.
-/
theorem runs_readTable
    {Step : World → World → Prop}
    {ext : External}
    {catalog : SqlCatalog}
    {ident : TableIdent}
    {atTransactionId : Option TxnId}
    {w w' : World}
    {view : TableView}
    (hStep : ∀ a b, Step a b → World.Step ext a b)
    (hInv : w.Inv ext)
    (hRuns :
      Query.Runs Step World.database w
        (readTable ext catalog ident atTransactionId) w'
        (.ok view)) :
    ∃ w₀ w₁ w₂ w₃ row,
      Relation.ReflTransGen Step w w₀ ∧
      Relation.ReflTransGen Step w₀ w₁ ∧
      Relation.ReflTransGen Step w₁ w₂ ∧
      Relation.ReflTransGen Step w₂ w₃ ∧
      Relation.ReflTransGen Step w₃ w' ∧
      TableSeen ext catalog ident atTransactionId w₀ w₁ w₂
        w₃ row view := by
  have hSteps {a b : World}
      (hSome : Relation.ReflTransGen Step a b) :
      Relation.ReflTransGen (World.Step ext) a b :=
    Relation.ReflTransGen.mono hStep _ _ hSome
  rcases Query.runs_fetch_bind hRuns with
    ⟨w₀, hWait₀, hRest₀⟩
  split at hRest₀
  · cases Query.not_runs_fail_ok hRest₀
  rename_i row hFound
  have hRow : row ∈ w₀.database.tables :=
    List.mem_of_find?_eq_some hFound
  have hIdent : row.ident = ident := by
    simpa using List.find?_some hFound
  have hInv₀ := hInv.steps (hSteps hWait₀)
  rcases Query.runs_bind_ok hRest₀ with
    ⟨w₁, properties, hProperties, hRest₁⟩
  rcases Query.runs_lift_ok hProperties with
    ⟨hParsed, hWait₁⟩
  rcases Query.runs_bind_ok hRest₁ with
    ⟨w₂, u, hProtocol, hRest₂⟩
  rcases Query.runs_lift_ok hProtocol with ⟨_, hWait₂⟩
  rcases Query.runs_bind_ok hRest₂ with
    ⟨w₃, current, hCurrent, hRest₃⟩
  rcases Query.runs_lift_ok hCurrent with ⟨hHead, hWait₃⟩
  have hHead : row.currentTransactionId = some current := by
    cases hRowHead : row.currentTransactionId with
    | none => rw [hRowHead] at hHead; cases hHead
    | some id =>
        rw [hRowHead] at hHead
        rw [Except.ok.inj hHead]
  rcases Query.runs_bind_ok hRest₃ with
    ⟨w₄, u', hCheck, hRest₄⟩
  have hMember :
      atTransactionId.getD current ∈
        (w₀.history ident).ids := by
    have hLast := (hInv₀.tracked row hRow).head
    rw [hHead, hIdent] at hLast
    rcases List.getLast?_eq_some_iff.mp hLast.symm with
      ⟨before, hIds⟩
    have hGrows :=
      ((hInv₀.growsFrom hRow).of_steps hStep).after
        (hWait₁.trans (hWait₂.trans hWait₃))
    rw [hIdent, hIds] at hGrows
    have hResult := runs_checkInHistory hGrows hCheck
    rw [hIds]
    by_contra hMissing
    rw [if_neg hMissing] at hResult
    cases hResult
  rcases Query.runs_bind_ok hRest₄ with
    ⟨w₅, schema, hSchema, hRest₅⟩
  rcases runs_fetchSchema hSchema with
    ⟨w₆, w₇, hWait₆, hWait₇, hWait₅, hSchemaSeen⟩
  rcases Query.runs_bind_ok hRest₅ with
    ⟨w₈, files, hFiles, hRest₈⟩
  rcases runs_fetchFiles hFiles with
    ⟨w₉, hWait₉, hWait₈, hFilesSeen⟩
  rcases Query.runs_bind_ok hRest₈ with
    ⟨w₁₀, stats, hStats, hRest₁₀⟩
  rcases Query.runs_pure_ok hRest₁₀ with ⟨rfl, hEnd⟩
  have hBefore : Relation.ReflTransGen Step w₀ w₆ :=
    hWait₁.trans (hWait₂.trans
      (hWait₃.trans (hCheck.steps.trans hWait₆)))
  have hAfter : Relation.ReflTransGen Step w₉ w' :=
    hWait₈.trans (hStats.steps.trans hEnd)
  refine ⟨w₀, w₆, w₇, w₉, row, hWait₀, hBefore, hWait₇,
    hWait₅.trans hWait₉, hAfter, ?_⟩
  constructor
  case found => exact hRow
  case rowIdent => exact hIdent
  case tableUuid => rfl
  case properties => exact hParsed
  case requested =>
    rw [hHead]
    cases atTransactionId <;> rfl
  case member => exact hMember
  case schema => exact hSchemaSeen
  case files => exact hFilesSeen

/- With no steps at all the world stays as it is. -/
theorem eq_of_still
    {ω : Type}
    {a b : ω}
    (hSteps :
      Relation.ReflTransGen (fun _ _ => False) a b) :
    b = a := by
  cases hSteps with
  | refl => rfl
  | tail _ hStep => cases hStep

/- What the fetches in one database have seen. -/
theorem schemaSeen_of_exec
    {ext : External}
    {kind : DbKind}
    {ident : TableIdent}
    {tableUuid : Uuid}
    {t : TxnId}
    {db : Database}
    {schema : Schema}
    (hOk :
      (fetchSchema ext kind ident tableUuid t).exec db =
        .ok schema) :
    SchemaSeen ext kind tableUuid t db db schema := by
  have hRuns :
      Query.Runs (fun _ _ : Database => False) id db
        (fetchSchema ext kind ident tableUuid t) db
        (.ok schema) :=
    hOk ▸ Query.runs_exec db _
  rcases runs_fetchSchema hRuns with
    ⟨db₁, db₂, h₁, h₂, _, hSeen⟩
  rw [eq_of_still h₁] at h₂ hSeen
  rw [eq_of_still h₂] at hSeen
  exact hSeen

theorem filesSeen_of_exec
    {ext : External}
    {tableUuid : Uuid}
    {t : TxnId}
    {db : Database}
    {files : List File}
    (hOk :
      (fetchFiles ext tableUuid t).exec db = .ok files) :
    FilesSeen ext tableUuid t db files := by
  have hRuns :
      Query.Runs (fun _ _ : Database => False) id db
        (fetchFiles ext tableUuid t) db (.ok files) :=
    hOk ▸ Query.runs_exec db _
  rcases runs_fetchFiles hRuns with ⟨db', hSteps, _, hSeen⟩
  rw [eq_of_still hSteps] at hSeen
  exact hSeen

/- A read with nothing in between sees one world. -/
theorem exec_readTable
    {ext : External}
    {catalog : SqlCatalog}
    {ident : TableIdent}
    {atTransactionId : Option TxnId}
    {w : World}
    {view : TableView}
    (hInv : w.Inv ext)
    (hRead :
      (readTable ext catalog ident atTransactionId).exec
        w.database = .ok view) :
    ∃ row, TableSeen ext catalog ident atTransactionId
      w w w w row view := by
  have hRuns :
      Query.Runs (fun _ _ => False) World.database w
        (readTable ext catalog ident atTransactionId) w
        (.ok view) := by
    rw [← hRead]
    exact Query.runs_exec w _
  rcases runs_readTable (fun _ _ hNo => hNo.elim) hInv hRuns
    with ⟨w₀, w₁, w₂, w₃, row, h₀, h₁, h₂, h₃, _, hSeen⟩
  have hw₀ := eq_of_still h₀
  subst hw₀
  have hw₁ := eq_of_still h₁
  subst hw₁
  have hw₂ := eq_of_still h₂
  subst hw₂
  have hw₃ := eq_of_still h₃
  subst hw₃
  exact ⟨row, hSeen⟩

end Planar

------------------------------------------------------------
-- The Snapshot of a Transaction
------------------------------------------------------------

namespace Planar

/-
  The view shows the files and the columns that replaying a
  history leaves.
-/
structure TableView.Shows
    (view : TableView)
    (h : History) : Prop where
  files :
    (view.files.map File.listed).Perm
      (h.files.map FileContents.listed)
  columns :
    some (view.schema.columns.map Column.spec) =
      h.schema.map SchemaContents.specs

variable
  {ext : External}
  {kind : DbKind}
  {tableUuid : Uuid}
  {past later later₁ later₂ : History}
  {t : TxnId}

theorem FilesSeen.listed
    {db : Database}
    {files : List File}
    (hSeen : FilesSeen ext tableUuid t db files)
    (hStored : Stored ext db tableUuid (past ++ later))
    (hPast : ∀ i ∈ past.ids, i ≤ t)
    (hLater : ∀ i ∈ later.ids, t < i)
    (hReads : ReadsBack ext past) :
    (files.map File.listed).Perm
      (past.files.map FileContents.listed) := by
  have hItems := visible_fileLog hPast hLater
  rcases hSeen.decoded with ⟨decoded, hDecoded, hPerm⟩
  rw [hStored.visibleFiles_eq] at hDecoded
  have hFiles := decodeFiles_stampedRows ?_ hDecoded
  · rw [hFiles] at hPerm
    rw [← hItems, List.map_map]
    exact (hPerm.map File.listed).trans
      (.of_eq (List.map_map ..))
  · intro s hMember
    have hFile : s.item ∈ past.files := by
      rw [← hItems]
      exact List.mem_map_of_mem hMember
    rcases History.mem_files hFile with ⟨e, hEntry, hItem⟩
    exact hReads.files e hEntry s.item hItem

theorem decodeSchema_ok
    {row : SchemaRow}
    {columns : List Column}
    {schema : Schema}
    (hOk : decodeSchema kind row columns = .ok schema) :
    schema =
      { schemaUuid := row.schemaUuid
        tableUuid := row.tableUuid
        schemaVersion := row.schemaVersion
        validFromTransactionId :=
          row.validFromTransactionId
        validToTransactionId := row.validToTransactionId
        createdAt := row.createdAt
        columns := columns } := by
  rcases bind_ok.mp hOk with ⟨createdAt, hTime, hSchema⟩
  cases kind with
  | sqlite =>
      rw [← Except.ok.inj hSchema, ← Except.ok.inj hTime]
  | postgres => cases hTime

/- The schema seen is the last one of the past. -/
theorem SchemaSeen.specs
    {rowDb columnDb : Database}
    {schema : Schema}
    {last : TxnId × SchemaContents}
    (hSeen :
      SchemaSeen ext kind tableUuid t rowDb columnDb schema)
    (hRow : Stored ext rowDb tableUuid (past ++ later₁))
    (hColumns :
      Stored ext columnDb tableUuid (past ++ later₂))
    (hPast : ∀ i ∈ past.ids, i ≤ t)
    (hLater : ∀ i ∈ later₁.ids, t < i)
    (hLast : past.schemaPoints.getLast? = some last)
    (hReads : ReadsBack ext past) :
    schema.columns.map Column.spec = last.2.specs := by
  rcases hSeen.seen with
    ⟨row, columns, hFind, hLimit, hDecoded, hSchema⟩
  have hPoint : last ∈ past.schemaPoints :=
    List.mem_of_getLast? hLast
  rw [hRow.selectSchema_eq hPast hLater hLast] at hFind
  have hUuid : row.schemaUuid = last.2.schemaUuid := by
    rw [← Option.some.inj hFind]
    rfl
  have hStoredColumns :
      columnDb.columnsOf last.2.schemaUuid =
        last.2.columnRows ext := by
    apply hColumns.columns
    rw [History.schemaPoints_append]
    exact List.mem_append_left _ hPoint
  rw [hUuid] at hLimit hDecoded
  rw [selectColumns_eq hStoredColumns hLimit] at hDecoded
  rw [decodeSchema_ok hSchema]
  exact decodeColumns_encodes
    (encodes_columnRows ext last.2)
    (hReads.types last hPoint) hDecoded

------------------------------------------------------------
-- Properties
------------------------------------------------------------

theorem reread_of_readsJson
    {p : TableProperties}
    (hReads : ext.ReadsJson p.toJson) :
    reread ext p = p := by
  unfold reread
  cases hParse : parseTableProperties ext
      (some (ext.jsonToString p.toJson)) with
  | error e => rfl
  | ok q =>
      rcases bind_ok.mp hParse with ⟨v, hText, hObject⟩
      have hValue := parseJsonText_ok hText
      unfold External.ReadsJson at hReads
      rw [hReads] at hValue
      rw [← Except.ok.inj hValue,
        TableProperties.fromJson_toJson] at hObject
      exact (Except.ok.inj hObject).symm

theorem properties_concat
    (h : History)
    (e : Entry) :
    History.properties (h ++ [e]) =
      e.changes.foldl Change.onProperties h.properties := by
  simp [History.properties]

/- What is stored is what replaying leaves. -/
theorem ReadsBack.storedProperties_eq
    {h : History}
    (hReads : ReadsBack ext h) :
    storedProperties ext h = h.properties := by
  induction h using List.reverseRecOn with
  | nil => rfl
  | append_singleton h e ih =>
      have hBefore := ih hReads.past
      rw [storedProperties_concat, hBefore,
        properties_concat,
        reread_of_readsJson
          (hReads.properties h [e] rfl)]

/- The properties of a table are read back. -/
theorem Tracked.readProperties
    {db : Database}
    {row : TableRow}
    {h : History}
    {p : TableProperties}
    (hTracked : Tracked ext db row h)
    (hParse :
      parseTableProperties ext row.properties = .ok p)
    (hReads : ReadsBack ext h) :
    p = h.properties := by
  rw [hTracked.properties] at hParse
  rw [reread_of_ok hParse, hReads.storedProperties_eq,
    reread_of_readsJson
      (hReads.properties h [] (by simp))]

------------------------------------------------------------
-- A Read Is a Snapshot
------------------------------------------------------------

/-
  A later database holds the past of a table and more, with
  larger ids when the ids are ordered in the end.
-/
theorem World.Inv.holds_past
    {w w₁ w' : World}
    {row : TableRow}
    (hInv : w.Inv ext)
    (hRow : row ∈ w.database.tables)
    (hSplit : w.history row.ident = past ++ later)
    (hLast : past.ids.getLast? = some t)
    (hBefore :
      Relation.ReflTransGen (World.Step ext) w w₁)
    (hAfter :
      Relation.ReflTransGen (World.Step ext) w₁ w')
    (hOrdered : w'.Ordered) :
    ∃ later₁, Holds ext w₁.database row.tableUuid
        (past ++ later₁) ∧
      (∀ i ∈ past.ids, i ≤ t) ∧
      ∀ i ∈ later₁.ids, t < i := by
  rcases hInv.steps_history hBefore row.ident with
    ⟨more, hMore⟩
  rw [hSplit, List.append_assoc] at hMore
  have hHolds := hInv.holds_later hBefore hRow
  have hIncreasing :=
    (World.Ordered.before (hInv.steps hBefore) hAfter
      hOrdered).history hHolds.lawful.linked
  rw [hMore] at hHolds hIncreasing
  exact ⟨_, hHolds,
    History.ids_le_of_past hIncreasing hLast,
    History.lt_of_later hIncreasing hLast⟩

/-
  A read is the snapshot of its transaction, whatever runs
  between its queries.
-/
theorem TableSeen.shows
    {catalog : SqlCatalog}
    {ident : TableIdent}
    {atTransactionId : Option TxnId}
    {w₀ w₁ w₂ w₃ w' : World}
    {row : TableRow}
    {view : TableView}
    (hSeen :
      TableSeen ext catalog ident atTransactionId w₀ w₁ w₂
        w₃ row view)
    (hInv : w₀.Inv ext)
    (hSteps₁ :
      Relation.ReflTransGen (World.Step ext) w₀ w₁)
    (hSteps₂ :
      Relation.ReflTransGen (World.Step ext) w₁ w₂)
    (hSteps₃ :
      Relation.ReflTransGen (World.Step ext) w₂ w₃)
    (hSteps' :
      Relation.ReflTransGen (World.Step ext) w₃ w')
    (hOrdered : w'.Ordered)
    (hReads : ReadsBack ext (w₀.history ident))
    (hSplit : w₀.history ident = past ++ later)
    (hLast : past.ids.getLast? = some view.transactionId) :
    view.Shows past := by
  have hRow := hSeen.found
  have hIdent := hSeen.rowIdent
  rw [hSplit] at hReads
  rw [← hIdent] at hSplit
  have hAfter₂ := hSteps₃.trans hSteps'
  rcases hInv.holds_past hRow hSplit hLast hSteps₁
    (hSteps₂.trans hAfter₂) hOrdered with
    ⟨later₁, hHolds₁, hPast, hLater₁⟩
  rcases hInv.holds_past hRow hSplit hLast
    (hSteps₁.trans hSteps₂) hAfter₂ hOrdered with
    ⟨later₂, hHolds₂, _, _⟩
  rcases hInv.holds_past hRow hSplit hLast
    (hSteps₁.trans (hSteps₂.trans hSteps₃)) hSteps'
    hOrdered with
    ⟨later₃, hHolds₃, _, hLater₃⟩
  have hPoint : ∃ last,
      past.schemaPoints.getLast? = some last := by
    apply History.lastPoint
    exact History.created_past hHolds₁.lawful.created
      (History.ne_nil_of_last hLast)
  rcases hPoint with ⟨last, hPoint⟩
  constructor
  case files =>
    exact hSeen.files.listed hHolds₃.toStored hPast hLater₃
      hReads.past
  case columns =>
    rw [hSeen.schema.specs hHolds₁.toStored
      hHolds₂.toStored hPast hLater₁ hPoint hReads.past,
      History.schema, hPoint]
    rfl

end Planar
