import Planar.History.Evolution

/-
  What successful calls do: the statements that their
  changes amount to, and the checks that were passed.

  Main declarations:
    * `SchemaHead`, `Change.statements`
    * `Accepts`, `exec_stageOperations`
    * `commitStatements`, `Commits`, `commit_ok`
    * `createStatements`, `Creates`, `createTable_ok`
-/

------------------------------------------------------------
-- Statements of Changes
------------------------------------------------------------

namespace Planar

/- The current schema of a table and its version. -/
structure SchemaHead where
  schemaUuid : Uuid
  schemaVersion : Int

/- The row of a new schema version. -/
def SchemaContents.row
    (s : SchemaContents)
    (tableUuid : Uuid)
    (transactionId : TxnId)
    (schemaVersion : Int) : SchemaRow :=
  { schemaUuid := s.schemaUuid
    tableUuid := tableUuid
    schemaVersion := schemaVersion
    validFromTransactionId := transactionId
    validToTransactionId := none
    createdAt := s.createdAt }

/- The statements that a change amounts to. -/
def Change.statements
    (ext : External)
    (tableUuid : Uuid)
    (transactionId : TxnId)
    (head : SchemaHead) : Change → List Statement
| .appendFiles files =>
    [.insertFiles
      (appendedRows ext tableUuid transactionId files)]
| .deleteFiles fileUuids =>
    [.markFilesRemoved transactionId tableUuid fileUuids]
| .updateSchema s =>
    [.insertSchema
        (s.row tableUuid transactionId
          (asI32 (head.schemaVersion + 1))),
      .closeSchema transactionId head.schemaUuid,
      .insertColumns (s.columnRows ext)]
| .setProperties _ => []
| .removeProperties _ => []

/- The effect of a change on the variables of the loop. -/
def Change.stage
    (staging : Staging)
    (change : Change) : Staging :=
  { newSchemaUuid :=
      (change.schema.map
        SchemaContents.schemaUuid).or staging.newSchemaUuid
    properties := change.onProperties staging.properties }

------------------------------------------------------------
-- Accepted Operations
------------------------------------------------------------

/- What a commit has checked about one operation. -/
def Accepts
    (ext : External)
    (currentSchemaUuid : Option Uuid)
    (db : Database) : MutationOp → Prop
| .appendFiles files =>
    asU32 files.length ≤ maxFilesPerAppend ∧
      ∀ f ∈ files, f.validate ext = .ok ()
| .deleteFiles fileUuids =>
    asU32 fileUuids.length ≤ maxFilesPerDelete
| .updateSchema spec =>
    spec.validate = .ok () ∧
      ∃ current version,
        currentSchemaUuid = some current ∧
          fetchSchemaVersion current db = .ok version ∧
          checkAgainstCurrent ext (db.columnsOf current)
            spec = .ok ()
| .setProperties _ => True
| .removeProperties keys =>
    asU32 keys.length ≤ maxPropertyKeysToRemove

/- Two databases agree on a schema version. -/
structure SameSchema
    (schemaUuid : Uuid)
    (v w : Database) : Prop where
  version :
    fetchSchemaVersion schemaUuid w =
      fetchSchemaVersion schemaUuid v
  columns : w.columnsOf schemaUuid = v.columnsOf schemaUuid

/- What is accepted depends on the current schema only. -/
theorem Accepts.of_sameSchema
    {ext : External}
    {currentSchemaUuid : Option Uuid}
    {v w : Database}
    {operation : MutationOp}
    (hSame : ∀ current ∈ currentSchemaUuid,
      SameSchema current v w)
    (hAccepts :
      Accepts ext currentSchemaUuid w operation) :
    Accepts ext currentSchemaUuid v operation := by
  cases operation with
  | updateSchema spec =>
      rcases hAccepts with
        ⟨hValid, current, version, rfl, hVersion, hCheck⟩
      have hCurrent := hSame current rfl
      refine ⟨hValid, current, version, rfl, ?_, ?_⟩
      · rw [← hCurrent.version, hVersion]
      · rw [← hCurrent.columns, hCheck]
  | _ => exact hAccepts

theorem fetchSchemaVersion_ok
    {schemaUuid : Uuid}
    {db : Database}
    {version : Int}
    (hOk : fetchSchemaVersion schemaUuid db = .ok version) :
    ∃ row, db.schemas.find? (fun row =>
        row.schemaUuid = schemaUuid) = some row ∧
      row.schemaVersion = version := by
  unfold fetchSchemaVersion at hOk
  split at hOk
  · rename_i row hFind
    exact ⟨row, hFind, Except.ok.inj hOk⟩
  · cases hOk

theorem SchemaRow.schemaVersion_close
    (transactionId : TxnId)
    (schemaUuid : Uuid)
    (row : SchemaRow) :
    (row.close transactionId schemaUuid).schemaVersion =
      row.schemaVersion := by
  unfold close
  split <;> rfl

/- A new schema leaves what is stored of the current one. -/
theorem sameSchema_updateSchema
    {ext : External}
    {tableUuid : Uuid}
    {transactionId : TxnId}
    {head : SchemaHead}
    {s : SchemaContents}
    {current : Uuid}
    {version : Int}
    {v : Database}
    (hVersion : fetchSchemaVersion current v = .ok version)
    (hFresh : s.schemaUuid ≠ current) :
    SameSchema current v
      (sqlStore.apply v
        ((Change.updateSchema s).statements ext tableUuid
          transactionId head)) := by
  rcases fetchSchemaVersion_ok hVersion with
    ⟨row, hFind, rfl⟩
  constructor
  · have hKey :
        (fun row : SchemaRow =>
            decide (row.schemaUuid = current)) ∘
            SchemaRow.close transactionId head.schemaUuid =
          fun row => decide (row.schemaUuid = current) := by
      funext row
      simp [SchemaRow.schemaUuid_close]
    have hFound :
        ((v.schemas ++
            [s.row tableUuid transactionId
              (asI32 (head.schemaVersion + 1))]).map
            (SchemaRow.close transactionId
              head.schemaUuid)).find?
            (fun row => row.schemaUuid = current) =
          some (row.close transactionId
            head.schemaUuid) := by
      rw [List.find?_map, hKey, List.find?_append, hFind]
      rfl
    rw [hVersion]
    unfold fetchSchemaVersion
    simp only [Change.statements, Store.apply_cons,
      Store.apply_nil, sqlStore_effect, Database.effect,
      hFound, SchemaRow.schemaVersion_close]
  · have hNone :
        (s.columnRows ext).filter
            (fun row => row.schemaUuid = current) =
          [] := by
      apply List.filter_eq_nil_iff.mpr
      intro row hRow
      rcases List.mem_mapIdx.mp hRow with ⟨i, _, rfl⟩
      simpa using hFresh
    simp [Database.columnsOf, Change.statements,
      Database.effect, hNone]

/- The current schema of a table with its stored version. -/
def schemaHead
    (currentSchemaUuid : Option Uuid)
    (db : Database) : SchemaHead :=
  match currentSchemaUuid with
  | none => ⟨0, 0⟩
  | some current =>
      match fetchSchemaVersion current db with
      | .ok version => ⟨current, version⟩
      | .error _ => ⟨current, 0⟩

theorem schemaHead_of_ok
    {current : Uuid}
    {version : Int}
    {db : Database}
    (hOk : fetchSchemaVersion current db = .ok version) :
    schemaHead (some current) db = ⟨current, version⟩ := by
  simp [schemaHead, hOk]

theorem schemaHead_of_sameSchema
    {currentSchemaUuid : Option Uuid}
    {v w : Database}
    (hSame : ∀ current ∈ currentSchemaUuid,
      SameSchema current v w) :
    schemaHead currentSchemaUuid w =
      schemaHead currentSchemaUuid v := by
  cases currentSchemaUuid with
  | none => rfl
  | some current =>
      simp [schemaHead, (hSame current rfl).version]

/-
  One operation of a commit: it was accepted, and it acts by
  its change.
-/
structure Stages
    (ctx : CommitContext)
    (v : Database)
    (staging : Staging)
    (operation : MutationOp)
    (change : Change)
    (staging' : Staging)
    (v' : Database) : Prop where
  accepts :
    Accepts ctx.ext ctx.currentSchemaUuid v operation
  staging_eq : staging' = change.stage staging
  effect :
    v' = sqlStore.apply v
      (change.statements ctx.ext ctx.tableUuid
        ctx.draws.transactionId
        (schemaHead ctx.currentSchemaUuid v))
  same : ∀ current ∈ ctx.currentSchemaUuid,
    SameSchema current v v'

/- The specification of `updateSchema`. -/
theorem exec_updateSchema
    {ctx : CommitContext}
    {op : Nat}
    {spec : SchemaSpec}
    {staging : Staging}
    {v v' : Database}
    {u : Uuid}
    (hExec :
      (updateSchema ctx op spec).exec sqlStore v =
        .ok (u, v')) :
    Stages ctx v staging (.updateSchema spec)
      (.updateSchema (spec.contents ctx.draws op))
      { staging with newSchemaUuid := some u } v' := by
  rcases Tx.exec_bind_ok.mp hExec with
    ⟨_, v₁, hValidate, hExec₁⟩
  rcases Tx.exec_lift.mp hValidate with ⟨hValid, rfl⟩
  cases hCurrent : ctx.currentSchemaUuid with
  | none =>
      rw [hCurrent] at hExec₁
      cases hExec₁
  | some current =>
      rw [hCurrent] at hExec₁
      rcases Tx.exec_bind_ok.mp hExec₁ with
        ⟨fetched, v₂, hFetch, hExec₂⟩
      rcases Prod.mk.inj (Except.ok.inj hFetch) with
        ⟨rfl, rfl⟩
      rcases Tx.exec_bind_ok.mp hExec₂ with
        ⟨version, v₃, hLift, hExec₃⟩
      rcases Tx.exec_lift.mp hLift with ⟨hVersion, rfl⟩
      rcases Tx.exec_bind_ok.mp hExec₃ with
        ⟨rows, v₄, hRows, hExec₄⟩
      rcases Prod.mk.inj (Except.ok.inj hRows) with
        ⟨rfl, rfl⟩
      rcases Tx.exec_bind_ok.mp hExec₄ with
        ⟨_, v₅, hAgainst, hExec₅⟩
      rcases Tx.exec_lift.mp hAgainst with ⟨hCheck, rfl⟩
      rcases Tx.exec_bind_ok.mp hExec₅ with
        ⟨_, v₆, hInsert, hExec₆⟩
      rcases Tx.exec_execute_ok.mp hInsert with
        ⟨hAccepted, rfl⟩
      rcases Tx.exec_bind_ok.mp hExec₆ with
        ⟨_, v₇, hClose, hExec₇⟩
      rcases (Tx.exec_execute_ok.mp hClose).2 with rfl
      rcases Tx.exec_bind_ok.mp hExec₇ with
        ⟨_, v₈, hColumns, hExec₈⟩
      rcases (exec_insertColumns.mp hColumns).2 with rfl
      rcases Prod.mk.inj (Except.ok.inj hExec₈) with
        ⟨rfl, rfl⟩
      have hEffect :
          ((v.effect (.insertSchema
              ((spec.contents ctx.draws op).row
                ctx.tableUuid ctx.draws.transactionId
                (asI32 (version + 1))))).effect
              (.closeSchema ctx.draws.transactionId
                current)).effect
              (.insertColumns
                (columnRows ctx.ext
                  (ctx.draws.schemaUuid op)
                  (ctx.draws.columnUuid op) 0
                  spec.columns)) =
            sqlStore.apply v
              ((Change.updateSchema
                (spec.contents ctx.draws op)).statements
                  ctx.ext ctx.tableUuid
                  ctx.draws.transactionId
                  ⟨current, version⟩) := by
        simp only [Change.statements,
          SchemaSpec.columnRows_contents]
        rfl
      have hFresh :
          (spec.contents ctx.draws op).schemaUuid ≠
            current := by
        rcases fetchSchemaVersion_ok hVersion with
          ⟨row, hFind, _⟩
        have hUsed : Key.schema current ∈ v.keyList :=
          Database.mem_keyList_schema.mpr
            ⟨row, List.mem_of_find?_eq_some hFind,
              by simpa using List.find?_some hFind⟩
        intro hEq
        apply (Database.check_ok.mp hAccepted).1
          (Key.schema current) _ hUsed
        rw [← hEq]
        exact List.mem_singleton.mpr rfl
      refine ⟨⟨hValid, current, version, hCurrent,
        hVersion, hCheck⟩, rfl, ?_, ?_⟩
      · rw [hCurrent, schemaHead_of_ok hVersion]
        exact hEffect
      · intro other hOther
        rw [hCurrent, Option.mem_some_iff] at hOther
        subst hOther
        have hSame :
            SameSchema current v
              (sqlStore.apply v
                ((Change.updateSchema
                  (spec.contents ctx.draws op)).statements
                    ctx.ext ctx.tableUuid
                    ctx.draws.transactionId
                    ⟨current, version⟩)) :=
          sameSchema_updateSchema hVersion hFresh
        rw [← hEffect] at hSame
        exact hSame

/- The specification of one operation. -/
theorem exec_stageOperation
    {ctx : CommitContext}
    {op : Nat}
    {staging staging' : Staging}
    {operation : MutationOp}
    {v v' : Database}
    (hExec :
      (stageOperation ctx op staging operation).exec
        sqlStore v = .ok (staging', v')) :
    Stages ctx v staging operation
      (operation.change ctx.draws op) staging' v' := by
  cases operation with
  | appendFiles files =>
      rcases Tx.exec_bind_ok.mp hExec with
        ⟨_, v₁, hFiles, hEnd⟩
      rcases exec_appendFiles hFiles with
        ⟨hLimit, hValid, rfl⟩
      rcases Prod.mk.inj (Except.ok.inj hEnd) with
        ⟨rfl, rfl⟩
      exact ⟨⟨hLimit, hValid⟩, rfl, rfl, fun _ _ =>
        ⟨rfl, rfl⟩⟩
  | deleteFiles fileUuids =>
      rcases Tx.exec_bind_ok.mp hExec with
        ⟨_, v₁, hFiles, hEnd⟩
      rcases exec_deleteFiles hFiles with ⟨hLimit, rfl⟩
      rcases Prod.mk.inj (Except.ok.inj hEnd) with
        ⟨rfl, rfl⟩
      exact ⟨hLimit, rfl, rfl, fun _ _ => ⟨rfl, rfl⟩⟩
  | updateSchema spec =>
      rcases Tx.exec_bind_ok.mp hExec with
        ⟨u, v₁, hSchema, hEnd⟩
      rcases Prod.mk.inj (Except.ok.inj hEnd) with
        ⟨rfl, rfl⟩
      exact exec_updateSchema hSchema
  | setProperties properties =>
      rcases Prod.mk.inj (Except.ok.inj hExec) with
        ⟨rfl, rfl⟩
      exact ⟨trivial, rfl, rfl, fun _ _ => ⟨rfl, rfl⟩⟩
  | removeProperties keys =>
      simp only [stageOperation] at hExec
      split at hExec
      · rename_i hEmpty
        rcases Prod.mk.inj (Except.ok.inj hExec) with
          ⟨rfl, rfl⟩
        rcases List.isEmpty_iff.mp hEmpty with rfl
        exact ⟨Nat.zero_le _, rfl, rfl, fun _ _ =>
          ⟨rfl, rfl⟩⟩
      · split at hExec
        · cases hExec
        rename_i hLimit
        rcases Prod.mk.inj (Except.ok.inj hExec) with
          ⟨rfl, rfl⟩
        exact ⟨Nat.le_of_not_lt hLimit, rfl, rfl, fun _ _ =>
          ⟨rfl, rfl⟩⟩

/- The specification of the loop over the operations. -/
theorem exec_stageOperations
    {ctx : CommitContext}
    {op : Nat}
    {staging staging' : Staging}
    {operations : List MutationOp}
    {v v' : Database}
    (hExec :
      (stageOperations ctx op staging operations).exec
        sqlStore v = .ok (staging', v')) :
    (∀ operation ∈ operations,
      Accepts ctx.ext ctx.currentSchemaUuid v operation) ∧
    staging' =
      (changesFrom ctx.draws op operations).foldl
        Change.stage staging ∧
    v' = sqlStore.apply v
      ((changesFrom ctx.draws op operations).flatMap
        (Change.statements ctx.ext ctx.tableUuid
          ctx.draws.transactionId
          (schemaHead ctx.currentSchemaUuid v))) := by
  induction operations generalizing op staging v with
  | nil =>
      rcases Prod.mk.inj (Except.ok.inj hExec) with
        ⟨rfl, rfl⟩
      simp [changesFrom]
  | cons operation rest ih =>
      rcases Tx.exec_bind_ok.mp hExec with
        ⟨middle, v₁, hFirst, hRest⟩
      have hStages := exec_stageOperation hFirst
      rcases ih hRest with ⟨hAccepts, hStaging, hEffect⟩
      refine ⟨?_, ?_, ?_⟩
      · intro other hOther
        rcases List.mem_cons.mp hOther with rfl | hOther
        · exact hStages.accepts
        · exact (hAccepts other hOther).of_sameSchema
            hStages.same
      · rw [hStaging, changesFrom, List.foldl_cons,
          hStages.staging_eq]
      · rw [schemaHead_of_sameSchema hStages.same]
          at hEffect
        rw [hEffect, changesFrom, List.flatMap_cons,
          Store.apply_append, ← hStages.effect]

------------------------------------------------------------
-- Commit
------------------------------------------------------------

/- The variables after the changes of a commit. -/
def stagedBy
    (row : TableRow)
    (properties : TableProperties)
    (changes : List Change) : Staging :=
  changes.foldl Change.stage
    ⟨row.currentSchemaUuid, properties⟩

/- The statements that a commit amounts to. -/
def commitStatements
    (ext : External)
    (row : TableRow)
    (properties : TableProperties)
    (head : SchemaHead)
    (e : Entry) : List Statement :=
  let staging := stagedBy row properties e.changes
  .insertTransaction (e.transactionRow row.tableUuid) ::
    (e.changes.flatMap
      (Change.statements ext row.tableUuid e.transactionId
        head) ++
    [.advanceTableHead e.transactionId
      (staging.newSchemaUuid.or row.currentSchemaUuid)
      (ext.jsonToString staging.properties.toJson)
      row.tableUuid])

/- The entry of a commit. -/
def commitEntry
    (base : TxnId)
    (mutation : Mutation)
    (draws : Draws) : Entry :=
  { transactionId := draws.transactionId
    parentTransactionId := some base
    timestamp := draws.now
    changes := changesFrom draws 0 mutation.operations }

/-
  A successful commit against a table row with its decoded
  properties: what it has checked and what it did.
-/
structure Commits
    (ext : External)
    (catalog : SqlCatalog)
    (ident : TableIdent)
    (base : TxnId)
    (mutation : Mutation)
    (draws : Draws)
    (db db' : Database)
    (row : TableRow)
    (properties : TableProperties) : Prop where
  found : db.findTable ident = some row
  checked : precheck mutation = .ok ()
  parsed :
    parseTableProperties ext row.properties =
      .ok properties
  writer :
    catalog.ensureWriterProtocolCompatible ident
      row.minWriterVersion = .ok ()
  head : row.currentTransactionId = some base
  accepts : ∀ operation ∈ mutation.operations,
    Accepts ext row.currentSchemaUuid db operation
  effect :
    db' = sqlStore.apply db
      (commitStatements ext row properties
        (schemaHead row.currentSchemaUuid db)
        (commitEntry base mutation draws))

theorem checkBase_ok
    {base current : TxnId}
    {head : Option TxnId}
    (hOk : checkBase base head = .ok current) :
    head = some base ∧ current = base := by
  cases head with
  | none => cases hOk
  | some found =>
      simp only [checkBase] at hOk
      split at hOk
      · cases hOk
      rename_i hEq
      rw [not_not] at hEq
      rcases Except.ok.inj hOk with rfl
      exact ⟨by rw [hEq], hEq⟩

/- The specification of the writes of a commit. -/
theorem exec_stageCommit
    {ctx : CommitContext}
    {current : TxnId}
    {row : TableRow}
    {properties : TableProperties}
    {mutation : Mutation}
    {v v' : Database}
    {r : CommitResult}
    (hTable : ctx.tableUuid = row.tableUuid)
    (hSchema :
      ctx.currentSchemaUuid = row.currentSchemaUuid)
    (hExec :
      (stageCommit ctx current properties mutation).exec
        sqlStore v = .ok (r, v')) :
    r = ⟨ctx.draws.transactionId⟩ ∧
    (∀ operation ∈ mutation.operations,
      Accepts ctx.ext row.currentSchemaUuid v
        operation) ∧
    v' = sqlStore.apply v
      (commitStatements ctx.ext row properties
        (schemaHead row.currentSchemaUuid v)
        (commitEntry current mutation ctx.draws)) := by
  rcases Tx.exec_bind_ok.mp hExec with
    ⟨_, v₁, hInsert, hExec₁⟩
  rcases (Tx.exec_execute_ok.mp hInsert).2 with rfl
  rcases Tx.exec_bind_ok.mp hExec₁ with
    ⟨staging, v₂, hStage, hExec₂⟩
  rcases exec_stageOperations hStage with
    ⟨hAccepts, hStaging, rfl⟩
  rcases Tx.exec_bind_ok.mp hExec₂ with
    ⟨text, v₃, hText, hExec₃⟩
  rcases Tx.exec_lift.mp hText with ⟨hSerialize, rfl⟩
  rcases Tx.exec_bind_ok.mp hExec₃ with
    ⟨_, v₄, hAdvance, hEnd⟩
  rcases (Tx.exec_execute_ok.mp hAdvance).2 with rfl
  rcases Prod.mk.inj (Except.ok.inj hEnd) with ⟨rfl, rfl⟩
  rcases (serializeJson_ok hSerialize).1 with rfl
  have hSame :
      ∀ schema ∈ ctx.currentSchemaUuid,
        SameSchema schema v
          (v.effect (.insertTransaction
            { transactionId := ctx.draws.transactionId
              tableUuid := ctx.tableUuid
              transactionTimestamp := ctx.draws.now
              parentTransactionId := some current })) :=
    fun _ _ => ⟨rfl, rfl⟩
  refine ⟨rfl, ?_, ?_⟩
  · intro operation hOperation
    rw [← hSchema]
    exact (hAccepts operation hOperation).of_sameSchema
      hSame
  · have hHeads := schemaHead_of_sameSchema hSame
    rw [hSchema, hTable] at hHeads
    subst hStaging
    simp only [commitStatements, commitEntry, stagedBy,
      Store.apply_cons, Store.apply_append,
      Store.apply_nil, sqlStore_effect, hTable, hSchema,
      hHeads, Entry.transactionRow]

/- The specification of `commit`. -/
theorem commit_ok
    {ext : External}
    {catalog : SqlCatalog}
    {ident : TableIdent}
    {base : TxnId}
    {mutation : Mutation}
    {draws : Draws}
    {db db' : Database}
    {r : CommitResult}
    (hOk :
      commit ext catalog ident base mutation draws db =
        (.ok r, db')) :
    r = ⟨draws.transactionId⟩ ∧
    ∃ row properties,
      Commits ext catalog ident base mutation draws db db'
        row properties := by
  have hExec := runTransaction_ok.mp hOk
  rcases Tx.exec_bind_ok.mp hExec with
    ⟨_, v₁, hPrecheck, hExec₁⟩
  rcases Tx.exec_lift.mp hPrecheck with ⟨hChecked, rfl⟩
  rcases Tx.exec_bind_ok.mp hExec₁ with
    ⟨_, v₂, hBegin, hExec₂⟩
  have hSame : v₂ = db := by
    cases hKind : catalog.kind with
    | sqlite =>
        rw [hKind] at hBegin
        exact (Prod.mk.inj
          (Except.ok.inj hBegin)).2.symm
    | postgres =>
        rw [hKind] at hBegin
        exact (Prod.mk.inj
          (Except.ok.inj hBegin)).2.symm
  subst hSame
  rcases Tx.exec_bind_ok.mp hExec₂ with
    ⟨found, v₃, hFound, hExec₃⟩
  rcases Prod.mk.inj (Except.ok.inj hFound) with ⟨hRow, rfl⟩
  cases found with
  | none => cases hExec₃
  | some row =>
      rcases Tx.exec_bind_ok.mp hExec₃ with
        ⟨properties, v₄, hParse, hExec₄⟩
      rcases Tx.exec_lift.mp hParse with ⟨hParsed, rfl⟩
      rcases Tx.exec_bind_ok.mp hExec₄ with
        ⟨_, v₅, hEnsure, hExec₅⟩
      rcases Tx.exec_lift.mp hEnsure with ⟨hWriter, rfl⟩
      rcases Tx.exec_bind_ok.mp hExec₅ with
        ⟨current, v₆, hBase, hExec₆⟩
      rcases Tx.exec_lift.mp hBase with ⟨hCheck, rfl⟩
      rcases checkBase_ok hCheck with ⟨hHead, rfl⟩
      rcases exec_stageCommit rfl rfl hExec₆ with
        ⟨hResult, hAccepts, hEffect⟩
      exact ⟨hResult, row, properties, hRow, hChecked,
        hParsed, hWriter, hHead, hAccepts, hEffect⟩

------------------------------------------------------------
-- Creating a Table
------------------------------------------------------------

/- The statements that creating a table amounts to. -/
def createStatements
    (ext : External)
    (catalog : SqlCatalog)
    (ident : TableIdent)
    (location : String)
    (schema : SchemaSpec)
    (properties : TableProperties)
    (draws : Draws) : List Statement :=
  [.insertTable
      (newTableRow catalog ident location
        (ext.jsonToString properties.toJson) draws),
    .insertTransaction
      { transactionId := draws.transactionId
        tableUuid := draws.tableUuid
        transactionTimestamp := draws.now
        parentTransactionId := none },
    .insertSchema
      ((schema.contents draws 0).row draws.tableUuid
        draws.transactionId initialSchemaVersion),
    .insertColumns
      ((schema.contents draws 0).columnRows ext),
    .initTableHead (draws.schemaUuid 0)
      draws.transactionId draws.tableUuid]

/- The entry of a creation. -/
def createEntry
    (schema : SchemaSpec)
    (properties : Option TableProperties)
    (draws : Draws) : Entry :=
  { transactionId := draws.transactionId
    parentTransactionId := none
    timestamp := draws.now
    changes :=
      [.updateSchema (schema.contents draws 0),
        .setProperties (properties.getD {})] }

/- A successful creation: its checks and its effect. -/
structure Creates
    (ext : External)
    (catalog : SqlCatalog)
    (ident : TableIdent)
    (location : String)
    (schema : SchemaSpec)
    (properties : Option TableProperties)
    (draws : Draws)
    (db db' : Database) : Prop where
  valid : schema.validate = .ok ()
  absent : db.findTable ident = none
  effect :
    db' = sqlStore.apply db
      (createStatements ext catalog ident location schema
        (properties.getD {}) draws)

theorem exec_insertNewTable
    {ext : External}
    {catalog : SqlCatalog}
    {ident : TableIdent}
    {location : String}
    {schema : SchemaSpec}
    {properties : TableProperties}
    {draws : Draws}
    {v v' : Database}
    (hExec :
      (insertNewTable ext catalog ident location
        (ext.jsonToString properties.toJson) schema
        draws).exec sqlStore v = .ok ((), v')) :
    v' = sqlStore.apply v
      (createStatements ext catalog ident location schema
        properties draws) := by
  rcases Tx.exec_bind_ok.mp hExec with
    ⟨_, v₁, hTable, hExec₁⟩
  rcases (Tx.exec_execute_ok.mp hTable).2 with rfl
  rcases Tx.exec_bind_ok.mp hExec₁ with
    ⟨_, v₂, hTransaction, hExec₂⟩
  rcases (Tx.exec_execute_ok.mp hTransaction).2 with rfl
  rcases Tx.exec_bind_ok.mp hExec₂ with
    ⟨_, v₃, hSchema, hExec₃⟩
  rcases (Tx.exec_execute_ok.mp hSchema).2 with rfl
  rcases Tx.exec_bind_ok.mp hExec₃ with
    ⟨_, v₄, hColumns, hHead⟩
  rcases (exec_insertColumns.mp hColumns).2 with rfl
  rcases (Tx.exec_execute_ok.mp hHead).2 with rfl
  simp only [createStatements,
    SchemaSpec.columnRows_contents]
  rfl

/- The specification of `createTable`. -/
theorem createTable_ok
    {ext : External}
    {catalog : SqlCatalog}
    {ident : TableIdent}
    {location : String}
    {schema : SchemaSpec}
    {properties : Option TableProperties}
    {draws : Draws}
    {db db' : Database}
    (hOk :
      createTable ext catalog ident location schema
        properties draws db = (.ok (), db')) :
    Creates ext catalog ident location schema properties
      draws db db' := by
  have hExec := runTransaction_ok.mp hOk
  rcases Tx.exec_bind_ok.mp hExec with
    ⟨_, v₁, hValidate, hExec₁⟩
  rcases Tx.exec_lift.mp hValidate with ⟨hValid, rfl⟩
  rcases Tx.exec_bind_ok.mp hExec₁ with
    ⟨_, v₂, hBegin, hExec₂⟩
  have hSame : v₂ = db := by
    cases hKind : catalog.kind with
    | sqlite =>
        rw [hKind] at hBegin
        exact (Prod.mk.inj
          (Except.ok.inj hBegin)).2.symm
    | postgres =>
        rw [hKind] at hBegin
        exact (Prod.mk.inj
          (Except.ok.inj hBegin)).2.symm
  subst hSame
  rcases Tx.exec_bind_ok.mp hExec₂ with
    ⟨found, v₃, hFound, hExec₃⟩
  rcases Prod.mk.inj (Except.ok.inj hFound) with
    ⟨hSome, rfl⟩
  rcases Tx.exec_bind_ok.mp hExec₃ with
    ⟨tableExists, v₄, hDecode, hExec₄⟩
  rcases Tx.exec_lift.mp hDecode with ⟨hExists, rfl⟩
  cases tableExists with
  | true => cases hExec₄
  | false =>
      rcases Tx.exec_bind_ok.mp hExec₄ with
        ⟨text, v₅, hText, hExec₅⟩
      rcases Tx.exec_lift.mp hText with
        ⟨hSerialize, rfl⟩
      rcases (serializeJson_ok hSerialize).1 with rfl
      refine ⟨hValid, ?_, exec_insertNewTable hExec₅⟩
      have hFalse : found = false := by
        cases hKind : catalog.kind <;> cases found <;>
          simp_all [decodeSelectOne, fault]
      rw [hFalse] at hSome
      exact Option.isNone_iff_eq_none.mp
        (by simpa using hSome)

end Planar
