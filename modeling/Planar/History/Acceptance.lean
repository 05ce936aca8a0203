import Planar.History.Appends
import Planar.History.Creations

/-
  When the database accepts a call: the conditions that a
  successful call has met are also enough for it to succeed.

  Main declarations:
    * `Change.keys`, `Entry.keys`
    * `Admits`, `exec_stageOperations_of_admits`
    * `Admitted`, `commit_admitted_iff`
    * `CreateCall.perform_iff`
-/

------------------------------------------------------------
-- The Keys of an Entry
------------------------------------------------------------

namespace Planar

/- The values that a change brings, each as its key. -/
def Change.keys : Change → List Key
| .appendFiles files =>
    files.map fun f => Key.file f.fileUuid
| .updateSchema s =>
    .schema s.schemaUuid ::
      s.columns.map fun column => Key.column column.1
| _ => []

/- The values that a call brings to its table. -/
def Entry.keys (e : Entry) : List Key :=
  .transaction e.transactionId ::
    e.changes.flatMap Change.keys

/- The key is a drawn or a given value, not a name. -/
def Key.isValue : Key → Bool
| .tableIdent _ => false
| .columnName _ _ => false
| _ => true

theorem Change.isValue_of_mem_keys
    {change : Change}
    {k : Key}
    (hKey : k ∈ change.keys) :
    k.isValue = true := by
  cases change with
  | appendFiles files =>
      rcases List.mem_map.mp hKey with ⟨f, _, rfl⟩
      rfl
  | updateSchema s =>
      rcases List.mem_cons.mp hKey with rfl | hColumn
      · rfl
      · rcases List.mem_map.mp hColumn with ⟨c, _, rfl⟩
        rfl
  | _ => cases hKey

theorem Entry.isValue_of_mem_keys
    {e : Entry}
    {k : Key}
    (hKey : k ∈ e.keys) :
    k.isValue = true := by
  rcases List.mem_cons.mp hKey with rfl | hChange
  · rfl
  · rcases List.mem_flatMap.mp hChange with
      ⟨change, _, hKey⟩
    exact change.isValue_of_mem_keys hKey

theorem SchemaContents.filter_keys_columnRows
    (ext : External)
    (s : SchemaContents) :
    ((s.columnRows ext).flatMap ColumnRow.keys).filter
        Key.isValue =
      s.columns.map fun column => Key.column column.1 := by
  have hEach :
      (fun row => (ColumnRow.keys row).filter
        Key.isValue) =
        fun row => [Key.column row.columnUuid] := rfl
  rw [List.filter_flatMap, hEach, ← List.map_eq_flatMap,
    columnRows, map_mapIdx]
  exact mapIdx_const
    (fun column => Key.column column.1) s.columns

/- Apart from names, a change's statements bring its keys. -/
theorem Change.filter_keys_statements
    (ext : External)
    (tableUuid : Uuid)
    (transactionId : TxnId)
    (head : SchemaHead)
    (change : Change) :
    ((change.statements ext tableUuid transactionId
        head).flatMap Statement.keys).filter Key.isValue =
      change.keys := by
  cases change with
  | appendFiles files =>
      rw [statements, List.flatMap_singleton,
        keys_appendedRows]
      exact List.filter_eq_self.mpr fun k hKey => by
        rcases List.mem_map.mp hKey with ⟨f, _, rfl⟩
        rfl
  | updateSchema s =>
      have hColumns := s.filter_keys_columnRows ext
      simp only [statements, List.flatMap_cons,
        List.flatMap_nil, List.append_nil,
        List.filter_append, Statement.keys, hColumns]
      rfl
  | _ => rfl

theorem filter_keys_changes
    (ext : External)
    (tableUuid : Uuid)
    (transactionId : TxnId)
    (head : SchemaHead)
    (changes : List Change) :
    ((changes.flatMap (Change.statements ext tableUuid
        transactionId head)).flatMap
          Statement.keys).filter Key.isValue =
      changes.flatMap Change.keys := by
  induction changes with
  | nil => rfl
  | cons change rest ih =>
      rw [List.flatMap_cons, List.flatMap_append,
        List.filter_append, ih,
        change.filter_keys_statements, List.flatMap_cons]

theorem filter_keys_commitStatements
    (ext : External)
    (row : TableRow)
    (properties : TableProperties)
    (head : SchemaHead)
    (e : Entry) :
    ((commitStatements ext row properties head
        e).flatMap Statement.keys).filter Key.isValue =
      e.keys := by
  unfold commitStatements Entry.keys
  rw [List.flatMap_cons, List.flatMap_append,
    List.filter_append, List.filter_append,
    filter_keys_changes]
  simp only [List.flatMap_singleton, Statement.keys,
    List.filter_nil, List.append_nil]
  rfl

/-
  The keys of a sound database are distinct, so a list of
  statements that leads to one brings distinct new keys.
-/
theorem Database.Sound.fresh_values
    {db : Database}
    {statements : List Statement}
    {keys : List Key}
    (hSound : Sound (sqlStore.apply db statements))
    (hKeys :
      (statements.flatMap Statement.keys).filter
        Key.isValue = keys) :
    keys.Nodup ∧ ∀ k ∈ keys, k ∉ db.keyList := by
  have hNodup :=
    (keyList_apply db statements).nodup_iff.mp hSound.keys
  subst hKeys
  refine ⟨((List.nodup_append.mp hNodup).2.1).filter _, ?_⟩
  intro k hKey
  exact hSound.fresh k (List.mem_filter.mp hKey).1

------------------------------------------------------------
-- Operations That Are Admitted
------------------------------------------------------------

/- The files that an operation appends. -/
def MutationOp.files : MutationOp → List FileSpec
| .appendFiles files => files
| _ => []

/- What a commit demands of one operation. -/
structure Admits
    (ext : External)
    (currentSchemaUuid : Option Uuid)
    (db : Database)
    (operation : MutationOp) : Prop where
  accepts : Accepts ext currentSchemaUuid db operation
  storable : ∀ f ∈ operation.files, f.Storable ext

variable
  {ext : External}
  {ctx : CommitContext}
  {op : Nat}
  {staging staging' : Staging}
  {operation : MutationOp}
  {operations : List MutationOp}
  {db db' v v' : Database}

/- A row that is built is of a storable file. -/
theorem FileSpec.storable_of_fileRow
    {tableUuid : Uuid}
    {transactionId : TxnId}
    {fresh : Uuid}
    {f : FileSpec}
    {row : FileRow}
    (hOk :
      Planar.fileRow ext tableUuid transactionId fresh f =
        .ok row) :
    f.Storable ext := by
  rcases bind_ok.mp hOk with ⟨u, hValid, hRest⟩
  rcases bind_ok.mp hRest with ⟨partition, hPartition, hRest⟩
  rcases bind_ok.mp hRest with ⟨format, hFormat, _⟩
  exact ⟨hValid, ⟨partition, hPartition⟩,
    ⟨format, hFormat⟩⟩

theorem storable_of_fileRows
    {tableUuid : Uuid}
    {transactionId : TxnId}
    {fileUuid : Nat → Uuid}
    {start : Nat}
    {files : List FileSpec}
    {rows : List FileRow}
    (hOk :
      fileRows ext tableUuid transactionId fileUuid start
        files = .ok rows) :
    ∀ f ∈ files, f.Storable ext := by
  induction files generalizing start rows with
  | nil => simp
  | cons first rest ih =>
      rcases bind_ok.mp hOk with ⟨row, hFirst, hTail⟩
      rcases bind_ok.mp hTail with ⟨more, hRest, _⟩
      intro f hFile
      rcases List.mem_cons.mp hFile with rfl | hFile
      · exact FileSpec.storable_of_fileRow hFirst
      · exact ih hRest f hFile

/- An operation that is staged was admitted. -/
theorem admits_of_exec
    (hExec :
      (stageOperation ctx op staging operation).exec
        sqlStore v = .ok (staging', v')) :
    Admits ctx.ext ctx.currentSchemaUuid v operation := by
  refine ⟨(exec_stageOperation hExec).accepts, ?_⟩
  cases operation with
  | appendFiles files =>
      rcases Tx.exec_bind_ok.mp hExec with
        ⟨_, v₁, hFiles, _⟩
      unfold appendFiles at hFiles
      split at hFiles
      · cases hFiles
      rcases exec_insertFileChunks.mp hFiles with
        ⟨rows, hRows, _⟩
      exact storable_of_fileRows hRows
  | _ => exact fun f hFile => by cases hFile

/- All of them were admitted by the database at the start. -/
theorem admits_of_execs
    (hExec :
      (stageOperations ctx op staging operations).exec
        sqlStore v = .ok (staging', v')) :
    ∀ operation ∈ operations,
      Admits ctx.ext ctx.currentSchemaUuid v
        operation := by
  induction operations generalizing op staging v with
  | nil => simp
  | cons first rest ih =>
      rcases Tx.exec_bind_ok.mp hExec with
        ⟨middle, v₁, hFirst, hRest⟩
      have hSame := (exec_stageOperation hFirst).same
      intro other hOther
      rcases List.mem_cons.mp hOther with rfl | hOther
      · exact admits_of_exec hFirst
      · have hAdmits := ih hRest other hOther
        exact ⟨hAdmits.accepts.of_sameSchema hSame,
          hAdmits.storable⟩

------------------------------------------------------------
-- Admitted Operations Succeed
------------------------------------------------------------

/-
  The staged rows of a commit so far: a sound database in
  which the table and the new transaction are there and some
  values are not.
-/
structure Ready
    (ctx : CommitContext)
    (v : Database)
    (keys : List Key) : Prop where
  sound : v.Sound
  table : Key.table ctx.tableUuid ∈ v.keyList
  transaction :
    Key.transaction ctx.draws.transactionId ∈ v.keyList
  distinct : keys.Nodup
  fresh : ∀ k ∈ keys, k ∉ v.keyList
  values : ∀ k ∈ keys, k.isValue = true

/- Staging a change leaves room for the next ones. -/
theorem Ready.after
    {change : Change}
    {more : List Key}
    (hReady : Ready ctx v (change.keys ++ more))
    (hSound : v'.Sound)
    (hEffect :
      v' = sqlStore.apply v
        (change.statements ctx.ext ctx.tableUuid
          ctx.draws.transactionId
          (schemaHead ctx.currentSchemaUuid v))) :
    Ready ctx v' more := by
  have hHolds (k : Key) :
      k ∈ v'.keyList ↔ k ∈ v.keyList ∨
        k ∈ (change.statements ctx.ext ctx.tableUuid
          ctx.draws.transactionId
          (schemaHead ctx.currentSchemaUuid v)).flatMap
            Statement.keys := by
    rw [hEffect]
    exact sqlStore.holds_apply v _ k
  have hSplit := List.nodup_append.mp hReady.distinct
  constructor
  case sound => exact hSound
  case table => exact (hHolds _).mpr (.inl hReady.table)
  case transaction =>
    exact (hHolds _).mpr (.inl hReady.transaction)
  case distinct => exact hSplit.2.1
  case values =>
    exact fun k hKey =>
      hReady.values k (List.mem_append_right _ hKey)
  case fresh =>
    intro k hKey hUsed
    rcases (hHolds k).mp hUsed with hOld | hNew
    · exact hReady.fresh k (List.mem_append_right _ hKey)
        hOld
    · have hValue :=
        hReady.values k (List.mem_append_right _ hKey)
      have hOwn : k ∈ change.keys := by
        rw [← change.filter_keys_statements]
        exact List.mem_filter.mpr ⟨hNew, hValue⟩
      exact hSplit.2.2 k hOwn k hKey rfl

/- Storable files with fresh UUIDs are appended. -/
theorem Ready.appendFiles
    {files : List FileSpec}
    {more : List Key}
    (hLimit : asU32 files.length ≤ maxFilesPerAppend)
    (hStorable : ∀ f ∈ files, f.Storable ctx.ext)
    (hReady :
      Ready ctx v
        (((MutationOp.appendFiles files).change ctx.draws
          op).keys ++ more)) :
    ∃ v', (Planar.appendFiles ctx.ext ctx.tableUuid
        ctx.draws.transactionId (ctx.draws.fileUuid op)
        files).exec sqlStore v = .ok ((), v') := by
  have hKeys :
      ((MutationOp.appendFiles files).change ctx.draws
          op).keys =
        (appendedUuids (ctx.draws.fileUuid op) 0
          files).map Key.file := by
    simp only [MutationOp.change, Change.keys,
      appendedUuids, map_mapIdx, Nat.zero_add]
    rfl
  rw [hKeys] at hReady
  have hRoom :
      v.Room ctx.tableUuid ctx.draws.transactionId
        (appendedUuids (ctx.draws.fileUuid op) 0 files ++
          []) := by
    rw [List.append_nil]
    refine ⟨hReady.table, hReady.transaction, ?_, ?_⟩
    · intro u hu
      exact hReady.fresh _ (List.mem_append_left _
        (List.mem_map_of_mem hu))
    · exact (List.nodup_append.mp hReady.distinct).1.of_map
  rcases exec_appendFiles_of_room hLimit hStorable hRoom
    with ⟨v', hExec, _⟩
  exact ⟨v', hExec⟩

/- Files are marked when the transaction is there. -/
theorem Ready.deleteFiles
    {fileUuids : List Uuid}
    {keys : List Key}
    (hLimit : asU32 fileUuids.length ≤ maxFilesPerDelete)
    (hReady : Ready ctx v keys) :
    ∃ v', (Planar.deleteFiles ctx.tableUuid
        ctx.draws.transactionId fileUuids).exec sqlStore v =
      .ok ((), v') := by
  unfold Planar.deleteFiles
  rw [if_neg (Nat.not_lt.mpr hLimit)]
  exact ⟨_, exec_markFileChunks.mpr
    ⟨Database.check_markFilesRemoved.mpr fun _ =>
      hReady.transaction, rfl⟩⟩

/- A computation that succeeds is passed. -/
theorem exec_bind_lift
    {α β : Type}
    {r : Result α}
    {a : α}
    {rest : α → CatalogTx β}
    (hOk : r = .ok a)
    (hRest : ∃ b, (rest a).exec sqlStore v = .ok b) :
    ∃ b, (Tx.lift r >>= rest).exec sqlStore v = .ok b := by
  rw [hOk]
  exact hRest

/- A schema that evolves the current one is inserted. -/
theorem Ready.updateSchema
    {spec : SchemaSpec}
    {more : List Key}
    (hAccepts :
      Accepts ctx.ext ctx.currentSchemaUuid v
        (.updateSchema spec))
    (hReady :
      Ready ctx v
        (((MutationOp.updateSchema spec).change ctx.draws
          op).keys ++ more)) :
    ∃ r, (Planar.updateSchema ctx op spec).exec sqlStore
      v = .ok r := by
  rcases hAccepts with
    ⟨hValid, current, version, hCurrent, hVersion, hCheck⟩
  have hSchema :
      Key.schema (ctx.draws.schemaUuid op) ∉ v.keyList :=
    hReady.fresh _ (List.mem_append_left _
      List.mem_cons_self)
  have hColumn : ∀ i < spec.columns.length,
      Key.column (ctx.draws.columnUuid op i) ∈
        ((MutationOp.updateSchema spec).change ctx.draws
          op).keys := by
    intro i hi
    apply List.mem_cons_of_mem
    unfold SchemaSpec.contents
    rw [map_mapIdx]
    exact List.mem_mapIdx.mpr ⟨i, hi, rfl⟩
  have hDistinct : ∀ i < spec.columns.length,
      ∀ j < spec.columns.length,
        ctx.draws.columnUuid op i =
          ctx.draws.columnUuid op j → i = j := by
    have hNodup :=
      (List.nodup_append.mp hReady.distinct).1
    have hTail := (List.nodup_cons.mp hNodup).2
    simp only [SchemaSpec.contents, map_mapIdx] at hTail
    intro i hi j hj hEq
    rw [← List.length_mapIdx] at hi hj
    exact (hTail.getElem_inj_iff).mp
      (show List.get _ ⟨i, hi⟩ = List.get _ ⟨j, hj⟩ by
        simp [hEq])
  have hName := hReady.sound.columnName_fresh hSchema
  unfold Planar.updateSchema
  rw [hCurrent]
  refine exec_bind_lift hValid ?_
  change ∃ r, (Tx.lift (fetchSchemaVersion current v) >>=
    _).exec sqlStore v = .ok r
  refine exec_bind_lift hVersion ?_
  change ∃ r, (Tx.lift (checkAgainstCurrent ctx.ext
    (v.columnsOf current) spec) >>= _).exec sqlStore v =
      .ok r
  refine exec_bind_lift hCheck ?_
  have hHolds (s : Statement) (db : Database) (k : Key) :
      k ∈ (db.effect s).keyList ↔
        k ∈ db.keyList ∨ k ∈ s.keys :=
    sqlStore.holds_effect s db k
  refine exec_bind_execute (Database.check_ok.mpr
    ⟨?_, ?_, ?_⟩) ?_
  · simp [Statement.keys, SchemaRow.keys, hSchema]
  · simp [Statement.keys, SchemaRow.keys]
  · simp [Statement.references, SchemaRow.references,
      hReady.table, hReady.transaction]
  generalize hOne : v.effect _ = v₁
  have hKeys₁ (k : Key) : k ∈ v₁.keyList ↔
      k ∈ v.keyList ∨
        k = .schema (ctx.draws.schemaUuid op) := by
    rw [← hOne, hHolds]
    simp [Statement.keys, SchemaRow.keys]
  refine exec_bind_execute (Database.check_ok.mpr
    ⟨?_, ?_, ?_⟩) ?_
  · exact fun k hKey => by cases hKey
  · exact List.nodup_nil
  · intro k hKey
    simp only [Statement.references] at hKey
    split at hKey
    · rw [List.mem_singleton.mp hKey]
      exact (hKeys₁ _).mpr (.inl hReady.transaction)
    · cases hKey
  generalize hTwo : v₁.effect _ = v₂
  have hKeys₂ (k : Key) : k ∈ v₂.keyList ↔
      k ∈ v.keyList ∨
        k = .schema (ctx.draws.schemaUuid op) := by
    rw [← hTwo, hHolds]
    simp [Statement.keys, hKeys₁]
  have hColumns : ∃ v₃, (insertColumns ctx.ext ctx.kind
      (ctx.draws.schemaUuid op) (ctx.draws.columnUuid op)
      spec.columns).exec sqlStore v₂ = .ok ((), v₃) := by
    apply exec_insertColumns_of_fresh
      ((hKeys₂ _).mpr (.inr rfl))
    · intro k hKey
      rcases List.mem_flatMap.mp hKey with ⟨row, hRow, hKey⟩
      rcases List.mem_mapIdx.mp hRow with ⟨i, hi, rfl⟩
      simp only [ColumnRow.keys, Nat.zero_add,
        List.mem_cons, List.not_mem_nil, or_false] at hKey
      rcases hKey with rfl | rfl
      · have hNew := hReady.fresh _
          (List.mem_append_left _ (hColumn i hi))
        simpa [hKeys₂] using hNew
      · simpa [hKeys₂] using hName _
    · exact nodup_keys_columnRows
        (SchemaSpec.validate_ok hValid).2.2 hDistinct
  rcases hColumns with ⟨v₃, hInserted⟩
  exact ⟨(_, v₃), Tx.exec_bind_ok.mpr
    ⟨(), v₃, hInserted, rfl⟩⟩

/- An admitted operation with fresh values succeeds. -/
theorem exec_stageOperation_of_admits
    {more : List Key}
    (hAdmits :
      Admits ctx.ext ctx.currentSchemaUuid v operation)
    (hReady :
      Ready ctx v
        ((operation.change ctx.draws op).keys ++ more)) :
    ∃ staging' v',
      (stageOperation ctx op staging operation).exec
          sqlStore v = .ok (staging', v') ∧
        Ready ctx v' more := by
  have hSome : ∃ r, (stageOperation ctx op staging
      operation).exec sqlStore v = .ok r := by
    cases operation with
    | appendFiles files =>
        rcases hReady.appendFiles hAdmits.accepts.1
          hAdmits.storable with ⟨v', hExec⟩
        exact ⟨_, Tx.exec_bind_ok.mpr ⟨(), v', hExec, rfl⟩⟩
    | deleteFiles fileUuids =>
        rcases hReady.deleteFiles hAdmits.accepts with
          ⟨v', hExec⟩
        exact ⟨_, Tx.exec_bind_ok.mpr ⟨(), v', hExec, rfl⟩⟩
    | updateSchema spec =>
        rcases hReady.updateSchema hAdmits.accepts with
          ⟨⟨u, v'⟩, hExec⟩
        exact ⟨_, Tx.exec_bind_ok.mpr ⟨u, v', hExec, rfl⟩⟩
    | setProperties properties => exact ⟨_, rfl⟩
    | removeProperties keys =>
        have hLimit : ¬ asU32 keys.length >
            maxPropertyKeysToRemove :=
          Nat.not_lt.mpr hAdmits.accepts
        simp only [stageOperation, if_neg hLimit]
        split
        · exact ⟨_, rfl⟩
        · exact ⟨_, rfl⟩
  rcases hSome with ⟨⟨staging', v'⟩, hExec⟩
  exact ⟨staging', v', hExec,
    hReady.after (hReady.sound.exec hExec)
      (exec_stageOperation hExec).effect⟩

/- The loop over admitted operations runs to its end. -/
theorem exec_stageOperations_of_admits
    (hAdmits : ∀ operation ∈ operations,
      Admits ctx.ext ctx.currentSchemaUuid v operation)
    (hReady :
      Ready ctx v
        ((changesFrom ctx.draws op operations).flatMap
          Change.keys)) :
    ∃ r, (stageOperations ctx op staging operations).exec
      sqlStore v = .ok r := by
  induction operations generalizing op staging v with
  | nil => exact ⟨_, rfl⟩
  | cons first rest ih =>
      rw [changesFrom, List.flatMap_cons] at hReady
      have hStep := @exec_stageOperation_of_admits ctx op
        staging first v _
        (hAdmits first List.mem_cons_self) hReady
      rcases hStep with ⟨middle, v₁, hFirst, hLeft⟩
      have hSame := (exec_stageOperation hFirst).same
      have hRest : ∀ operation ∈ rest,
          Admits ctx.ext ctx.currentSchemaUuid v₁
            operation := by
        intro other hOther
        have hOld :=
          hAdmits other (List.mem_cons_of_mem _ hOther)
        refine ⟨hOld.accepts.of_sameSchema ?_,
          hOld.storable⟩
        intro current hCurrent
        have hBoth := hSame current hCurrent
        exact ⟨hBoth.version.symm, hBoth.columns.symm⟩
      rcases ih hRest hLeft with ⟨r, hExec⟩
      exact ⟨r, Tx.exec_bind_ok.mpr
        ⟨middle, v₁, hFirst, hExec⟩⟩

------------------------------------------------------------
-- Commits
------------------------------------------------------------

/-
  Everything that a commit against a table row depends on:
  what a successful one has checked, and that its values are
  distinct and new and its texts are not too long.
-/
structure Admitted
    (ext : External)
    (catalog : SqlCatalog)
    (ident : TableIdent)
    (base : TxnId)
    (mutation : Mutation)
    (draws : Draws)
    (db : Database)
    (row : TableRow)
    (properties : TableProperties) : Prop where
  found : db.findTable ident = some row
  checked : precheck mutation = .ok ()
  parsed :
    parseTableProperties ext row.properties =
      .ok properties
  writer :
    catalog.ensureWriterProtocolCompatible ident
      row.minWriterVersion = .ok ()
  head : row.currentTransactionId = some base
  admits : ∀ operation ∈ mutation.operations,
    Admits ext row.currentSchemaUuid db operation
  text : ∃ text,
    serializeJson ext
      (stagedBy row properties
        (commitEntry base mutation
          draws).changes).properties.toJson = .ok text
  distinct : (commitEntry base mutation draws).keys.Nodup
  fresh : ∀ k ∈ (commitEntry base mutation draws).keys,
    k ∉ db.keyList

section Commit

variable
  {catalog : SqlCatalog}
  {ident : TableIdent}
  {base : TxnId}
  {mutation : Mutation}
  {draws : Draws}

/- A commit runs its checks, and then its writes. -/
theorem commit_iff
    {r : CommitResult} :
    commit ext catalog ident base mutation draws db =
        (.ok r, db') ↔
      precheck mutation = .ok () ∧
        ∃ row properties,
          db.findTable ident = some row ∧
            parseTableProperties ext row.properties =
              .ok properties ∧
            catalog.ensureWriterProtocolCompatible ident
              row.minWriterVersion = .ok () ∧
            row.currentTransactionId = some base ∧
            (stageCommit
              { ext := ext
                kind := catalog.kind
                draws := draws
                tableUuid := row.tableUuid
                currentSchemaUuid := row.currentSchemaUuid }
              base properties mutation).exec sqlStore db =
                .ok (r, db') := by
  have hBegin :
      (beginTransaction catalog.kind).exec sqlStore db =
        .ok ((), db) := by
    cases catalog.kind <;> rfl
  constructor
  · intro hOk
    rcases Tx.exec_bind_ok.mp (runTransaction_ok.mp hOk)
      with ⟨_, v₁, hPrecheck, hExec₁⟩
    rcases Tx.exec_lift.mp hPrecheck with ⟨hChecked, rfl⟩
    rcases Tx.exec_bind_ok.mp hExec₁ with
      ⟨_, v₂, hOpen, hExec₂⟩
    rw [hBegin] at hOpen
    rcases Prod.mk.inj (Except.ok.inj hOpen) with ⟨_, rfl⟩
    rcases Tx.exec_bind_ok.mp hExec₂ with
      ⟨found, v₃, hFound, hExec₃⟩
    rcases Prod.mk.inj (Except.ok.inj hFound) with
      ⟨hRow, rfl⟩
    cases found with
    | none => cases hExec₃
    | some row =>
        rcases Tx.exec_bind_ok.mp hExec₃ with
          ⟨properties, v₄, hParse, hExec₄⟩
        rcases Tx.exec_lift.mp hParse with ⟨hParsed, rfl⟩
        rcases Tx.exec_bind_ok.mp hExec₄ with
          ⟨_, v₅, hEnsure, hExec₅⟩
        rcases Tx.exec_lift.mp hEnsure with ⟨hWriter, rfl⟩
        rcases Tx.exec_bind_ok.mp hExec₅ with
          ⟨current, v₆, hBase, hExec₆⟩
        rcases Tx.exec_lift.mp hBase with ⟨hCheck, rfl⟩
        rcases checkBase_ok hCheck with ⟨hHead, rfl⟩
        exact ⟨hChecked, row, properties, hRow, hParsed,
          hWriter, hHead, hExec₆⟩
  · rintro ⟨hChecked, row, properties, hRow, hParsed,
      hWriter, hHead, hExec⟩
    have hBase :
        checkBase base row.currentTransactionId =
          .ok base := by
      rw [hHead]
      exact if_neg (not_not.mpr rfl)
    apply runTransaction_ok.mpr
    apply Tx.exec_bind_ok.mpr
    refine ⟨(), db, Tx.exec_lift.mpr ⟨hChecked, rfl⟩, ?_⟩
    apply Tx.exec_bind_ok.mpr
    refine ⟨(), db, hBegin, ?_⟩
    apply Tx.exec_bind_ok.mpr
    refine ⟨some row, db, by rw [← hRow]; rfl, ?_⟩
    apply Tx.exec_bind_ok.mpr
    refine ⟨properties, db,
      Tx.exec_lift.mpr ⟨hParsed, rfl⟩, ?_⟩
    apply Tx.exec_bind_ok.mpr
    refine ⟨(), db, Tx.exec_lift.mpr ⟨hWriter, rfl⟩, ?_⟩
    apply Tx.exec_bind_ok.mpr
    exact ⟨base, db, Tx.exec_lift.mpr ⟨hBase, rfl⟩, hExec⟩

/- The writes of a commit that is admitted succeed. -/
theorem Admitted.exec_stageCommit
    {row : TableRow}
    {properties : TableProperties}
    (hSound : db.Sound)
    (hBase : Key.transaction base ∈ db.keyList)
    (hAdmitted :
      Admitted ext catalog ident base mutation draws db row
        properties) :
    ∃ r, (stageCommit
      { ext := ext
        kind := catalog.kind
        draws := draws
        tableUuid := row.tableUuid
        currentSchemaUuid := row.currentSchemaUuid }
      base properties mutation).exec sqlStore db =
        .ok r := by
  let ctx : CommitContext :=
    { ext := ext
      kind := catalog.kind
      draws := draws
      tableUuid := row.tableUuid
      currentSchemaUuid := row.currentSchemaUuid }
  have hKeys := List.nodup_cons.mp hAdmitted.distinct
  have hTable : Key.table row.tableUuid ∈ db.keyList :=
    Database.mem_keyList_table.mpr ⟨row,
      (Database.findTable_some hAdmitted.found).1, rfl⟩
  have hNew : Key.transaction draws.transactionId ∉
      db.keyList := hAdmitted.fresh _ List.mem_cons_self
  have hInsert : db.check (.insertTransaction
      { transactionId := draws.transactionId
        tableUuid := row.tableUuid
        transactionTimestamp := draws.now
        parentTransactionId := some base }) = .ok () := by
    refine Database.check_ok.mpr ⟨?_, ?_, ?_⟩
    · simpa [Statement.keys, TransactionRow.keys] using hNew
    · simp [Statement.keys, TransactionRow.keys]
    · simp [Statement.references, TransactionRow.references,
        hTable, hBase]
  refine exec_bind_execute hInsert ?_
  have hSound₁ := hSound.effect hInsert
  generalize hOne : db.effect _ = v₁ at hSound₁ ⊢
  have hHolds (k : Key) : k ∈ v₁.keyList ↔
      k ∈ db.keyList ∨
        k = .transaction draws.transactionId := by
    rw [← hOne]
    refine (sqlStore.holds_effect _ db k).trans ?_
    exact or_congr Iff.rfl List.mem_singleton
  have hReady :
      Ready ctx v₁
        ((changesFrom draws 0 mutation.operations).flatMap
          Change.keys) := by
    constructor
    case sound => exact hSound₁
    case table => exact (hHolds _).mpr (.inl hTable)
    case transaction => exact (hHolds _).mpr (.inr rfl)
    case distinct => exact hKeys.2
    case fresh =>
      intro k hKey hUsed
      rcases (hHolds k).mp hUsed with hOld | rfl
      · exact hAdmitted.fresh k
          (List.mem_cons_of_mem _ hKey) hOld
      · exact hKeys.1 hKey
    case values =>
      exact fun k hKey =>
        Entry.isValue_of_mem_keys
          (e := commitEntry base mutation draws)
          (List.mem_cons_of_mem _ hKey)
  have hAdmits : ∀ operation ∈ mutation.operations,
      Admits ext row.currentSchemaUuid v₁ operation := by
    intro operation hOperation
    have hOld := hAdmitted.admits operation hOperation
    refine ⟨hOld.accepts.of_sameSchema ?_, hOld.storable⟩
    intro current _
    rw [← hOne]
    exact ⟨rfl, rfl⟩
  have hStaged := @exec_stageOperations_of_admits ctx 0
    ⟨row.currentSchemaUuid, properties⟩ mutation.operations
    v₁ hAdmits hReady
  rcases hStaged with ⟨⟨staging, v₂⟩, hStaged⟩
  have hStaging := (exec_stageOperations hStaged).2.1
  rcases hAdmitted.text with ⟨text, hText⟩
  have hLift : serializeJson ext staging.properties.toJson =
      .ok text := by
    rw [hStaging]
    exact hText
  have hAdvance : ∃ r, (Tx.execute
      (.advanceTableHead draws.transactionId
        (staging.newSchemaUuid.or row.currentSchemaUuid)
        text row.tableUuid) >>= fun _ =>
          (pure ⟨draws.transactionId⟩ :
            CatalogTx CommitResult)).exec sqlStore v₂ =
        .ok r := by
    refine exec_bind_execute (Database.check_ok.mpr
      ⟨?_, List.nodup_nil, ?_⟩) ⟨_, rfl⟩
    · exact fun k hKey => by cases hKey
    · exact fun k hKey => by cases hKey
  rcases hAdvance with ⟨r, hEnd⟩
  exact ⟨r, Tx.exec_bind_ok.mpr ⟨staging, v₂, hStaged,
    Tx.exec_bind_ok.mpr ⟨text, v₂,
      Tx.exec_lift.mpr ⟨hLift, rfl⟩, hEnd⟩⟩⟩

/- What the writes of a commit demand. -/
theorem admitted_of_stageCommit
    {row : TableRow}
    {properties : TableProperties}
    {r : CommitResult}
    (hSound : db.Sound)
    (hFound : db.findTable ident = some row)
    (hChecked : precheck mutation = .ok ())
    (hParsed :
      parseTableProperties ext row.properties =
        .ok properties)
    (hWriter :
      catalog.ensureWriterProtocolCompatible ident
        row.minWriterVersion = .ok ())
    (hHead : row.currentTransactionId = some base)
    (hExec :
      (stageCommit
        { ext := ext
          kind := catalog.kind
          draws := draws
          tableUuid := row.tableUuid
          currentSchemaUuid := row.currentSchemaUuid }
        base properties mutation).exec sqlStore db =
          .ok (r, db')) :
    Admitted ext catalog ident base mutation draws db row
      properties := by
  have hSound' := hSound.exec hExec
  have hEffect := (exec_stageCommit rfl rfl hExec).2.2
  rw [hEffect] at hSound'
  have hFresh := hSound'.fresh_values
    (filter_keys_commitStatements ext row properties
      (schemaHead row.currentSchemaUuid db)
      (commitEntry base mutation draws))
  rcases Tx.exec_bind_ok.mp hExec with
    ⟨_, v₁, hInsert, hExec₁⟩
  rcases (Tx.exec_execute_ok.mp hInsert).2 with rfl
  rcases Tx.exec_bind_ok.mp hExec₁ with
    ⟨staging, v₂, hStaged, hExec₂⟩
  rcases Tx.exec_bind_ok.mp hExec₂ with
    ⟨text, v₃, hText, _⟩
  have hStaging := (exec_stageOperations hStaged).2.1
  constructor
  case found => exact hFound
  case checked => exact hChecked
  case parsed => exact hParsed
  case writer => exact hWriter
  case head => exact hHead
  case admits =>
    intro operation hOperation
    have hAdmits :=
      admits_of_execs hStaged operation hOperation
    exact ⟨hAdmits.accepts.of_sameSchema fun _ _ =>
      ⟨rfl, rfl⟩, hAdmits.storable⟩
  case text =>
    rw [hStaging] at hText
    exact ⟨text, (Tx.exec_lift.mp hText).1⟩
  case distinct => exact hFresh.1
  case fresh => exact hFresh.2

/-
  On a sound database whose head has a row, a commit
  succeeds exactly when it is admitted.
-/
theorem commit_admitted_iff
    (hSound : db.Sound)
    (hBase : ∀ row, db.findTable ident = some row →
      row.currentTransactionId = some base →
        Key.transaction base ∈ db.keyList) :
    (∃ r, (commit ext catalog ident base mutation draws
        db).1 = .ok r) ↔
      ∃ row properties,
        Admitted ext catalog ident base mutation draws db
          row properties := by
  constructor
  · rintro ⟨r, hOk⟩
    have hPair : commit ext catalog ident base mutation
        draws db = (.ok r, (commit ext catalog ident base
          mutation draws db).2) := by
      rw [← hOk]
    rcases commit_iff.mp hPair with
      ⟨hChecked, row, properties, hFound, hParsed, hWriter,
        hHead, hExec⟩
    exact ⟨row, properties, admitted_of_stageCommit hSound
      hFound hChecked hParsed hWriter hHead hExec⟩
  · rintro ⟨row, properties, hAdmitted⟩
    rcases hAdmitted.exec_stageCommit hSound
      (hBase row hAdmitted.found hAdmitted.head) with
      ⟨⟨r, db'⟩, hExec⟩
    have hOk := commit_iff.mpr ⟨hAdmitted.checked, row,
      properties, hAdmitted.found, hAdmitted.parsed,
      hAdmitted.writer, hAdmitted.head, hExec⟩
    exact ⟨r, congrArg Prod.fst hOk⟩

end Commit

------------------------------------------------------------
-- Creations
------------------------------------------------------------

/- The values that a creation brings. -/
def CreateCall.keys (call : CreateCall) : List Key :=
  .table call.draws.tableUuid ::
    (Call.create call).entry.keys

theorem CreateCall.keys_eq
    (call : CreateCall) :
    call.keys =
      .table call.draws.tableUuid ::
        .transaction call.draws.transactionId ::
          .schema (call.draws.schemaUuid 0) ::
            call.schema.columns.mapIdx fun i _ =>
              Key.column (call.draws.columnUuid 0 i) := by
  simp [CreateCall.keys, Entry.keys, Call.entry,
    createEntry, Change.keys, SchemaSpec.contents]

theorem CreateCall.filter_keys_createStatements
    (ext : External)
    (call : CreateCall) :
    ((createStatements ext call.catalog call.ident
        call.location call.schema
        (call.properties.getD {}) call.draws).flatMap
          Statement.keys).filter Key.isValue =
      call.keys := by
  have hColumns :=
    (call.schema.contents
      call.draws 0).filter_keys_columnRows ext
  simp only [createStatements, List.flatMap_cons,
    List.flatMap_nil, List.append_nil, List.filter_append,
    Statement.keys, hColumns]
  simp only [CreateCall.keys, Entry.keys, Call.entry,
    createEntry, List.flatMap_cons, List.flatMap_nil,
    List.append_nil, Change.keys]
  rfl

/- Distinct new values are fresh draws. -/
theorem CreateCall.freshIn_of_keys
    {call : CreateCall}
    (hDistinct : call.keys.Nodup)
    (hFresh : ∀ k ∈ call.keys, k ∉ db.keyList) :
    call.FreshIn db := by
  rw [call.keys_eq] at hDistinct hFresh
  have hColumns := (List.nodup_cons.mp
    (List.nodup_cons.mp
      (List.nodup_cons.mp hDistinct).2).2).2
  constructor
  case table => exact hFresh _ (by simp)
  case transaction => exact hFresh _ (by simp)
  case schema => exact hFresh _ (by simp)
  case columns =>
    intro i hi
    apply hFresh
    iterate 3 apply List.mem_cons_of_mem
    exact List.mem_mapIdx.mpr ⟨i, hi, rfl⟩
  case distinct =>
    intro i hi j hj hEq
    have hAt {k : Nat} (hk : k <
        call.schema.columns.length) :
        k < (call.schema.columns.mapIdx fun i _ =>
          Key.column
            (call.draws.columnUuid 0 i)).length := by
      rw [List.length_mapIdx]
      exact hk
    exact (hColumns.getElem_inj_iff).mp
      (show List.get _ ⟨i, hAt hi⟩ =
          List.get _ ⟨j, hAt hj⟩ by
        simp [hEq])

/- What a creation does when the table is not there. -/
theorem CreateCall.exec_tx_absent
    {call : CreateCall}
    (hValid : call.schema.validate = .ok ())
    (hAbsent : db.findTable call.ident = none) :
    (call.tx ext).exec sqlStore db =
      (Tx.lift (serializeJson ext
        (call.properties.getD {}).toJson) >>= fun text =>
          call.inserts ext text).exec sqlStore db := by
  have hCheck :
      call.afterCheck ext (db.findTable call.ident).isSome =
        (Tx.lift (serializeJson ext
          (call.properties.getD {}).toJson) >>= fun text =>
            call.inserts ext text) := by
    rw [hAbsent]
    unfold afterCheck
    cases call.catalog.kind <;> rfl
  rw [tx_of_valid hValid, ← hCheck]
  cases call.catalog.kind <;> rfl

/-
  On a sound database a creation succeeds exactly when its
  schema is valid, the table is not there, its properties
  fit and its values are distinct and new.
-/
theorem CreateCall.perform_iff
    {call : CreateCall}
    (hSound : db.Sound) :
    (∃ u, ((Call.create call).perform ext db).1 = .ok u) ↔
      call.schema.validate = .ok () ∧
        db.findTable call.ident = none ∧
        call.Fits ext ∧
        call.keys.Nodup ∧
        ∀ k ∈ call.keys, k ∉ db.keyList := by
  constructor
  · rintro ⟨u, hOk⟩
    have hPair : (Call.create call).perform ext db =
        (.ok u, ((Call.create call).perform ext db).2) := by
      rw [← hOk]
    have hCreates := createTable_ok hPair
    have hExec := runTransaction_ok.mp hPair
    have hSound' := hSound.exec hExec
    rw [hCreates.effect] at hSound'
    have hKeys := hSound'.fresh_values
      (call.filter_keys_createStatements ext)
    refine ⟨hCreates.valid, hCreates.absent, ?_, hKeys⟩
    change (call.tx ext).exec sqlStore db = _ at hExec
    rw [exec_tx_absent hCreates.valid hCreates.absent]
      at hExec
    rcases Tx.exec_bind_ok.mp hExec with
      ⟨text, v₁, hText, _⟩
    exact ⟨text, (Tx.exec_lift.mp hText).1⟩
  · rintro ⟨hValid, hAbsent, ⟨text, hText⟩, hDistinct,
      hFresh⟩
    have hUnused :
        Key.tableIdent call.ident ∉ db.keyList := by
      intro hUsed
      rcases Database.mem_keyList_tableIdent.mp hUsed with
        ⟨row, hRow, hIdent⟩
      rw [← hIdent, hSound.findTable hRow] at hAbsent
      cases hAbsent
    have hInserts := @CreateCall.exec_inserts ext call db
      text hSound (call.freshIn_of_keys hDistinct hFresh)
      hUnused hValid
    have hExec : ∃ r, (call.tx ext).exec sqlStore db =
        .ok r := by
      rw [exec_tx_absent hValid hAbsent]
      exact exec_bind_lift hText hInserts
    rcases hExec with ⟨⟨u, db'⟩, hExec⟩
    exact ⟨u, congrArg Prod.fst
      (runTransaction_ok.mpr hExec)⟩

end Planar
