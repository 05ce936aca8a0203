import Planar.History.Commits
import Planar.Values.External

/-
  A commit that only appends valid files with fresh UUIDs is
  accepted.

  Main declarations:
    * `FileSpec.Storable`, `Database.Room`
    * `exec_appendFiles_of_room`
    * `commit_appends`
-/

------------------------------------------------------------
-- Room for Files
------------------------------------------------------------

namespace Planar

/-
  The database can take files with these UUIDs: the table
  and the transaction that their rows refer to are there,
  and the UUIDs are distinct and fresh.
-/
structure Database.Room
    (db : Database)
    (tableUuid : Uuid)
    (transactionId : TxnId)
    (fileUuids : List Uuid) : Prop where
  table : Key.table tableUuid ∈ db.keyList
  transaction : Key.transaction transactionId ∈ db.keyList
  fresh : ∀ u ∈ fileUuids, Key.file u ∉ db.keyList
  nodup : fileUuids.Nodup

variable
  {ext : External}
  {db : Database}
  {tableUuid : Uuid}
  {transactionId : TxnId}

theorem keys_appendedRows
    (ext : External)
    (tableUuid : Uuid)
    (transactionId : TxnId)
    (files : List FileContents) :
    (Statement.insertFiles
      (appendedRows ext tableUuid transactionId
        files)).keys =
      files.map fun f => Key.file f.fileUuid := by
  simp only [Statement.keys, appendedRows, FileRow.keys,
    stampedRow, List.flatMap_map]
  exact List.flatMap_pure_eq_map ..

/- Files that there is room for are inserted. -/
theorem Database.Room.insert
    {files : List FileContents}
    {more : List Uuid}
    (hRoom :
      db.Room tableUuid transactionId
        (files.map FileContents.fileUuid ++ more)) :
    db.check (.insertFiles
        (appendedRows ext tableUuid transactionId files)) =
      .ok () ∧
    (db.effect (.insertFiles
      (appendedRows ext tableUuid transactionId files))).Room
        tableUuid transactionId more := by
  have hKeys :=
    keys_appendedRows ext tableUuid transactionId files
  have hSplit := List.nodup_append.mp hRoom.nodup
  have hHolds (k : Key) :
      k ∈ (db.effect (.insertFiles
        (appendedRows ext tableUuid transactionId
          files))).keyList ↔
        k ∈ db.keyList ∨
          k ∈ files.map fun f => Key.file f.fileUuid := by
    rw [(Database.keyList_effect db _).mem_iff,
      List.mem_append, hKeys]
  constructor
  · apply Database.check_ok.mpr
    rw [hKeys]
    refine ⟨?_, ?_, ?_⟩
    · intro k hKey
      rcases List.mem_map.mp hKey with ⟨f, hFile, rfl⟩
      exact hRoom.fresh _ (List.mem_append_left _
        (List.mem_map_of_mem hFile))
    · have hMap := hSplit.1.map
        (f := Key.file) (fun a b hEq => Key.file.inj hEq)
      rwa [List.map_map] at hMap
    · intro k hKey
      simp only [Statement.references, appendedRows,
        List.flatMap_map, List.mem_flatMap] at hKey
      rcases hKey with ⟨f, _, hRefers⟩
      simp only [FileRow.references, stampedRow,
        Option.toList_none, List.map_nil, List.mem_cons,
        List.not_mem_nil, or_false] at hRefers
      rcases hRefers with rfl | rfl
      · exact hRoom.table
      · exact hRoom.transaction
  · exact
      { table := (hHolds _).mpr (.inl hRoom.table)
        transaction :=
          (hHolds _).mpr (.inl hRoom.transaction)
        fresh := by
          intro u hMember hKey
          rcases (hHolds _).mp hKey with hOld | hNew
          · exact hRoom.fresh u
              (List.mem_append_right _ hMember) hOld
          · rcases List.mem_map.mp hNew with
              ⟨f, hFile, hEq⟩
            exact hSplit.2.2 f.fileUuid
              (List.mem_map_of_mem hFile) u hMember
              (Key.file.inj hEq)
        nodup := hSplit.2.1 }

------------------------------------------------------------
-- Inserting Storable Files
------------------------------------------------------------

/- The file is valid, and its values fit in their texts. -/
structure FileSpec.Storable
    (ext : External)
    (f : FileSpec) : Prop where
  valid : f.validate ext = .ok ()
  partitionValues : ∃ text,
    serializeJsonOptional ext f.partitionValues = .ok text
  formatOptions : ∃ text,
    serializeJsonOptional ext f.formatOptions = .ok text

theorem FileSpec.Storable.fileRow
    {f : FileSpec}
    (hStorable : f.Storable ext)
    (fresh : Uuid) :
    fileRow ext tableUuid transactionId fresh f =
      .ok (stampedRow ext tableUuid
        ⟨f.contents fresh, transactionId, none⟩) := by
  rcases hStorable.partitionValues with ⟨text, hText⟩
  rcases hStorable.formatOptions with ⟨text', hText'⟩
  have hRow : ∃ row, Planar.fileRow ext tableUuid
      transactionId fresh f = .ok row :=
    ⟨_, bind_ok.mpr ⟨(), hStorable.valid,
      bind_ok.mpr ⟨text, hText,
        bind_ok.mpr ⟨text', hText', rfl⟩⟩⟩⟩
  rcases hRow with ⟨row, hRow⟩
  rw [hRow, (fileRow_ok hRow).2]

theorem fileRows_of_storable
    {fileUuid : Nat → Uuid}
    {start : Nat}
    {files : List FileSpec}
    (hStorable : ∀ f ∈ files, f.Storable ext) :
    fileRows ext tableUuid transactionId fileUuid start
        files =
      .ok (appendedRows ext tableUuid transactionId
        (files.mapIdx fun i f =>
          f.contents (fileUuid (start + i)))) := by
  rw [fileRows_eq, appendedRows, map_mapIdx]
  exact buildFrom_total fun f hFile i =>
    (hStorable f hFile).fileRow (fileUuid i)

/- The UUIDs under which files are appended. -/
def appendedUuids
    (fileUuid : Nat → Uuid)
    (start : Nat)
    (files : List FileSpec) : List Uuid :=
  files.mapIdx fun i f =>
    f.fileUuid.getD (fileUuid (start + i))

/- Appending files never fails for lack of room. -/
theorem exec_appendFiles_of_room
    {fileUuid : Nat → Uuid}
    {files : List FileSpec}
    {more : List Uuid}
    (hLimit : asU32 files.length ≤ maxFilesPerAppend)
    (hStorable : ∀ f ∈ files, f.Storable ext)
    (hRoom :
      db.Room tableUuid transactionId
        (appendedUuids fileUuid 0 files ++ more)) :
    ∃ db',
      (appendFiles ext tableUuid transactionId fileUuid
        files).exec sqlStore db = .ok ((), db') ∧
      db'.Room tableUuid transactionId more := by
  have hUuids :
      (files.mapIdx fun i f =>
          f.contents (fileUuid (0 + i))).map
            FileContents.fileUuid =
        appendedUuids fileUuid 0 files := by
    rw [map_mapIdx]
    rfl
  rw [← hUuids] at hRoom
  rcases hRoom.insert with ⟨hCheck, hLeft⟩
  refine ⟨_, ?_, hLeft⟩
  unfold appendFiles
  rw [if_neg (Nat.not_lt.mpr hLimit)]
  exact exec_insertFileChunks.mpr
    ⟨_, fileRows_of_storable hStorable, hCheck, rfl⟩

------------------------------------------------------------
-- Commits of Appended Files
------------------------------------------------------------

/- The UUIDs under which a commit appends groups of files. -/
def groupUuids
    (draws : Draws)
    (op : Nat) : List (List FileSpec) → List Uuid
| [] => []
| files :: rest =>
    appendedUuids (draws.fileUuid op) 0 files ++
      groupUuids draws (op + 1) rest

theorem exec_stageAppends
    {ctx : CommitContext}
    {op : Nat}
    {staging : Staging}
    {groups : List (List FileSpec)}
    (hLimit : ∀ files ∈ groups,
      asU32 files.length ≤ maxFilesPerAppend)
    (hStorable : ∀ files ∈ groups, ∀ f ∈ files,
      f.Storable ctx.ext)
    (hRoom :
      db.Room ctx.tableUuid ctx.draws.transactionId
        (groupUuids ctx.draws op groups)) :
    ∃ db',
      (stageOperations ctx op staging
        (groups.map .appendFiles)).exec sqlStore db =
          .ok (staging, db') := by
  induction groups generalizing op db with
  | nil => exact ⟨db, rfl⟩
  | cons files rest ih =>
      rcases exec_appendFiles_of_room
        (hLimit files List.mem_cons_self)
        (hStorable files List.mem_cons_self) hRoom with
        ⟨db₁, hAppend, hLeft⟩
      rcases @ih db₁ (op + 1)
        (fun g hg => hLimit g (List.mem_cons_of_mem _ hg))
        (fun g hg =>
          hStorable g (List.mem_cons_of_mem _ hg))
        hLeft with ⟨db', hRest⟩
      exact ⟨db', Tx.exec_bind_ok.mpr ⟨staging, db₁,
        Tx.exec_bind_ok.mpr ⟨(), db₁, hAppend, rfl⟩,
        hRest⟩⟩

/-
  A commit of nothing but appended files is accepted when
  its checks pass, its transaction id is fresh and there is
  room for its files.
-/
theorem commit_appends
    {catalog : SqlCatalog}
    {ident : TableIdent}
    {base : TxnId}
    {groups : List (List FileSpec)}
    {draws : Draws}
    {row : TableRow}
    {properties : TableProperties}
    {text : String}
    (hChecked :
      precheck ⟨groups.map .appendFiles⟩ = .ok ())
    (hFound : db.findTable ident = some row)
    (hParsed :
      parseTableProperties ext row.properties =
        .ok properties)
    (hText :
      serializeJson ext properties.toJson = .ok text)
    (hWriter :
      catalog.ensureWriterProtocolCompatible ident
        row.minWriterVersion = .ok ())
    (hHead : row.currentTransactionId = some base)
    (hInsert :
      db.check (.insertTransaction
        { transactionId := draws.transactionId
          tableUuid := row.tableUuid
          transactionTimestamp := draws.now
          parentTransactionId := some base }) = .ok ())
    (hLimit : ∀ files ∈ groups,
      asU32 files.length ≤ maxFilesPerAppend)
    (hStorable : ∀ files ∈ groups, ∀ f ∈ files,
      f.Storable ext)
    (hRoom :
      (db.effect (.insertTransaction
        { transactionId := draws.transactionId
          tableUuid := row.tableUuid
          transactionTimestamp := draws.now
          parentTransactionId := some base })).Room
        row.tableUuid draws.transactionId
        (groupUuids draws 0 groups)) :
    ∃ db', commit ext catalog ident base
        ⟨groups.map .appendFiles⟩ draws db =
      (.ok ⟨draws.transactionId⟩, db') := by
  let ctx : CommitContext :=
    { ext := ext
      kind := catalog.kind
      draws := draws
      tableUuid := row.tableUuid
      currentSchemaUuid := row.currentSchemaUuid }
  rcases @exec_stageAppends _ ctx 0
    ⟨row.currentSchemaUuid, properties⟩ groups hLimit
    hStorable hRoom with ⟨db₁, hStaged⟩
  let advance : Statement :=
    .advanceTableHead draws.transactionId
      (row.currentSchemaUuid.or row.currentSchemaUuid)
      text row.tableUuid
  have hAdvance : db₁.check advance = .ok () :=
    Database.check_ok.mpr
      ⟨by simp [advance, Statement.keys],
        by simp [advance, Statement.keys],
        by simp [advance, Statement.references]⟩
  have hBase :
      checkBase base row.currentTransactionId =
        .ok base := by
    rw [hHead]
    exact if_neg (not_not.mpr rfl)
  have hBegin :
      (beginTransaction catalog.kind).exec sqlStore db =
        .ok ((), db) := by
    cases catalog.kind <;> rfl
  refine ⟨db₁.effect advance, runTransaction_ok.mpr ?_⟩
  apply Tx.exec_bind_ok.mpr
  refine ⟨(), db, Tx.exec_lift.mpr ⟨hChecked, rfl⟩, ?_⟩
  apply Tx.exec_bind_ok.mpr
  refine ⟨(), db, hBegin, ?_⟩
  apply Tx.exec_bind_ok.mpr
  refine ⟨some row, db, by rw [← hFound]; rfl, ?_⟩
  apply Tx.exec_bind_ok.mpr
  refine ⟨properties, db,
    Tx.exec_lift.mpr ⟨hParsed, rfl⟩, ?_⟩
  apply Tx.exec_bind_ok.mpr
  refine ⟨(), db, Tx.exec_lift.mpr ⟨hWriter, rfl⟩, ?_⟩
  apply Tx.exec_bind_ok.mpr
  refine ⟨base, db, Tx.exec_lift.mpr ⟨hBase, rfl⟩, ?_⟩
  apply Tx.exec_bind_ok.mpr
  refine ⟨(), _, Tx.exec_execute_ok.mpr ⟨hInsert, rfl⟩, ?_⟩
  apply Tx.exec_bind_ok.mpr
  refine ⟨_, db₁, hStaged, ?_⟩
  apply Tx.exec_bind_ok.mpr
  refine ⟨text, db₁, Tx.exec_lift.mpr ⟨hText, rfl⟩, ?_⟩
  apply Tx.exec_bind_ok.mpr
  exact ⟨(), _,
    Tx.exec_execute_ok.mpr ⟨hAdvance, rfl⟩, rfl⟩

------------------------------------------------------------
-- Entries of Appended Files
------------------------------------------------------------

/- The changes only append files. -/
def AppendsOnly (changes : List Change) : Prop :=
  ∀ change ∈ changes, ∃ files,
    change = .appendFiles files

theorem appendsOnly_changesFrom
    (draws : Draws)
    (op : Nat)
    (groups : List (List FileSpec)) :
    AppendsOnly
      (changesFrom draws op (groups.map .appendFiles)) := by
  induction groups generalizing op with
  | nil => simp [AppendsOnly, changesFrom]
  | cons files rest ih =>
      intro change hChange
      rcases List.mem_cons.mp hChange with rfl | hRest
      · exact ⟨_, rfl⟩
      · exact ih (op + 1) change hRest

namespace AppendsOnly

variable {changes : List Change}

theorem schemas
    (hAppends : AppendsOnly changes) :
    changes.filterMap Change.schema = [] := by
  apply List.filterMap_eq_nil_iff.mpr
  intro change hChange
  rcases hAppends change hChange with ⟨files, rfl⟩
  rfl

theorem properties
    (hAppends : AppendsOnly changes)
    (properties : TableProperties) :
    changes.foldl Change.onProperties properties =
      properties := by
  induction changes with
  | nil => rfl
  | cons change rest ih =>
      rcases hAppends change List.mem_cons_self with
        ⟨files, rfl⟩
      exact ih fun c hc =>
        hAppends c (List.mem_cons_of_mem _ hc)

theorem retiredBy
    (hAppends : AppendsOnly changes)
    (live : List FileContents) :
    retiredBy live (changes.filterMap Change.edit) = [] := by
  induction changes generalizing live with
  | nil => rfl
  | cons change rest ih =>
      rcases hAppends change List.mem_cons_self with
        ⟨files, rfl⟩
      exact ih (fun c hc =>
        hAppends c (List.mem_cons_of_mem _ hc)) _

end AppendsOnly

/- Every group is inserted, file by file. -/
theorem insertedBy_changesFrom
    (draws : Draws)
    (op : Nat)
    (groups : List (List FileSpec)) :
    (insertedBy
        ((changesFrom draws op
          (groups.map .appendFiles)).filterMap
            Change.edit)).length =
      groups.flatten.length ∧
    ∀ f ∈ insertedBy
        ((changesFrom draws op
          (groups.map .appendFiles)).filterMap Change.edit),
      ∃ g ∈ groups.flatten, ∃ u, f = g.contents u := by
  induction groups generalizing op with
  | nil => simp [changesFrom, insertedBy]
  | cons files rest ih =>
      rcases ih (op + 1) with ⟨hLength, hFiles⟩
      have hInserted :
          insertedBy
              ((changesFrom draws op
                ((files :: rest).map .appendFiles)).filterMap
                  Change.edit) =
            (files.mapIdx fun i f =>
                f.contents (draws.fileUuid op i)) ++
              insertedBy
                ((changesFrom draws (op + 1)
                  (rest.map .appendFiles)).filterMap
                    Change.edit) := rfl
      rw [hInserted]
      constructor
      · simp [hLength]
      · intro f hFile
        rw [List.flatten_cons]
        rcases List.mem_append.mp hFile with hNew | hRest
        · rcases List.mem_mapIdx.mp hNew with
            ⟨i, hIndex, rfl⟩
          exact ⟨files[i],
            List.mem_append_left _ (List.getElem_mem hIndex),
            _, rfl⟩
        · rcases hFiles f hRest with ⟨g, hg, u, rfl⟩
          exact ⟨g, List.mem_append_right _ hg, u, rfl⟩

end Planar
