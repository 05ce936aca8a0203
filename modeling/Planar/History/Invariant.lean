import Planar.History.CommitInvariant

/-
  The invariant of runs holds in every reachable state.

  Main declarations:
    * `Tracked.create`, `Lawful.create`
    * `World.Moves`, `World.Inv.moves`
    * `World.Inv.step`
    * `World.Reachable.inv`
-/

------------------------------------------------------------
-- Creating a Table
------------------------------------------------------------

namespace Planar

/- A table without a row has no other rows. -/
theorem Database.Sound.rowsOf_fresh
    {db : Database}
    (hSound : db.Sound)
    {tableUuid : Uuid}
    (hFresh : Key.table tableUuid ∉ db.keyList) :
    db.transactionsOf tableUuid = [] ∧
      db.schemasOf tableUuid = [] ∧
      db.filesOf tableUuid = [] := by
  have hReferred {k : Key}
      (hKey : k ∈ db.referenceList) :
      k ≠ .table tableUuid := by
    rintro rfl
    exact hFresh (hSound.references _ hKey)
  simp only [Database.referenceList, List.mem_append,
    List.mem_flatMap] at hReferred
  refine ⟨?_, ?_, ?_⟩
  · apply List.filter_eq_nil_iff.mpr
    intro r hr hEq
    exact hReferred
      (.inl ⟨r, hr, List.mem_cons_self⟩)
      (congrArg Key.table (of_decide_eq_true hEq))
  · apply List.filter_eq_nil_iff.mpr
    intro r hr hEq
    exact hReferred
      (.inr (.inl ⟨r, hr, List.mem_cons_self⟩))
      (congrArg Key.table (of_decide_eq_true hEq))
  · apply List.filter_eq_nil_iff.mpr
    intro r hr hEq
    exact hReferred
      (.inr (.inr (.inr ⟨r, hr, List.mem_cons_self⟩)))
      (congrArg Key.table (of_decide_eq_true hEq))

variable
  {ext : External}
  {catalog : SqlCatalog}
  {ident : TableIdent}
  {location : String}
  {schema : SchemaSpec}
  {properties : Option TableProperties}
  {draws : Draws}
  {db : Database}

/- The row of a new table with its head. -/
def createdRow
    (ext : External)
    (catalog : SqlCatalog)
    (ident : TableIdent)
    (location : String)
    (properties : TableProperties)
    (draws : Draws) : TableRow :=
  { newTableRow catalog ident location
      (ext.jsonToString properties.toJson) draws with
    currentSchemaUuid := some (draws.schemaUuid 0)
    currentTransactionId := some draws.transactionId }

/- The rows of `tables` after a creation. -/
theorem tables_createStatements
    (hFresh : Key.table draws.tableUuid ∉ db.keyList) :
    (sqlStore.apply db
        (createStatements ext catalog ident location schema
          (properties.getD {}) draws)).tables =
      db.tables ++
        [createdRow ext catalog ident location
          (properties.getD {}) draws] := by
  have hOld :
      db.tables.map
          (TableRow.initHead (draws.schemaUuid 0)
            draws.transactionId draws.tableUuid) =
        db.tables := by
    apply (List.map_congr_left _).trans (List.map_id _)
    intro r hr
    have hNe : r.tableUuid ≠ draws.tableUuid := by
      intro hEq
      exact hFresh
        (Database.mem_keyList_table.mpr ⟨r, hr, hEq⟩)
    simp [TableRow.initHead, hNe]
  simp only [createStatements, Store.apply_cons,
    Store.apply_nil, sqlStore_effect, Database.effect,
    List.map_append, hOld]
  simp [TableRow.initHead, newTableRow, createdRow]

/- The keys that a creation brings. -/
theorem createStatements_keys :
    Key.table draws.tableUuid ∈
      (createStatements ext catalog ident location schema
        (properties.getD {}) draws).flatMap
          Statement.keys ∧
    Key.schema (draws.schemaUuid 0) ∈
      (createStatements ext catalog ident location schema
        (properties.getD {}) draws).flatMap
          Statement.keys := by
  simp [createStatements, Statement.keys, TableRow.keys,
    newTableRow, SchemaRow.keys, SchemaContents.row,
    SchemaSpec.contents]

theorem schemas_createEntry
    (schema : SchemaSpec)
    (properties : Option TableProperties)
    (draws : Draws) :
    (createEntry schema properties draws).schemas =
      [schema.contents draws 0] := rfl

theorem schemaPoints_createEntry
    (schema : SchemaSpec)
    (properties : Option TableProperties)
    (draws : Draws) :
    History.schemaPoints
        [createEntry schema properties draws] =
      [(draws.transactionId, schema.contents draws 0)] :=
  rfl

/- What the database has of a new table. -/
theorem Tracked.create
    (hSound : db.Sound)
    (hSound' :
      (sqlStore.apply db
        (createStatements ext catalog ident location schema
          (properties.getD {}) draws)).Sound) :
    Tracked ext
      (sqlStore.apply db
        (createStatements ext catalog ident location schema
          (properties.getD {}) draws))
      (createdRow ext catalog ident location
        (properties.getD {}) draws)
      [createEntry schema properties draws] := by
  have hFreshTable :=
    hSound'.fresh _ createStatements_keys.1
  have hFreshSchema :=
    hSound'.fresh _ createStatements_keys.2
  rcases hSound.rowsOf_fresh hFreshTable with
    ⟨hTransactions, hSchemas, hFiles⟩
  have hColumns := hSound.columnsOf_fresh hFreshSchema
  unfold Database.transactionsOf at hTransactions
  unfold Database.schemasOf at hSchemas
  unfold Database.columnsOf at hColumns
  refine ⟨⟨?_, ?_, ?_, hFiles⟩, rfl, rfl, rfl⟩
  · change
      List.filter
        (fun row : TransactionRow =>
          row.tableUuid = draws.tableUuid)
        (db.transactions ++ [_]) = _
    rw [List.filter_append, hTransactions]
    simp [Entry.transactionRow, createEntry, createdRow,
      newTableRow]
  · change
      List.filter
        (fun row : SchemaRow =>
          row.tableUuid = draws.tableUuid)
        (db.schemas ++ [_]) = _
    rw [List.filter_append, hSchemas,
      schemaPoints_createEntry]
    simp [SchemaContents.row, schemaRows, succession,
      versionRow, createdRow, newTableRow,
      initialSchemaVersion]
    decide
  · intro p hp
    rw [schemaPoints_createEntry,
      List.mem_singleton] at hp
    subst hp
    change
      List.filter
        (fun row : ColumnRow =>
          row.schemaUuid = draws.schemaUuid 0)
        (db.columns ++ _) = _
    rw [List.filter_append, hColumns, List.nil_append]
    exact columnRows_filter_self
      (schema.contents draws 0)

/- What the database has of an older table. -/
theorem Tracked.create_other
    {other : TableRow}
    {k : History}
    (hOther : Tracked ext db other k)
    (hRow : other ∈ db.tables)
    (hSound' :
      (sqlStore.apply db
        (createStatements ext catalog ident location schema
          (properties.getD {}) draws)).Sound) :
    Tracked ext
      (sqlStore.apply db
        (createStatements ext catalog ident location schema
          (properties.getD {}) draws))
      other k := by
  have hTable : other.tableUuid ≠ draws.tableUuid := by
    intro hEq
    exact hSound'.fresh _ createStatements_keys.1
      (Database.mem_keyList_table.mpr ⟨other, hRow, hEq⟩)
  refine ⟨⟨?_, ?_, ?_, hOther.files⟩, hOther.head,
    hOther.schemaHead, hOther.properties⟩
  · rw [← hOther.transactions]
    change (db.transactions ++ [_]).filter _ = _
    rw [List.filter_append]
    simp [Database.transactionsOf, hTable.symm]
  · rw [← hOther.schemas]
    change (db.schemas ++ [_]).filter _ = _
    rw [List.filter_append]
    simp [Database.schemasOf, SchemaContents.row,
      hTable.symm]
  · intro p hp
    rw [← hOther.columns p hp]
    have hNe : draws.schemaUuid 0 ≠ p.2.schemaUuid := by
      intro hEq
      apply hSound'.fresh _ createStatements_keys.2
      rw [hEq]
      exact hOther.schemaKey hp
    change (db.columns ++ _).filter _ = _
    rw [List.filter_append, columnRows_filter_other hNe,
      List.append_nil]
    rfl

/- The laws of the history of a new table. -/
theorem Lawful.create
    (hValid : schema.validate = .ok ()) :
    Lawful ext [createEntry schema properties draws] where
  linked := rfl
  created := ⟨_, rfl, by simp [schemas_createEntry]⟩
  oneSchema := by
    intro e he
    rw [List.mem_singleton.mp he, schemas_createEntry]
    exact Nat.le_refl 1
  valid := by
    intro p hp
    rw [schemaPoints_createEntry,
      List.mem_singleton] at hp
    rw [hp, SchemaSpec.specs_contents]
    exact hValid
  evolves := by
    rw [schemaPoints_createEntry]
    exact List.isChain_singleton _

end Planar

------------------------------------------------------------
-- Every Call Keeps the Invariant
------------------------------------------------------------

namespace Planar

namespace World

variable {ext : External} {w : World}

theorem history_concat
    (w : World)
    (db : Database)
    (call : Call)
    (ident : TableIdent) :
    history ⟨db, w.calls ++ [call]⟩ ident =
      w.history ident ++
        if call.ident = ident then [call.entry] else [] := by
  simp only [history, List.filter_append, List.map_append]
  congr 1
  by_cases hIdent : call.ident = ident <;> simp [hIdent]

/- Nothing has been done to a table that is not there. -/
theorem Inv.history_of_absent
    {ident : TableIdent}
    (hInv : w.Inv ext)
    (hAbsent : w.database.findTable ident = none) :
    w.history ident = [] := by
  unfold history
  rw [List.map_eq_nil_iff, List.filter_eq_nil_iff]
  intro call hCall hEq
  rcases hInv.known call hCall with ⟨row, hRow, hIdent⟩
  have hNone := List.find?_eq_none.mp hAbsent row hRow
  apply hNone
  rw [hIdent]
  exact hEq

theorem inv_start : Inv ext {} where
  sound := Database.sound_empty
  tracked := by
    intro row hRow
    cases hRow
  lawful := by
    intro row hRow
    cases hRow
  known := by
    intro call hCall
    cases hCall
  stats := rfl

/- A successful creation keeps the invariant. -/
theorem Inv.create
    {call : CreateCall}
    {db' : Database}
    (hInv : w.Inv ext)
    (hSound' : db'.Sound)
    (hCreates :
      Creates ext call.catalog call.ident call.location
        call.schema call.properties call.draws
        w.database db') :
    Inv ext ⟨db', w.calls ++ [.create call]⟩ := by
  rcases hCreates.effect with rfl
  have hFresh := hSound'.fresh _ createStatements_keys.1
  have hTables :
      (sqlStore.apply w.database
          (createStatements ext call.catalog call.ident
            call.location call.schema
            (call.properties.getD {}) call.draws)).tables =
        w.database.tables ++
          [createdRow ext call.catalog call.ident
            call.location (call.properties.getD {})
            call.draws] :=
    tables_createStatements hFresh
  have hEmpty := hInv.history_of_absent hCreates.absent
  have hNew :
      history
          ⟨sqlStore.apply w.database
            (createStatements ext call.catalog call.ident
              call.location call.schema
              (call.properties.getD {}) call.draws),
            w.calls ++ [.create call]⟩ call.ident =
        [createEntry call.schema call.properties
          call.draws] := by
    rw [history_concat, hEmpty]
    simp [Call.ident, Call.entry]
  have hOld : ∀ row ∈ w.database.tables,
      history
          ⟨sqlStore.apply w.database
            (createStatements ext call.catalog call.ident
              call.location call.schema
              (call.properties.getD {}) call.draws),
            w.calls ++ [.create call]⟩ row.ident =
        w.history row.ident := by
    intro row hRow
    have hNe : call.ident ≠ row.ident := by
      intro hEq
      have hNone :=
        List.find?_eq_none.mp hCreates.absent row hRow
      simp [hEq] at hNone
    rw [history_concat]
    simp [Call.ident, hNe]
  constructor
  case sound => exact hSound'
  case stats => exact hInv.stats
  case tracked =>
    intro row hRow
    rw [hTables] at hRow
    rcases List.mem_append.mp hRow with hRow | hRow
    · rw [hOld row hRow]
      exact (hInv.tracked row hRow).create_other hRow
        hSound'
    · rw [List.mem_singleton] at hRow
      subst hRow
      exact hNew ▸ Tracked.create hInv.sound hSound'
  case lawful =>
    intro row hRow
    rw [hTables] at hRow
    rcases List.mem_append.mp hRow with hRow | hRow
    · rw [hOld row hRow]
      exact hInv.lawful row hRow
    · rw [List.mem_singleton] at hRow
      subst hRow
      exact hNew ▸ Lawful.create hCreates.valid
  case known =>
    intro other hOther
    rw [hTables]
    rcases List.mem_append.mp hOther with hOther | hOther
    · rcases hInv.known other hOther with
        ⟨row, hRow, hIdent⟩
      exact ⟨row, List.mem_append_left _ hRow, hIdent⟩
    · rw [List.mem_singleton] at hOther
      subst hOther
      exact ⟨_, List.mem_append_right _
        List.mem_cons_self, rfl⟩

/- A successful commit keeps the invariant. -/
theorem Inv.commit
    {call : CommitCall}
    {db' : Database}
    {row : TableRow}
    {properties : TableProperties}
    (hInv : w.Inv ext)
    (hSound' : db'.Sound)
    (hCommits :
      Commits ext call.catalog call.ident call.base
        call.mutation call.draws w.database db' row
        properties) :
    Inv ext ⟨db', w.calls ++ [.commit call]⟩ := by
  rcases hCommits.effect with rfl
  have hRow : row ∈ w.database.tables :=
    List.mem_of_find?_eq_some hCommits.found
  have hIdent : row.ident = call.ident := by
    simpa using List.find?_some hCommits.found
  have hTracked := hInv.tracked row hRow
  have hLawful := hInv.lawful row hRow
  have hOne :
      (commitEntry call.base call.mutation
        call.draws).schemas.length ≤ 1 :=
    precheck_oneSchema hCommits.checked
  have hProperties :
      properties =
        reread ext
          (storedProperties ext
            (w.history row.ident)) := by
    apply reread_of_ok
    rw [← hTracked.properties]
    exact hCommits.parsed
  have hHistory (other : TableRow) (db : Database) :
      history ⟨db, w.calls ++ [.commit call]⟩ other.ident =
        w.history other.ident ++
          if row.ident = other.ident then
            [commitEntry call.base call.mutation call.draws]
          else [] := by
    rw [history_concat, hIdent]
    rfl
  constructor
  case sound => exact hSound'
  case stats =>
    exact tableStats_commitStatements.trans hInv.stats
  case tracked =>
    intro new hNew
    rw [tables_commitStatements] at hNew
    rcases List.mem_map.mp hNew with ⟨old, hOld, rfl⟩
    rw [ident_advanceTo, hHistory]
    by_cases hTable : old.tableUuid = row.tableUuid
    · rcases hInv.sound.table_unique hOld hRow hTable with
        rfl
      rw [if_pos rfl]
      exact hTracked.commit hLawful hInv.sound hSound'
        hProperties hOne
    · have hNe : row.ident ≠ old.ident := by
        intro hEq
        rw [hInv.sound.ident_unique hRow hOld hEq]
          at hTable
        exact hTable rfl
      rw [if_neg hNe, List.append_nil,
        advanceTo_other hTable]
      exact hTracked.commit_other hLawful
        (hInv.tracked old hOld) hTable hInv.sound hSound'
        hOne
  case lawful =>
    intro new hNew
    rw [tables_commitStatements] at hNew
    rcases List.mem_map.mp hNew with ⟨old, hOld, rfl⟩
    rw [ident_advanceTo, hHistory]
    by_cases hIdentEq : row.ident = old.ident
    · rcases hInv.sound.ident_unique hRow hOld hIdentEq with
        rfl
      rw [if_pos rfl]
      exact hLawful.commit hTracked hInv.sound hCommits.head
        hCommits.checked hCommits.accepts
    · rw [if_neg hIdentEq, List.append_nil]
      exact hInv.lawful old hOld
  case known =>
    have hFind : ∀ old ∈ w.database.tables,
        ∃ new ∈ (sqlStore.apply w.database
            (commitStatements ext row properties
              (schemaHead row.currentSchemaUuid w.database)
              (commitEntry call.base call.mutation
                call.draws))).tables,
          new.ident = old.ident := by
      intro old hOld
      refine ⟨advanceTo ext row properties
        (commitEntry call.base call.mutation call.draws)
        old, ?_, by simp⟩
      rw [tables_commitStatements]
      exact List.mem_map_of_mem hOld
    intro other hOther
    rcases List.mem_append.mp hOther with hOther | hOther
    · rcases hInv.known other hOther with
        ⟨old, hOld, hOldIdent⟩
      rw [← hOldIdent]
      exact hFind old hOld
    · rw [List.mem_singleton] at hOther
      subst hOther
      rcases hFind row hRow with ⟨new, hNew, hNewIdent⟩
      exact ⟨new, hNew, hNewIdent.trans hIdent⟩

/- A failed call leaves the database as it was. -/
theorem perform_error
    {call : Call}
    {db db' : Database}
    {e : Fault}
    (hError : call.perform ext db = (.error e, db')) :
    db' = db := by
  cases call with
  | create call => exact runTransaction_error hError
  | commit call =>
      cases hCommit : Planar.commit ext call.catalog
          call.ident call.base call.mutation call.draws db
        with
      | mk result db₁ =>
          simp only [Call.perform, hCommit] at hError
          cases result with
          | ok r => cases hError
          | error e' =>
              rcases Prod.mk.inj hError with ⟨_, rfl⟩
              exact runTransaction_error hCommit

/- A commit that is performed is a successful `commit`. -/
theorem perform_commit_ok
    {call : CommitCall}
    {db db' : Database}
    {u : Unit}
    (hOk : (Call.commit call).perform ext db = (.ok u, db')) :
    ∃ r, Planar.commit ext call.catalog call.ident call.base
      call.mutation call.draws db = (.ok r, db') := by
  cases hCommit : Planar.commit ext call.catalog call.ident
      call.base call.mutation call.draws db with
  | mk result db₁ =>
      simp only [Call.perform, hCommit] at hOk
      cases result with
      | error e => cases hOk
      | ok r =>
          rcases Prod.mk.inj hOk with ⟨_, rfl⟩
          exact ⟨r, rfl⟩

/-
  All that one step can do: nothing, a creation or a
  commit.
-/
inductive Moves
    (ext : External)
    (w : World) : World → Prop
  | stays : Moves ext w w
  | creates {call : CreateCall} {db' : Database}
      (hSound : w.database.Sound → db'.Sound)
      (hCreates :
        Creates ext call.catalog call.ident call.location
          call.schema call.properties call.draws
          w.database db') :
      Moves ext w ⟨db', w.calls ++ [.create call]⟩
  | commits {call : CommitCall} {db' : Database}
      {row : TableRow} {properties : TableProperties}
      (hSound : w.database.Sound → db'.Sound)
      (hCommits :
        Commits ext call.catalog call.ident call.base
          call.mutation call.draws w.database db' row
          properties) :
      Moves ext w ⟨db', w.calls ++ [.commit call]⟩

theorem moves_perform
    (w : World)
    (call : Call) :
    Moves ext w (w.perform ext call) := by
  unfold World.perform
  cases hCall : call.perform ext w.database with
  | mk result db' =>
      cases result with
      | error e =>
          have hSame := perform_error hCall
          subst hSame
          exact .stays
      | ok u =>
          cases call with
          | create call =>
              refine .creates ?_ (createTable_ok hCall)
              intro hSound
              exact hSound.exec (runTransaction_ok.mp hCall)
          | commit call =>
              rcases perform_commit_ok hCall with
                ⟨r, hCommit⟩
              rcases (commit_ok hCommit).2 with
                ⟨row, properties, hCommits⟩
              refine .commits ?_ hCommits
              intro hSound
              exact hSound.exec (runTransaction_ok.mp hCommit)

/-
  A table that was created is referenced by its first
  transaction, so it is never dropped.
-/
theorem Inv.isReferenced
    {row : TableRow}
    (hInv : w.Inv ext)
    (hRow : row ∈ w.database.tables) :
    w.database.isReferenced row.tableUuid = true := by
  have hTransactions := (hInv.tracked row hRow).transactions
  rcases List.exists_mem_of_ne_nil _
    (hInv.lawful row hRow).nonempty with ⟨e, hEntry⟩
  have hMember :
      e.transactionRow row.tableUuid ∈
        w.database.transactionsOf row.tableUuid := by
    rw [hTransactions]
    exact List.mem_map_of_mem hEntry
  simp only [Database.transactionsOf, List.mem_filter]
    at hMember
  simp only [Database.isReferenced, Bool.or_eq_true,
    List.any_eq_true]
  exact .inl (.inl (.inl ⟨_, hMember⟩))

/- Dropping a table that exists meets its references. -/
theorem Inv.dropTable_eq
    {ident : TableIdent}
    {row : TableRow}
    (hInv : w.Inv ext)
    (hFind : w.database.findTable ident = some row) :
    dropTable ident w.database =
      (fault (.storage .foreignKeyViolation),
        w.database) := by
  have hRow : row ∈ w.database.tables :=
    List.mem_of_find?_eq_some hFind
  simp [dropTable, hFind, hInv.isReferenced hRow]

theorem Inv.drop_eq
    (hInv : w.Inv ext)
    (ident : TableIdent) :
    w.drop ident = w := by
  have hDatabase :
      (dropTable ident w.database).2 = w.database := by
    cases hFind : w.database.findTable ident with
    | none => simp [dropTable, hFind]
    | some row => rw [hInv.dropTable_eq hFind]
  unfold World.drop
  rw [hDatabase]

theorem Inv.moves
    {w' : World}
    (hInv : w.Inv ext)
    (hStep : Step ext w w') :
    Moves ext w w' := by
  rcases hStep with ⟨call, rfl⟩ | ⟨ident, rfl⟩
  · exact moves_perform w call
  · rw [hInv.drop_eq]
    exact .stays

/- Every step keeps the invariant. -/
theorem Inv.step
    {w' : World}
    (hInv : w.Inv ext)
    (hStep : Step ext w w') :
    w'.Inv ext := by
  cases hInv.moves hStep with
  | stays => exact hInv
  | creates hSound hCreates =>
      exact hInv.create (hSound hInv.sound) hCreates
  | commits hSound hCommits =>
      exact hInv.commit (hSound hInv.sound) hCommits

/- The invariant is kept by any number of steps. -/
theorem Inv.steps
    {w' : World}
    (hInv : w.Inv ext)
    (hSteps : Relation.ReflTransGen (Step ext) w w') :
    w'.Inv ext := by
  induction hSteps with
  | refl => exact hInv
  | tail _ hStep ih => exact ih.step hStep

/- The invariant holds in every reachable state. -/
theorem Reachable.inv
    (hReach : Reachable ext w) :
    w.Inv ext :=
  inv_start.steps hReach

end World

end Planar
