import Planar.History.Writers

/-
  A creation with a valid schema and fresh draws is
  accepted where its table does not exist.

  Main declarations:
    * `CreateCall.FreshIn`
    * `exec_insertColumns_of_fresh`
    * `CreateCall.exec_inserts`
    * `CreateCall.addedTo`
    * `World.run_create`
-/

------------------------------------------------------------
-- Fresh Draws
------------------------------------------------------------

namespace Planar

variable
  {ext : External}
  {call : CreateCall}
  {db v : Database}

/-
  The values that a creation draws are used nowhere in the
  database, and its columns draw distinct ones.
-/
structure CreateCall.FreshIn
    (call : CreateCall)
    (db : Database) : Prop where
  table : Key.table call.draws.tableUuid ∉ db.keyList
  transaction :
    Key.transaction call.draws.transactionId ∉ db.keyList
  schema :
    Key.schema (call.draws.schemaUuid 0) ∉ db.keyList
  columns : ∀ i < call.schema.columns.length,
    Key.column (call.draws.columnUuid 0 i) ∉ db.keyList
  distinct : ∀ i < call.schema.columns.length,
    ∀ j < call.schema.columns.length,
      call.draws.columnUuid 0 i =
        call.draws.columnUuid 0 j → i = j

/- A schema that is not there has no named columns. -/
theorem Database.Sound.columnName_fresh
    (hSound : db.Sound)
    {schemaUuid : Uuid}
    (hFresh : Key.schema schemaUuid ∉ db.keyList)
    (name : String) :
    Key.columnName schemaUuid name ∉ db.keyList := by
  intro hKey
  have hColumn : ∃ row ∈ db.columns,
      row.schemaUuid = schemaUuid := by
    simp only [keyList, List.mem_append,
      List.mem_flatMap] at hKey
    rcases hKey with ⟨r, hr, hk⟩ | ⟨r, hr, hk⟩ |
      ⟨r, hr, hk⟩ | ⟨r, hr, hk⟩ | ⟨r, hr, hk⟩
    · simp [TableRow.keys] at hk
    · simp [TransactionRow.keys] at hk
    · simp [SchemaRow.keys] at hk
    · simp only [ColumnRow.keys, List.mem_cons,
        reduceCtorEq, List.not_mem_nil, or_false,
        false_or, Key.columnName.injEq] at hk
      exact ⟨r, hr, hk.1.symm⟩
    · simp [FileRow.keys] at hk
  rcases hColumn with ⟨row, hRow, rfl⟩
  apply hFresh
  apply hSound.references
  simp only [referenceList, List.mem_append,
    List.mem_flatMap]
  exact .inr (.inr (.inl ⟨row, hRow, by
    simp [ColumnRow.references]⟩))

------------------------------------------------------------
-- Inserting the Columns
------------------------------------------------------------

/- The keys of columns with distinct UUIDs and names. -/
theorem nodup_keys_columnRows
    {schemaUuid : Uuid}
    {columnUuid : Nat → Uuid}
    {columns : List ColumnSpec}
    (hNames : (columns.map ColumnSpec.name).Nodup)
    (hDistinct : ∀ i < columns.length,
      ∀ j < columns.length,
        columnUuid i = columnUuid j → i = j) :
    ((columnRows ext schemaUuid columnUuid 0
      columns).flatMap ColumnRow.keys).Nodup := by
  apply List.nodup_flatMap.mpr
  constructor
  · intro row _
    simp [ColumnRow.keys]
  · apply List.pairwise_iff_getElem.mpr
    intro i j hi hj hLess k hKey hKey'
    unfold columnRows at hi hj hKey hKey'
    rw [List.length_mapIdx] at hi hj
    simp only [List.getElem_mapIdx, ColumnRow.keys,
      Nat.zero_add, List.mem_cons, List.not_mem_nil,
      or_false] at hKey hKey'
    rcases hKey with rfl | rfl
    · rcases hKey' with hEq | hEq
      · have hSame := hDistinct i hi j hj
          (Key.column.inj hEq)
        omega
      · cases hEq
    · rcases hKey' with hEq | hEq
      · cases hEq
      · have hName := (Key.columnName.inj hEq).2
        have hOther := List.pairwise_iff_getElem.mp hNames
          i j (by simpa using hi) (by simpa using hj) hLess
        exact absurd (by simpa using hName) hOther

/- Columns with fresh keys pass the checks. -/
theorem check_insertColumns
    {schemaUuid : Uuid}
    {columnUuid : Nat → Uuid}
    {start : Nat}
    {columns : List ColumnSpec}
    (hSchema : Key.schema schemaUuid ∈ v.keyList)
    (hFresh : ∀ k ∈ (columnRows ext schemaUuid columnUuid
        start columns).flatMap ColumnRow.keys,
      k ∉ v.keyList)
    (hNodup : ((columnRows ext schemaUuid columnUuid
      start columns).flatMap ColumnRow.keys).Nodup) :
    v.check (.insertColumns (columnRows ext schemaUuid
      columnUuid start columns)) = .ok () := by
  refine Database.check_ok.mpr ⟨hFresh, hNodup, ?_⟩
  intro k hKey
  rcases List.mem_flatMap.mp hKey with ⟨row, hRow, hRefers⟩
  rw [ColumnRow.references, List.mem_singleton] at hRefers
  have hUuid : row.schemaUuid = schemaUuid := by
    unfold columnRows at hRow
    rcases List.mem_mapIdx.mp hRow with ⟨i, hi, rfl⟩
    rfl
  rw [hRefers, hUuid]
  exact hSchema

/- The columns of a creation with fresh keys. -/
theorem exec_insertColumns_of_fresh
    {kind : DbKind}
    {schemaUuid : Uuid}
    {columnUuid : Nat → Uuid}
    {columns : List ColumnSpec}
    (hSchema : Key.schema schemaUuid ∈ v.keyList)
    (hFresh : ∀ k ∈ (columnRows ext schemaUuid columnUuid 0
        columns).flatMap ColumnRow.keys,
      k ∉ v.keyList)
    (hNodup : ((columnRows ext schemaUuid columnUuid 0
      columns).flatMap ColumnRow.keys).Nodup) :
    ∃ v', (insertColumns ext kind schemaUuid columnUuid
      columns).exec sqlStore v = .ok ((), v') :=
  ⟨_, exec_insertColumns.mpr
    ⟨check_insertColumns hSchema hFresh hNodup, rfl⟩⟩

------------------------------------------------------------
-- Creating the Table
------------------------------------------------------------

/- A statement that passes its check is executed. -/
theorem exec_bind_execute
    {α : Type}
    {s : Statement}
    {rest : Unit → CatalogTx α}
    (hCheck : v.check s = .ok ())
    (hRest : ∃ r, (rest ()).exec sqlStore (v.effect s) =
      .ok r) :
    ∃ r, (Tx.execute s >>= rest).exec sqlStore v =
      .ok r := by
  rcases hRest with ⟨r, hRest⟩
  exact ⟨r, Tx.exec_bind_ok.mpr ⟨(), _,
    Tx.exec_execute_ok.mpr ⟨hCheck, rfl⟩, hRest⟩⟩

/- The inserts of a creation with fresh draws succeed. -/
theorem CreateCall.exec_inserts
    {text : String}
    (hSound : db.Sound)
    (hFresh : call.FreshIn db)
    (hAbsent : Key.tableIdent call.ident ∉ db.keyList)
    (hValid : call.schema.validate = .ok ()) :
    ∃ r, (call.inserts ext text).exec sqlStore db =
      .ok r := by
  have hName := hSound.columnName_fresh hFresh.schema
  have hHolds (s : Statement) (v : Database) (k : Key) :
      k ∈ (v.effect s).keyList ↔
        k ∈ v.keyList ∨ k ∈ s.keys :=
    sqlStore.holds_effect s v k
  have hTable : Database.check db (.insertTable
      (newTableRow call.catalog call.ident call.location
        text call.draws)) = .ok () := by
    refine Database.check_ok.mpr ⟨?_, ?_, ?_⟩
    · intro k hKey
      simp only [Statement.keys, TableRow.keys,
        List.mem_cons, List.not_mem_nil, or_false] at hKey
      rcases hKey with rfl | rfl
      · exact hFresh.table
      · exact hAbsent
    · simp [Statement.keys, TableRow.keys]
    · intro k hKey
      cases hKey
  refine exec_bind_execute hTable ?_
  generalize hOne : db.effect _ = v₁
  have hKeys₁ (k : Key) : k ∈ v₁.keyList ↔
      k ∈ db.keyList ∨ k = .table call.draws.tableUuid ∨
        k = .tableIdent call.ident := by
    rw [← hOne, hHolds]
    simp [Statement.keys, TableRow.keys, newTableRow,
      TableRow.ident]
  refine exec_bind_execute (Database.check_ok.mpr
    ⟨?_, ?_, ?_⟩) ?_
  · simp [Statement.keys, TransactionRow.keys, hKeys₁,
      hFresh.transaction]
  · simp [Statement.keys, TransactionRow.keys]
  · simp [Statement.references, TransactionRow.references,
      hKeys₁]
  generalize hTwo : v₁.effect _ = v₂
  have hKeys₂ (k : Key) : k ∈ v₂.keyList ↔
      k ∈ v₁.keyList ∨
        k = .transaction call.draws.transactionId := by
    rw [← hTwo, hHolds]
    simp [Statement.keys, TransactionRow.keys]
  refine exec_bind_execute (Database.check_ok.mpr
    ⟨?_, ?_, ?_⟩) ?_
  · simp [Statement.keys, SchemaRow.keys, hKeys₂, hKeys₁,
      hFresh.schema]
  · simp [Statement.keys, SchemaRow.keys]
  · simp [Statement.references, SchemaRow.references,
      hKeys₂, hKeys₁]
  generalize hThree : v₂.effect _ = v₃
  have hKeys₃ (k : Key) : k ∈ v₃.keyList ↔
      k ∈ v₂.keyList ∨
        k = .schema (call.draws.schemaUuid 0) := by
    rw [← hThree, hHolds]
    simp [Statement.keys, SchemaRow.keys]
  have hColumns : ∃ v₄, (insertColumns ext
      call.catalog.kind (call.draws.schemaUuid 0)
      (call.draws.columnUuid 0)
      call.schema.columns).exec sqlStore v₃ =
        .ok ((), v₄) := by
    apply exec_insertColumns_of_fresh
      ((hKeys₃ _).mpr (.inr rfl))
    · intro k hKey
      rcases List.mem_flatMap.mp hKey with ⟨row, hRow, hKey⟩
      rcases List.mem_mapIdx.mp hRow with ⟨i, hi, rfl⟩
      simp only [ColumnRow.keys, Nat.zero_add,
        List.mem_cons, List.not_mem_nil, or_false] at hKey
      rcases hKey with rfl | rfl
      · simpa [hKeys₃, hKeys₂, hKeys₁] using
          hFresh.columns i hi
      · simpa [hKeys₃, hKeys₂, hKeys₁] using hName _
    · exact nodup_keys_columnRows
        (SchemaSpec.validate_ok hValid).2.2 hFresh.distinct
  rcases hColumns with ⟨v₄, hInserted⟩
  have hHead : v₄.check (.initTableHead
      (call.draws.schemaUuid 0) call.draws.transactionId
      call.draws.tableUuid) = .ok () := by
    refine Database.check_ok.mpr ⟨?_, List.nodup_nil, ?_⟩
    · exact fun k hKey => by cases hKey
    · exact fun k hKey => by cases hKey
  exact ⟨((), _), Tx.exec_bind_ok.mpr ⟨(), v₄, hInserted,
    Tx.exec_execute_ok.mpr ⟨hHead, rfl⟩⟩⟩

/- The inserts are refused when the name is taken. -/
theorem CreateCall.exec_inserts_of_taken
    {text : String}
    (hUsed : Key.tableIdent call.ident ∈ db.keyList) :
    (call.inserts ext text).exec sqlStore db =
      .error (.returned (.storage .uniqueViolation)) := by
  have hCheck : db.check (.insertTable
      (newTableRow call.catalog call.ident call.location
        text call.draws)) =
      .error (.returned (.storage .uniqueViolation)) := by
    unfold Database.check
    refine if_pos (.inl ⟨_, ?_, hUsed⟩)
    simp [Statement.keys, TableRow.keys, newTableRow,
      TableRow.ident]
  exact Tx.exec_stage_of_error hCheck

/- On SQLite the check and the inserts see the same rows. -/
theorem CreateCall.exec_tx
    (hKind : call.catalog.kind = .sqlite)
    (hValid : call.schema.validate = .ok ()) :
    (call.tx ext).exec sqlStore db =
      (call.afterCheck ext
        (db.findTable call.ident).isSome).exec
          sqlStore db := by
  rw [CreateCall.tx_of_valid hValid, hKind]
  rfl

theorem CreateCall.exec_tx_of_found
    (hKind : call.catalog.kind = .sqlite)
    (hValid : call.schema.validate = .ok ())
    (hFound : (db.findTable call.ident).isSome) :
    (call.tx ext).exec sqlStore db =
      .error (.returned (.conflict
        ("table already exists: " ++
          call.ident.toText))) := by
  rw [call.exec_tx hKind hValid, hFound]
  unfold afterCheck
  rw [hKind]
  rfl

theorem CreateCall.exec_tx_of_absent
    (hKind : call.catalog.kind = .sqlite)
    (hValid : call.schema.validate = .ok ())
    (hFits : call.Fits ext)
    (hSound : db.Sound)
    (hFresh : call.FreshIn db)
    (hAbsent : db.findTable call.ident = none) :
    ∃ r, (call.tx ext).exec sqlStore db = .ok r := by
  rcases hFits with ⟨text, hText⟩
  have hUnused : Key.tableIdent call.ident ∉ db.keyList := by
    intro hUsed
    rcases Database.mem_keyList_tableIdent.mp hUsed with
      ⟨row, hRow, hIdent⟩
    rw [← hIdent, hSound.findTable hRow] at hAbsent
    cases hAbsent
  rw [call.exec_tx hKind hValid, hAbsent]
  unfold afterCheck
  rw [hKind]
  change ∃ r, (Tx.lift (serializeJson ext
    (call.properties.getD {}).toJson) >>= fun text =>
      call.inserts ext text).exec sqlStore db = .ok r
  rw [hText]
  exact call.exec_inserts hSound hFresh hUnused hValid

------------------------------------------------------------
-- The Rows of a Creation
------------------------------------------------------------

/- The row of `tables` that a creation makes. -/
def CreateCall.createdRow
    (ext : External)
    (call : CreateCall) : TableRow :=
  Planar.createdRow ext call.catalog call.ident
    call.location (call.properties.getD {}) call.draws

/- The database with the rows of a creation. -/
def CreateCall.addedTo
    (ext : External)
    (call : CreateCall)
    (db : Database) : Database :=
  { db with
    tables := db.tables ++ [call.createdRow ext]
    transactions := db.transactions ++
      [{ transactionId := call.draws.transactionId
         tableUuid := call.draws.tableUuid
         transactionTimestamp := call.draws.now
         parentTransactionId := none }]
    schemas := db.schemas ++
      [{ schemaUuid := call.draws.schemaUuid 0
         tableUuid := call.draws.tableUuid
         schemaVersion := initialSchemaVersion
         validFromTransactionId := call.draws.transactionId
         validToTransactionId := none
         createdAt := call.draws.now }]
    columns := db.columns ++
      columnRows ext (call.draws.schemaUuid 0)
        (call.draws.columnUuid 0) 0 call.schema.columns }

/- The new table is the one row of its name. -/
theorem CreateCall.tables_addedTo
    (hAbsent : db.findTable call.ident = none) :
    ((call.addedTo ext db).tables.filter fun row =>
        row.ident = call.ident) =
      [call.createdRow ext] := by
  have hNone : (db.tables.filter fun row =>
      row.ident = call.ident) = [] :=
    List.filter_eq_nil_iff.mpr
      (List.find?_eq_none.mp hAbsent)
  unfold addedTo
  rw [List.filter_append, hNone, List.nil_append]
  exact List.filter_eq_self.mpr fun row hRow => by
    rw [List.mem_singleton.mp hRow]
    exact decide_eq_true rfl

theorem CreateCall.findTable_addedTo
    (hAbsent : db.findTable call.ident = none) :
    (call.addedTo ext db).findTable call.ident =
      some (call.createdRow ext) := by
  have hTables :
      ((call.addedTo ext db).tables.filter fun row =>
          row.ident = call.ident) =
        [call.createdRow ext] :=
    call.tables_addedTo hAbsent
  have hHead := congrArg List.head? hTables
  rw [List.head?_filter] at hHead
  exact hHead

theorem CreateCall.apply_createStatements
    (hFresh : Key.table call.draws.tableUuid ∉ db.keyList) :
    sqlStore.apply db
        (createStatements ext call.catalog call.ident
          call.location call.schema
          (call.properties.getD {}) call.draws) =
      call.addedTo ext db := by
  unfold addedTo CreateCall.createdRow
  rw [← tables_createStatements hFresh,
    ← SchemaSpec.columnRows_contents]
  rfl

/- A first creation that fits succeeds. -/
theorem World.run_create
    (hKind : call.catalog.kind = .sqlite)
    (hValid : call.schema.validate = .ok ())
    (hFits : call.Fits ext)
    (hDistinct : ∀ i < call.schema.columns.length,
      ∀ j < call.schema.columns.length,
        call.draws.columnUuid 0 i =
          call.draws.columnUuid 0 j → i = j) :
    World.run ext [.create call] =
      ⟨call.addedTo ext Database.empty, [.create call]⟩ := by
  have hFresh : call.FreshIn Database.empty := by
    constructor
    case distinct => exact hDistinct
    all_goals simp [Database.keyList, Database.empty]
  rcases call.exec_tx_of_absent hKind hValid hFits
      Database.sound_empty hFresh rfl with ⟨⟨u, db⟩, hOk⟩
  have hPerform :
      Call.perform ext (.create call) Database.empty =
        (.ok u, db) :=
    runTransaction_ok.mpr hOk
  have hEffect := (createTable_ok hPerform).effect
  rw [call.apply_createStatements hFresh.table] at hEffect
  change World.perform ext {} (.create call) = _
  unfold World.perform
  rw [hPerform, hEffect]
  rfl

end Planar
