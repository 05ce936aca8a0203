import Planar.History.Acceptance
import Planar.History.GivenSchemas
import Planar.History.OwnCalls
import Planar.History.Versions
import Planar.Properties.TimeTravel
import Planar.Properties.Validation

/-
  Which calls the catalog accepts: the calls that succeeded
  before decide it, and nothing else that is stored.

  Main declarations:
    * `checkAgainstCurrent_iff`
    * `MutationOp.AcceptedBy`, `Tracked.admits_iff`
    * `World.Reachable.mem_keyList`
    * `Call.Admissible`, `World.Reachable.accepts_iff`
    * `World.Reachable.decides`
    * `acceptedCalls`, `World.logsAccepted`
    * `World.Reachable.appendsOnce`
-/

------------------------------------------------------------
-- The Evolution of a Schema
------------------------------------------------------------

namespace Planar

variable
  {ext : External}
  {db : Database}
  {h : History}

/- A schema of columns, with no values drawn for it. -/
def SchemaContents.ofColumns
    (columns : List ColumnSpec) : SchemaContents :=
  ⟨0, 0, columns.map fun column => (0, column)⟩

theorem SchemaContents.specs_ofColumns
    (columns : List ColumnSpec) :
    (ofColumns columns).specs = columns := by
  simp [ofColumns, specs, Function.comp_def]

/-
  The map of the stored columns holds the columns of the
  specifications that they encode.
-/
theorem currentColumns_encodes
    {rows : List ColumnRow}
    {specs : List ColumnSpec}
    {columns : ColumnMap}
    (hRows : List.Forall₂ (ColumnRow.Encodes ext) rows specs)
    (hReads : ∀ c ∈ specs, ext.ReadsType c.columnType) :
    ∃ columns', currentColumns ext columns rows =
        .ok columns' ∧
      ∀ name entry,
        columns'.lookup name = some entry →
          columns.lookup name = some entry ∨
            ∃ c ∈ specs, c.name = name ∧
              entry = (c.columnType, c.isNullable) := by
  induction hRows generalizing columns with
  | nil => exact ⟨columns, rfl, fun _ _ h => .inl h⟩
  | @cons row c rows specs hRow _ ih =>
      have hDecode :
          decodeDataType ext row.columnType =
            .ok c.columnType := by
        rw [hRow.columnType]
        exact decodeDataType_encodeDataType
          (hReads c List.mem_cons_self)
      rcases @ih
        (columns.insert row.columnName
          (c.columnType, row.isNullable))
        (fun d hd => hReads d (List.mem_cons_of_mem _ hd))
        with ⟨columns', hRest, hEntries⟩
      refine ⟨columns', ?_, ?_⟩
      · exact bind_ok.mpr ⟨c.columnType, hDecode, hRest⟩
      · intro name entry hLookup
        rcases hEntries name entry hLookup with
          hOld | ⟨d, hd, hName, hEntry⟩
        · by_cases hSame : name = row.columnName
          · subst hSame
            rw [AList.lookup_insert,
              Option.some.injEq] at hOld
            right
            refine ⟨c, List.mem_cons_self,
              hRow.columnName.symm, ?_⟩
            rw [← hOld, hRow.isNullable]
          · rw [AList.lookup_insert_ne hSame] at hOld
            exact .inl hOld
        · exact .inr
            ⟨d, List.mem_cons_of_mem _ hd, hName, hEntry⟩

theorem checkNoneDropped_of_subset
    {newNames existing : List String}
    (hAll : ∀ name ∈ existing, name ∈ newNames) :
    checkNoneDropped newNames existing = .ok () := by
  induction existing with
  | nil => rfl
  | cons first rest ih =>
      unfold checkNoneDropped
      rw [if_pos (hAll first List.mem_cons_self)]
      exact ih fun name hName =>
        hAll name (List.mem_cons_of_mem _ hName)

theorem checkEvolution_of_all
    {columns : ColumnMap}
    {newColumns : List ColumnSpec}
    (hAll : ∀ column ∈ newColumns,
      checkColumnEvolution ext columns column = .ok ()) :
    checkEvolution ext columns newColumns = .ok () := by
  induction newColumns with
  | nil => rfl
  | cons first rest ih =>
      exact bind_ok.mpr ⟨(), hAll first List.mem_cons_self,
        ih fun column hColumn =>
          hAll column (List.mem_cons_of_mem _ hColumn)⟩

/-
  The validation of a new schema against the stored columns
  accepts it exactly when it carries on all of them.
-/
theorem checkAgainstCurrent_iff
    {s : SchemaContents}
    {spec : SchemaSpec}
    (hReads : ∀ c ∈ s.specs, ext.ReadsType c.columnType)
    (hOld : (s.specs.map ColumnSpec.name).Nodup)
    (hNew : (spec.columns.map ColumnSpec.name).Nodup) :
    checkAgainstCurrent ext (s.columnRows ext) spec =
        .ok () ↔
      CarriedOn s.specs spec.columns := by
  have hRows := encodes_columnRows ext s
  constructor
  · intro hOk
    have hNames :
        ((s.columnRows ext).map
          ColumnRow.columnName).Nodup := by
      have hSame : (s.columnRows ext).map
          ColumnRow.columnName =
            s.specs.map ColumnSpec.name := by
        unfold SchemaContents.columnRows
        rw [map_mapIdx, SchemaContents.specs, List.map_map]
        exact mapIdx_const
          (fun column => column.2.name) s.columns
      rw [hSame]
      exact hOld
    have hSucceeds : Succeeds ext s
        (.ofColumns spec.columns) := by
      intro row hRow
      rw [SchemaContents.specs_ofColumns]
      exact checkAgainstCurrent_ok hOk hNames row hRow
    have hCarried := hSucceeds.carriedOn hReads
    rwa [SchemaContents.specs_ofColumns] at hCarried
  · intro hCarried
    rcases @currentColumns_encodes ext _ _ ∅ hRows hReads
      with ⟨columns, hColumns, hEntries⟩
    have hFrom {name : String}
        {entry : DataType × Bool}
        (hLookup : columns.lookup name = some entry) :
        ∃ c ∈ s.specs, c.name = name ∧
          entry = (c.columnType, c.isNullable) := by
      rcases hEntries name entry hLookup with hNone | hSome
      · rw [AList.lookup_empty] at hNone
        cases hNone
      · exact hSome
    have hDropped :
        checkNoneDropped (spec.columns.map ColumnSpec.name)
          columns.keys = .ok () := by
      apply checkNoneDropped_of_subset
      intro name hName
      rw [← AList.mem_keys, ← AList.lookup_isSome] at hName
      rcases Option.isSome_iff_exists.mp hName with
        ⟨entry, hLookup⟩
      rcases hFrom hLookup with ⟨c, hc, rfl, _⟩
      rcases hCarried c hc with ⟨d, hd, hEvolves⟩
      rw [← hEvolves.name]
      exact List.mem_map_of_mem hd
    have hEvolution :
        checkEvolution ext columns spec.columns =
          .ok () := by
      apply checkEvolution_of_all
      intro column hColumn
      cases hLookup : columns.lookup column.name with
      | none => simp [checkColumnEvolution, hLookup]
      | some entry =>
          rcases hFrom hLookup with ⟨c, hc, hName, rfl⟩
          rcases hCarried c hc with ⟨d, hd, hEvolves⟩
          have hSame : d = column :=
            List.inj_on_of_nodup_map hNew hd hColumn
              (hEvolves.name.trans hName)
          subst hSame
          have hNullable :
              ¬ (c.isNullable = true ∧
                ¬ d.isNullable = true) :=
            fun hBad => hBad.2 (hEvolves.isNullable hBad.1)
          simp only [checkColumnEvolution, hLookup,
            hEvolves.columnType, not_true_eq_false,
            if_false, if_neg hNullable]
    exact bind_ok.mpr ⟨columns, hColumns,
      bind_ok.mpr ⟨(), hDropped, hEvolution⟩⟩

------------------------------------------------------------
-- Values in Use
------------------------------------------------------------

/- The values that a call brings when it succeeds. -/
def Call.keys : Call → List Key
| .create call => call.keys
| .commit call => (Call.commit call).entry.keys

theorem Call.isValue_of_mem_keys
    {call : Call}
    {k : Key}
    (hKey : k ∈ call.keys) :
    k.isValue = true := by
  cases call with
  | create call =>
      rcases List.mem_cons.mp hKey with rfl | hEntry
      · rfl
      · exact Entry.isValue_of_mem_keys hEntry
  | commit call => exact Entry.isValue_of_mem_keys hKey

/- What statements bring, apart from names. -/
theorem mem_keyList_apply
    {statements : List Statement}
    {keys : List Key}
    {k : Key}
    (hKeys :
      (statements.flatMap Statement.keys).filter
        Key.isValue = keys)
    (hValue : k.isValue = true) :
    k ∈ (sqlStore.apply db statements).keyList ↔
      k ∈ db.keyList ∨ k ∈ keys := by
  refine (sqlStore.holds_apply db statements k).trans ?_
  rw [← hKeys, List.mem_filter]
  exact or_congr Iff.rfl (and_iff_left hValue).symm

/- The values in use are those of the successful calls. -/
theorem World.Reachable.mem_keyList
    {w : World}
    {k : Key}
    (hReach : w.Reachable ext)
    (hValue : k.isValue = true) :
    k ∈ w.database.keyList ↔ k ∈ w.calls.flatMap Call.keys := by
  induction hReach with
  | refl => simp [Database.keyList, Database.empty]
  | @tail w w' hSteps hStep ih =>
      have hInv := Reachable.inv hSteps
      cases hInv.moves hStep with
      | stays => exact ih
      | @creates call db' hSound hCreates =>
          rw [List.flatMap_append, List.mem_append, ← ih,
            hCreates.effect]
          refine (mem_keyList_apply
            (call.filter_keys_createStatements ext)
            hValue).trans (or_congr Iff.rfl ?_)
          simp [Call.keys]
      | @commits call db' row properties hSound hCommits =>
          rw [List.flatMap_append, List.mem_append, ← ih,
            hCommits.effect]
          refine (mem_keyList_apply
            (filter_keys_commitStatements ext row properties
              _ _) hValue).trans (or_congr Iff.rfl ?_)
          simp [Call.keys, Call.entry]

------------------------------------------------------------
-- Admissible Operations
------------------------------------------------------------

/- The text of a value is short enough to be stored. -/
def Json.Fits (ext : External) (value : Json) : Prop :=
  asU32 (ext.jsonToString value).utf8ByteSize ≤
    maxJsonSizeBytes

theorem serializeJson_iff
    {value : Json} :
    (∃ text, serializeJson ext value = .ok text) ↔
      value.Fits ext := by
  unfold Json.Fits
  constructor
  · rintro ⟨text, hOk⟩
    rcases serializeJson_ok hOk with ⟨rfl, hSize⟩
    unfold checkJsonSize at hSize
    split at hSize
    · cases hSize
    · omega
  · intro hFits
    refine ⟨ext.jsonToString value,
      bind_ok.mpr ⟨(), ?_, rfl⟩⟩
    exact if_neg (Nat.not_lt.mpr hFits)

theorem serializeJsonOptional_iff
    {value : Option Json} :
    (∃ text, serializeJsonOptional ext value = .ok text) ↔
      ∀ v ∈ value, v.Fits ext := by
  cases value with
  | none => exact iff_of_true ⟨none, rfl⟩ nofun
  | some v =>
      simp only [Option.mem_def, Option.some.injEq,
        forall_eq', ← serializeJson_iff]
      constructor
      · rintro ⟨text, hOk⟩
        rcases bind_ok.mp hOk with ⟨t, hText, _⟩
        exact ⟨t, hText⟩
      · rintro ⟨t, hText⟩
        exact ⟨some t, bind_ok.mpr ⟨t, hText, rfl⟩⟩

/- A well formed file whose values fit in their texts. -/
structure FileSpec.Acceptable
    (ext : External)
    (f : FileSpec) : Prop where
  wellFormed : f.WellFormed ext
  partitionValues : ∀ value ∈ f.partitionValues,
    value.Fits ext
  formatOptions : ∀ value ∈ f.formatOptions,
    value.Fits ext

theorem FileSpec.storable_iff
    {f : FileSpec} :
    f.Storable ext ↔ f.Acceptable ext := by
  constructor
  · intro hStorable
    exact ⟨validate_iff.mp hStorable.valid,
      serializeJsonOptional_iff.mp
        hStorable.partitionValues,
      serializeJsonOptional_iff.mp hStorable.formatOptions⟩
  · intro hAcceptable
    exact ⟨validate_iff.mpr hAcceptable.wellFormed,
      serializeJsonOptional_iff.mpr
        hAcceptable.partitionValues,
      serializeJsonOptional_iff.mpr
        hAcceptable.formatOptions⟩

/-
  A table with this history takes the operation.  A new
  schema must carry on all columns of the current one.
-/
def MutationOp.AcceptedBy
    (ext : External)
    (h : History) : MutationOp → Prop
| .appendFiles files =>
    asU32 files.length ≤ maxFilesPerAppend ∧
      ∀ f ∈ files, f.Acceptable ext
| .deleteFiles fileUuids =>
    asU32 fileUuids.length ≤ maxFilesPerDelete
| .updateSchema spec =>
    spec.WellFormed ∧ ∃ s, h.schema = some s ∧
      CarriedOn s.specs spec.columns
| .setProperties _ => True
| .removeProperties keys =>
    asU32 keys.length ≤ maxPropertyKeysToRemove

/- The stored rows decide as the history does. -/
theorem Tracked.admits_iff
    {row : TableRow}
    {operation : MutationOp}
    (hTracked : Tracked ext db row h)
    (hSound : db.Sound)
    (hLawful : Lawful ext h)
    (hReads : h.ReadsTypes ext) :
    Admits ext row.currentSchemaUuid db operation ↔
      operation.AcceptedBy ext h := by
  have hNoFiles (hNone : operation.files = []) :
      Admits ext row.currentSchemaUuid db operation ↔
        Accepts ext row.currentSchemaUuid db operation :=
    ⟨Admits.accepts, fun hAccepts =>
      ⟨hAccepts, by simp [hNone]⟩⟩
  cases operation with
  | appendFiles files =>
      constructor
      · intro hAdmits
        exact ⟨hAdmits.accepts.1, fun f hFile =>
          FileSpec.storable_iff.mp
            (hAdmits.storable f hFile)⟩
      · rintro ⟨hLimit, hFiles⟩
        have hStorable : ∀ f ∈ files, f.Storable ext :=
          fun f hFile =>
            FileSpec.storable_iff.mpr (hFiles f hFile)
        exact ⟨⟨hLimit, fun f hFile =>
          (hStorable f hFile).valid⟩, hStorable⟩
  | deleteFiles fileUuids => exact hNoFiles rfl
  | setProperties properties => exact hNoFiles rfl
  | removeProperties keys => exact hNoFiles rfl
  | updateSchema spec =>
      rw [hNoFiles rfl]
      rcases hLawful.lastSchema with ⟨last, hLast⟩
      have hPoint := List.mem_of_getLast? hLast
      have hHead :=
        (hTracked.schemaHead_eq hSound hLast).1
      have hVersion :=
        hTracked.fetchSchemaVersion hSound hLast
      have hSchema : h.schema = some last.2 := by
        rw [History.schema, hLast]
        rfl
      have hNames :=
        (SchemaSpec.validate_ok
          (hLawful.valid last hPoint)).2.2
      have hColumns := hTracked.columns last hPoint
      constructor
      · rintro ⟨hValid, current, version, hCurrent, _,
          hCheck⟩
        rw [hHead, Option.some.injEq] at hCurrent
        subst hCurrent
        rw [hColumns, checkAgainstCurrent_iff
          (hReads last hPoint) hNames
          (SchemaSpec.validate_ok hValid).2.2] at hCheck
        exact ⟨SchemaSpec.validate_iff.mp hValid, last.2,
          hSchema, hCheck⟩
      · rintro ⟨hForm, s, hCurrent, hCarried⟩
        rw [hSchema, Option.some.injEq] at hCurrent
        subst hCurrent
        refine ⟨SchemaSpec.validate_iff.mpr hForm, _, _,
          hHead, hVersion, ?_⟩
        rw [hColumns, checkAgainstCurrent_iff
          (hReads last hPoint) hNames hForm.distinct]
        exact hCarried

------------------------------------------------------------
-- Admissible Calls
------------------------------------------------------------

/- The calls of a list on one table, in order. -/
def tableCalls
    (calls : List Call)
    (ident : TableIdent) : List Call :=
  calls.filter fun call => call.ident = ident

/- What they did to the table. -/
def tableHistory
    (calls : List Call)
    (ident : TableIdent) : History :=
  (tableCalls calls ident).map Call.entry

/- A call adds its entry to the history of its table. -/
theorem tableHistory_concat_self
    (calls : List Call)
    (call : Call) :
    tableHistory (calls ++ [call]) call.ident =
      tableHistory calls call.ident ++ [call.entry] := by
  unfold tableHistory tableCalls
  rw [List.filter_append, List.map_append,
    List.filter_singleton, decide_eq_true rfl]
  rfl

/-
  A creation that is accepted after these calls: the table
  is not there, and the values are new.
-/
structure CreateCall.Admissible
    (ext : External)
    (calls : List Call)
    (call : CreateCall) : Prop where
  wellFormed : call.schema.WellFormed
  absent : tableCalls calls call.ident = []
  fits : (call.properties.getD {}).toJson.Fits ext
  distinct : call.keys.Nodup
  fresh : ∀ k ∈ call.keys, k ∉ calls.flatMap Call.keys

/-
  A commit that is accepted after these calls: the client is
  new enough for the creator of the table, the base is the
  last transaction of the table, the stored properties can
  be read and the new ones are not too long, every operation
  fits the history, and the values are new.
-/
structure CommitCall.Admissible
    (ext : External)
    (calls : List Call)
    (call : CommitCall) : Prop where
  wellFormed : call.mutation.WellFormed
  writer : ∃ create,
    (tableCalls calls call.ident).head? =
        some (.create create) ∧
      create.catalog.writerVersion ≤
        call.catalog.writerVersion
  base :
    (tableHistory calls call.ident).ids.getLast? =
      some call.base
  readable : ∃ properties,
    parseTableProperties ext
      (some (ext.jsonToString
        (storedProperties ext
          (tableHistory calls call.ident)).toJson)) =
      .ok properties
  accepted : ∀ operation ∈ call.mutation.operations,
    operation.AcceptedBy ext (tableHistory calls call.ident)
  fits :
    (storedProperties ext
      (tableHistory calls call.ident ++
        [(Call.commit call).entry])).toJson.Fits ext
  distinct : (Call.commit call).keys.Nodup
  fresh : ∀ k ∈ (Call.commit call).keys,
    k ∉ calls.flatMap Call.keys

/- A call that is accepted after these calls. -/
def Call.Admissible
    (ext : External)
    (calls : List Call) : Call → Prop
| .create call => call.Admissible ext calls
| .commit call => call.Admissible ext calls

theorem Call.Admissible.fresh
    {calls : List Call}
    {call : Call}
    (hAdmissible : call.Admissible ext calls) :
    ∀ k ∈ call.keys, k ∉ calls.flatMap Call.keys := by
  cases call with
  | create call => exact CreateCall.Admissible.fresh hAdmissible
  | commit call => exact CommitCall.Admissible.fresh hAdmissible

/- A call only asks for its own table and for new values. -/
theorem Call.Admissible.of_table
    {earlier before : List Call}
    {call : Call}
    (hAdmissible : call.Admissible ext earlier)
    (hTable :
      tableCalls earlier call.ident =
        tableCalls before call.ident)
    (hFresh :
      ∀ k ∈ call.keys, k ∉ before.flatMap Call.keys) :
    call.Admissible ext before := by
  cases call with
  | create call =>
      constructor
      case wellFormed => exact hAdmissible.wellFormed
      case absent => exact hTable ▸ hAdmissible.absent
      case fits => exact hAdmissible.fits
      case distinct => exact hAdmissible.distinct
      case fresh => exact hFresh
  | commit call =>
      have hHistory :
          tableHistory earlier call.ident =
            tableHistory before call.ident :=
        congrArg (List.map Call.entry) hTable
      constructor
      case wellFormed => exact hAdmissible.wellFormed
      case writer =>
        rcases hAdmissible.writer with
          ⟨create, hHead, hVersion⟩
        exact ⟨create, hTable ▸ hHead, hVersion⟩
      case base => exact hHistory ▸ hAdmissible.base
      case readable => exact hHistory ▸ hAdmissible.readable
      case accepted => exact hHistory ▸ hAdmissible.accepted
      case fits => exact hHistory ▸ hAdmissible.fits
      case distinct => exact hAdmissible.distinct
      case fresh => exact hFresh

theorem ensureWriterProtocolCompatible_ok
    {catalog : SqlCatalog}
    {ident : TableIdent}
    {requiredMinVersion : Int}
    {u : Unit} :
    catalog.ensureWriterProtocolCompatible ident
        requiredMinVersion = .ok u ↔
      requiredMinVersion ≤ catalog.writerVersion := by
  unfold SqlCatalog.ensureWriterProtocolCompatible
  split
  · refine iff_of_false ?_ (by omega)
    intro hOk
    cases hOk
  · exact iff_of_true rfl (by omega)

/- A property of all values says the same of both lists. -/
theorem World.Reachable.fresh_iff
    {w : World}
    {keys : List Key}
    (hReach : w.Reachable ext)
    (hValues : ∀ k ∈ keys, k.isValue = true) :
    (∀ k ∈ keys, k ∉ w.database.keyList) ↔
      ∀ k ∈ keys, k ∉ w.calls.flatMap Call.keys :=
  forall₂_congr fun k hKey =>
    not_congr (hReach.mem_keyList (hValues k hKey))

/- A table is there when it has calls. -/
theorem World.Reachable.findTable_none
    {w : World}
    {ident : TableIdent}
    (hReach : w.Reachable ext) :
    w.database.findTable ident = none ↔
      tableCalls w.calls ident = [] := by
  rw [hReach.findTable]
  constructor
  · intro hNone
    by_contra hSome
    rcases hReach.inv.findTable_of_calls hSome with
      ⟨row, hRow⟩
    rw [hReach.findTable, hNone] at hRow
    cases hRow
  · intro hNone
    change rowOf ext (tableCalls w.calls ident) = none
    rw [hNone]
    rfl

theorem World.Reachable.accepts_create
    {w : World}
    {call : CreateCall}
    (hReach : w.Reachable ext) :
    (∃ u, ((Call.create call).perform ext
        w.database).1 = .ok u) ↔
      call.Admissible ext w.calls := by
  rw [CreateCall.perform_iff hReach.inv.sound,
    SchemaSpec.validate_iff, hReach.findTable_none,
    CreateCall.Fits, serializeJson_iff]
  have hFresh := hReach.fresh_iff fun k hKey =>
    (Call.create call).isValue_of_mem_keys hKey
  constructor
  · rintro ⟨hForm, hAbsent, hFits, hDistinct, hNew⟩
    exact ⟨hForm, hAbsent, hFits, hDistinct,
      hFresh.mp hNew⟩
  · intro h
    exact ⟨h.wellFormed, h.absent, h.fits, h.distinct,
      hFresh.mpr h.fresh⟩

/- The result of a commit, without the transaction id. -/
theorem Call.perform_commit_iff
    {call : CommitCall} :
    (∃ u, ((Call.commit call).perform ext db).1 = .ok u) ↔
      ∃ r, (Planar.commit ext call.catalog call.ident
        call.base call.mutation call.draws db).1 =
          .ok r := by
  dsimp only [Call.perform]
  cases (Planar.commit ext call.catalog call.ident
    call.base call.mutation call.draws db).1 with
  | ok r => exact iff_of_true ⟨(), rfl⟩ ⟨r, rfl⟩
  | error e =>
      refine iff_of_false ?_ ?_
      · rintro ⟨u, hOk⟩
        cases hOk
      · rintro ⟨r, hOk⟩
        cases hOk

/- A table that is there has a history and a creation. -/
theorem World.Reachable.of_findTable
    {w : World}
    {ident : TableIdent}
    {row : TableRow}
    (hReach : w.Reachable ext)
    (hFound : w.database.findTable ident = some row) :
    Tracked ext w.database row
        (tableHistory w.calls ident) ∧
      Lawful ext (tableHistory w.calls ident) ∧
      ∃ create, (tableCalls w.calls ident).head? =
          some (.create create) ∧
        row.minWriterVersion =
          create.catalog.writerVersion := by
  rcases Database.findTable_some hFound with ⟨hRow, hIdent⟩
  subst hIdent
  rcases hReach.created row hRow with
    ⟨create, hHead, hFixed⟩
  exact ⟨hReach.inv.tracked row hRow,
    hReach.inv.lawful row hRow, create, hHead,
    congrArg TableRow.minWriterVersion hFixed⟩

/- The head of a table has a row. -/
theorem Tracked.head_mem
    {row : TableRow}
    {base : TxnId}
    (hTracked : Tracked ext db row h)
    (hHead : row.currentTransactionId = some base) :
    Key.transaction base ∈ db.keyList := by
  rw [hTracked.head] at hHead
  rcases List.mem_map.mp (List.mem_of_getLast? hHead) with
    ⟨e, hEntry, rfl⟩
  have hRow : e.transactionRow row.tableUuid ∈
      db.transactionsOf row.tableUuid := by
    rw [hTracked.transactions]
    exact List.mem_map_of_mem hEntry
  exact Database.mem_keyList_transaction.mpr
    ⟨_, (List.mem_filter.mp hRow).1, rfl⟩

/- The new properties are those of the longer history. -/
theorem Tracked.staged_toJson
    {row : TableRow}
    {properties : TableProperties}
    (hTracked : Tracked ext db row h)
    (hParsed :
      parseTableProperties ext row.properties =
        .ok properties)
    (e : Entry) :
    (stagedBy row properties e.changes).properties =
      storedProperties ext (h ++ [e]) := by
  rw [hTracked.properties] at hParsed
  rw [stagedBy, foldl_stage_properties,
    storedProperties_concat, ← reread_of_ok hParsed]

theorem World.Reachable.admissible_of_admitted
    {w : World}
    {call : CommitCall}
    {row : TableRow}
    {properties : TableProperties}
    (hReach : w.Reachable ext)
    (hReads : (w.history call.ident).ReadsTypes ext)
    (hAdmitted :
      Admitted ext call.catalog call.ident call.base
        call.mutation call.draws w.database row
        properties) :
    call.Admissible ext w.calls := by
  rcases hReach.of_findTable hAdmitted.found with
    ⟨hTracked, hLawful, create, hHead, hVersion⟩
  have hParsed := hAdmitted.parsed
  have hWriter :=
    ensureWriterProtocolCompatible_ok.mp hAdmitted.writer
  rw [hVersion] at hWriter
  constructor
  case wellFormed =>
    exact precheck_iff.mp hAdmitted.checked
  case writer => exact ⟨create, hHead, hWriter⟩
  case base =>
    exact hTracked.head.symm.trans hAdmitted.head
  case readable =>
    rw [hTracked.properties] at hParsed
    exact ⟨properties, hParsed⟩
  case accepted =>
    intro operation hOperation
    exact (hTracked.admits_iff hReach.inv.sound hLawful
      hReads).mp (hAdmitted.admits operation hOperation)
  case fits =>
    have hText := serializeJson_iff.mp hAdmitted.text
    rwa [hTracked.staged_toJson hParsed] at hText
  case distinct => exact hAdmitted.distinct
  case fresh =>
    exact (hReach.fresh_iff fun k hKey =>
      (Call.commit call).isValue_of_mem_keys hKey).mp
        hAdmitted.fresh

theorem World.Reachable.admitted_of_admissible
    {w : World}
    {call : CommitCall}
    (hReach : w.Reachable ext)
    (hReads : (w.history call.ident).ReadsTypes ext)
    (hAdmissible : call.Admissible ext w.calls) :
    ∃ row properties,
      Admitted ext call.catalog call.ident call.base
        call.mutation call.draws w.database row
        properties := by
  rcases hAdmissible.writer with ⟨first, hFirst, hWriter⟩
  rcases hAdmissible.readable with ⟨properties, hParsed⟩
  have hSome : tableCalls w.calls call.ident ≠ [] := by
    intro hNone
    rw [hNone] at hFirst
    cases hFirst
  rcases hReach.inv.findTable_of_calls hSome with
    ⟨row, hFound⟩
  rcases hReach.of_findTable hFound with
    ⟨hTracked, hLawful, create, hHead, hVersion⟩
  rw [hFirst, Option.some.injEq, Call.create.injEq] at hHead
  subst hHead
  rw [← hTracked.properties] at hParsed
  refine ⟨row, properties, ?_⟩
  constructor
  case found => exact hFound
  case checked =>
    exact precheck_iff.mpr hAdmissible.wellFormed
  case parsed => exact hParsed
  case writer =>
    rw [ensureWriterProtocolCompatible_ok, hVersion]
    exact hWriter
  case head => exact hTracked.head.trans hAdmissible.base
  case admits =>
    intro operation hOperation
    exact (hTracked.admits_iff hReach.inv.sound hLawful
      hReads).mpr
        (hAdmissible.accepted operation hOperation)
  case text =>
    rw [hTracked.staged_toJson hParsed, serializeJson_iff]
    exact hAdmissible.fits
  case distinct => exact hAdmissible.distinct
  case fresh =>
    exact (hReach.fresh_iff fun k hKey =>
      (Call.commit call).isValue_of_mem_keys hKey).mpr
        hAdmissible.fresh

theorem World.Reachable.accepts_commit
    {w : World}
    {call : CommitCall}
    (hReach : w.Reachable ext)
    (hReads : (w.history call.ident).ReadsTypes ext) :
    (∃ u, ((Call.commit call).perform ext
        w.database).1 = .ok u) ↔
      call.Admissible ext w.calls := by
  have hBase (row : TableRow)
      (hFound :
        w.database.findTable call.ident = some row)
      (hHead : row.currentTransactionId = some call.base) :
      Key.transaction call.base ∈ w.database.keyList :=
    (hReach.of_findTable hFound).1.head_mem hHead
  rw [Call.perform_commit_iff,
    commit_admitted_iff hReach.inv.sound hBase]
  constructor
  · rintro ⟨row, properties, hAdmitted⟩
    exact hReach.admissible_of_admitted hReads hAdmitted
  · exact hReach.admitted_of_admissible hReads

/-
  A call is accepted exactly when it is admissible after the
  calls that were accepted before.
-/
theorem World.Reachable.accepts_iff
    {w : World}
    {call : Call}
    (hReach : w.Reachable ext)
    (hReads : (w.history call.ident).ReadsTypes ext) :
    (∃ u, (call.perform ext w.database).1 = .ok u) ↔
      call.Admissible ext w.calls := by
  cases call with
  | create call => exact hReach.accepts_create
  | commit call => exact hReach.accepts_commit hReads

------------------------------------------------------------
-- The Log of Accepted Calls
------------------------------------------------------------

open Classical in
/- The calls that are accepted, each after those before. -/
noncomputable def acceptedCalls
    (ext : External)
    (calls : List Call) : List Call :=
  calls.foldl
    (fun accepted call =>
      if call.Admissible ext accepted then
        accepted ++ [call]
      else accepted)
    []

theorem acceptedCalls_concat
    {calls : List Call}
    {call : Call} :
    (call.Admissible ext (acceptedCalls ext calls) ∧
      acceptedCalls ext (calls ++ [call]) =
        acceptedCalls ext calls ++ [call]) ∨
    (¬ call.Admissible ext (acceptedCalls ext calls) ∧
      acceptedCalls ext (calls ++ [call]) =
        acceptedCalls ext calls) := by
  by_cases hCall :
    call.Admissible ext (acceptedCalls ext calls)
  · refine .inl ⟨hCall, ?_⟩
    rw [acceptedCalls, List.foldl_concat]
    exact if_pos hCall
  · refine .inr ⟨hCall, ?_⟩
    rw [acceptedCalls, List.foldl_concat]
    exact if_neg hCall

theorem acceptedCalls_sublist
    (ext : External)
    (calls : List Call) :
    (acceptedCalls ext calls).Sublist calls := by
  induction calls using List.reverseRecOn with
  | nil => exact .slnil
  | append_singleton calls call ih =>
      rcases @acceptedCalls_concat ext calls call with
        ⟨_, hEq⟩ | ⟨_, hEq⟩
      · rw [hEq]
        exact ih.append (.refl _)
      · rw [hEq]
        exact ih.trans (List.sublist_append_left _ _)

/- The types of the schemas of a call are read back. -/
def Call.ReadsTypes (ext : External) (call : Call) : Prop :=
  ∀ spec ∈ call.givenSchemas, ∀ column ∈ spec.columns,
    ext.ReadsType column.columnType

theorem World.readsTypes_of_callsOn
    {w : World}
    {ident : TableIdent}
    (hReads : ∀ call ∈ w.callsOn ident,
      call.ReadsTypes ext) :
    (w.history ident).ReadsTypes ext := by
  intro p hPoint column hColumn
  have hSpecs : p.2.specs ∈
      (w.givenSchemas ident).map SchemaSpec.columns := by
    rw [← w.specs_schemaPoints]
    exact List.mem_map_of_mem hPoint
  rcases List.mem_map.mp hSpecs with ⟨spec, hSpec, hEq⟩
  rcases List.mem_flatMap.mp hSpec with
    ⟨call, hCall, hGiven⟩
  rw [← hEq] at hColumn
  exact hReads call hCall spec hGiven column hColumn

theorem World.readsTypes
    {w : World}
    (hReads : ∀ call ∈ w.calls, call.ReadsTypes ext)
    (ident : TableIdent) :
    (w.history ident).ReadsTypes ext :=
  readsTypes_of_callsOn fun call hCall =>
    hReads call (List.mem_filter.mp hCall).1

/- A call is recorded when it succeeds. -/
theorem World.perform_cases
    (w : World)
    (call : Call) :
    ((∃ u, (call.perform ext w.database).1 = .ok u) ∧
      (w.perform ext call).calls = w.calls ++ [call]) ∨
    ((¬ ∃ u, (call.perform ext w.database).1 = .ok u) ∧
      w.perform ext call = w) := by
  unfold World.perform
  cases hCall : call.perform ext w.database with
  | mk result db' =>
      cases result with
      | ok u => exact .inl ⟨⟨u, rfl⟩, rfl⟩
      | error e =>
          refine .inr ⟨?_, ?_⟩
          · rintro ⟨u, hOk⟩
            cases hOk
          · rw [perform_error hCall]

/- Failed calls and attempts to drop leave nothing. -/
theorem World.Reachable.eq_run
    {w : World}
    (hReach : w.Reachable ext) :
    w = World.run ext w.calls := by
  induction hReach with
  | refl => rfl
  | @tail w w' hSteps hStep ih =>
      rcases hStep with ⟨call, rfl⟩ | ⟨ident, rfl⟩
      · rcases @World.perform_cases ext w call with
          ⟨_, hCalls⟩ | ⟨_, hSame⟩
        · rw [hCalls, World.run_concat, ← ih]
        · rw [hSame]
          exact ih
      · rw [(Reachable.inv hSteps).drop_eq]
        exact ih

/-
  The calls that were accepted before decide a call: when it
  is admissible after them, it succeeds and is recorded, and
  otherwise it fails and leaves everything as it is.
-/
theorem World.Reachable.decides
    {w : World}
    (hReach : w.Reachable ext)
    (call : Call)
    (hReads : (w.history call.ident).ReadsTypes ext) :
    (call.Admissible ext w.calls →
      (∃ u, (call.perform ext w.database).1 = .ok u) ∧
        (w.perform ext call).calls = w.calls ++ [call]) ∧
    (¬ call.Admissible ext w.calls →
      (∃ e, (call.perform ext w.database).1 = .error e) ∧
        w.perform ext call = w) := by
  have hAccepts := hReach.accepts_iff hReads
  rcases @World.perform_cases ext w call with
    ⟨hOk, hCalls⟩ | ⟨hError, hSame⟩
  · exact ⟨fun _ => ⟨hOk, hCalls⟩, fun hOut =>
      absurd (hAccepts.mp hOk) hOut⟩
  · refine ⟨fun hIn => absurd (hAccepts.mpr hIn) hError,
      fun _ => ⟨?_, hSame⟩⟩
    cases hResult : (call.perform ext w.database).1 with
    | ok u => exact absurd ⟨u, hResult⟩ hError
    | error e => exact ⟨e, rfl⟩

theorem decides_sample :
    let call := sampleCommit 4 3 [.deleteFiles [7]]
    (call.Admissible sampleExternal sampleWorld.calls →
      (∃ u, (call.perform sampleExternal
        sampleWorld.database).1 = .ok u) ∧
          (sampleWorld.perform sampleExternal call).calls =
            sampleWorld.calls ++ [call]) ∧
    (¬ call.Admissible sampleExternal sampleWorld.calls →
      (∃ e, (call.perform sampleExternal
        sampleWorld.database).1 = .error e) ∧
          sampleWorld.perform sampleExternal call =
            sampleWorld) :=
  (World.reachable_run sampleExternal
    sampleCalls).decides _ (by decide +kernel)

/-
  The log of accepted calls can be computed from the calls
  alone, and the state of the database is that of performing
  the accepted calls.
-/
theorem World.logsAccepted
    {calls : List Call}
    (hReads : ∀ call ∈ calls, call.ReadsTypes ext) :
    (World.run ext calls).calls =
        acceptedCalls ext calls ∧
      World.run ext calls =
        World.run ext (acceptedCalls ext calls) := by
  have hLog :
      (World.run ext calls).calls =
        acceptedCalls ext calls := by
    induction calls using List.reverseRecOn with
    | nil => rfl
    | append_singleton calls call ih =>
        have hBefore := ih fun other hOther =>
          hReads other (List.mem_append_left _ hOther)
        have hTypes : ((World.run ext calls).history
            call.ident).ReadsTypes ext := by
          refine World.readsTypes (fun other hOther => ?_) _
          rw [hBefore] at hOther
          exact hReads other (List.mem_append_left _
            ((acceptedCalls_sublist ext calls).mem hOther))
        have hAccepts :=
          (World.reachable_run ext calls).accepts_iff hTypes
        rw [hBefore] at hAccepts
        rw [World.run_concat]
        rcases @World.perform_cases ext
            (World.run ext calls) call with
          ⟨hOk, hCalls⟩ | ⟨hError, hSame⟩ <;>
        rcases @acceptedCalls_concat ext calls call with
          ⟨hIn, hEq⟩ | ⟨hOut, hEq⟩
        · rw [hCalls, hEq, hBefore]
        · exact absurd (hAccepts.mp hOk) hOut
        · exact absurd (hAccepts.mpr hIn) hError
        · rw [hSame, hEq, hBefore]
  refine ⟨hLog, ?_⟩
  rw [← hLog]
  exact (World.reachable_run ext calls).eq_run

instance
    (ext : External)
    (call : Call) : Decidable (call.ReadsTypes ext) :=
  inferInstanceAs (Decidable
    (∀ spec ∈ call.givenSchemas,
      ∀ column ∈ spec.columns,
        ext.fbToSchema
            (ext.schemaToFb
              [.mk "_" column.columnType true []]) =
          .ok [.mk "_" column.columnType true []]))

theorem logsAccepted_sample :
    (World.run sampleExternal sampleCalls).calls =
        acceptedCalls sampleExternal sampleCalls ∧
      World.run sampleExternal sampleCalls =
        World.run sampleExternal
          (acceptedCalls sampleExternal sampleCalls) :=
  World.logsAccepted (by decide +kernel)

------------------------------------------------------------
-- Files That Are Given Their UUIDs
------------------------------------------------------------

/- The file UUIDs among the arguments of a call. -/
def Call.givenFiles : Call → List Uuid
| .create _ => []
| .commit call =>
    call.mutation.operations.flatMap fun operation =>
      operation.files.filterMap FileSpec.fileUuid

theorem Call.givenFiles_sublist
    (call : Call) :
    (call.givenFiles.map Key.file).Sublist call.keys := by
  have hFiles (fresh : Nat → Uuid) (start : Nat)
      (files : List FileSpec) :
      ((files.filterMap FileSpec.fileUuid).map
          Key.file).Sublist
        (files.mapIdx fun i f =>
          Key.file (f.fileUuid.getD
            (fresh (start + i)))) := by
    induction files generalizing start with
    | nil => exact .slnil
    | cons f rest ih =>
        have hRest := ih (start + 1)
        simp only [Nat.add_assoc, Nat.add_comm 1] at hRest
        rw [List.mapIdx_cons, List.filterMap_cons]
        cases f.fileUuid with
        | none => exact hRest.cons _
        | some u => exact hRest.cons_cons _
  have hChanges (draws : Draws) (op : Nat)
      (operations : List MutationOp) :
      ((operations.flatMap fun operation =>
          operation.files.filterMap
            FileSpec.fileUuid).map Key.file).Sublist
        ((changesFrom draws op operations).flatMap
          Change.keys) := by
    induction operations generalizing op with
    | nil => exact .slnil
    | cons operation rest ih =>
        rw [List.flatMap_cons, List.map_append, changesFrom,
          List.flatMap_cons]
        refine List.Sublist.append ?_ (ih _)
        cases operation with
        | appendFiles files =>
            have hOne := hFiles (draws.fileUuid op) 0 files
            simp only [Nat.zero_add] at hOne
            simp only [MutationOp.change, Change.keys,
              map_mapIdx]
            exact hOne
        | _ => exact List.nil_sublist _
  cases call with
  | create call => exact List.nil_sublist _
  | commit call => exact (hChanges _ _ _).cons _

/- The values of the accepted calls are all distinct. -/
theorem World.Reachable.nodup_keys
    {w : World}
    (hReach : w.Reachable ext) :
    (w.calls.flatMap Call.keys).Nodup := by
  induction hReach with
  | refl => exact List.nodup_nil
  | @tail w w' hSteps hStep ih =>
      have hInv := Reachable.inv hSteps
      have hNext {call : Call}
          (hKeys : call.keys.Nodup ∧
            ∀ k ∈ call.keys, k ∉ w.database.keyList) :
          ((w.calls ++ [call]).flatMap
            Call.keys).Nodup := by
        rw [List.flatMap_append, List.flatMap_singleton]
        refine ih.append hKeys.1 ?_
        intro k hOld hNew
        exact hKeys.2 k hNew ((Reachable.mem_keyList hSteps
          (call.isValue_of_mem_keys hNew)).mpr hOld)
      cases hInv.moves hStep with
      | stays => exact ih
      | @creates call db' hSound hCreates =>
          have hSound' := hSound hInv.sound
          rw [hCreates.effect] at hSound'
          exact hNext (hSound'.fresh_values
            (call.filter_keys_createStatements ext))
      | @commits call db' row properties hSound hCommits =>
          have hSound' := hSound hInv.sound
          rw [hCommits.effect] at hSound'
          exact hNext (hSound'.fresh_values
            (filter_keys_commitStatements ext row properties
              _ _))

/-
  A file with a UUID of its own is appended at most once: no
  two successful calls give the same UUID, and a call that
  gives it again fails, in every later state, and changes
  nothing.
-/
theorem World.Reachable.appendsOnce
    {w : World}
    (hReach : w.Reachable ext) :
    (w.calls.flatMap Call.givenFiles).Nodup ∧
      ∀ call : Call,
        (∃ u ∈ call.givenFiles,
          u ∈ w.calls.flatMap Call.givenFiles) →
            ∃ e, call.perform ext w.database =
              (.error e, w.database) := by
  have hSublist (calls : List Call) :
      ((calls.flatMap Call.givenFiles).map
        Key.file).Sublist (calls.flatMap Call.keys) := by
    induction calls with
    | nil => exact .slnil
    | cons call rest ih =>
        rw [List.flatMap_cons, List.flatMap_cons,
          List.map_append]
        exact call.givenFiles_sublist.append ih
  constructor
  · exact (hReach.nodup_keys.sublist
      (hSublist w.calls)).of_map _
  · rintro call ⟨u, hGiven, hUsed⟩
    cases hCall : call.perform ext w.database with
    | mk result db' =>
        cases result with
        | error e =>
            rw [perform_error hCall]
            exact ⟨e, rfl⟩
        | ok done =>
            have hLater :
                World.Reachable ext
                  ⟨db', w.calls ++ [call]⟩ := by
              refine .tail hReach (.inl ⟨call, ?_⟩)
              simp only [World.perform, hCall]
            have hNodup := hLater.nodup_keys
            rw [List.flatMap_append, List.flatMap_singleton]
              at hNodup
            have hOld := (hSublist w.calls).mem
              (List.mem_map_of_mem hUsed)
            have hNew := call.givenFiles_sublist.mem
              (List.mem_map_of_mem hGiven)
            exact absurd rfl ((List.nodup_append.mp
              hNodup).2.2 _ hOld _ hNew)

/- A commit that appends a file under its own UUID. -/
def sampleNamed (n base : Nat) : Call :=
  sampleCommit n base
    [.appendFiles [{ sampleFile with fileUuid := some 7 }]]

/- The same file is appended once more, with a new base. -/
theorem appendsOnce_sample :
    let w := World.run sampleExternal
      [sampleCreate 1, sampleNamed 2 1]
    w.calls.length = 2 ∧
      ∃ e, (sampleNamed 3 2).perform sampleExternal
        w.database = (.error e, w.database) := by
  refine ⟨by decide +kernel, ?_⟩
  exact (World.reachable_run sampleExternal
    [sampleCreate 1, sampleNamed 2 1]).appendsOnce.2 _
      ⟨7, by decide +kernel, by decide +kernel⟩

end Planar
