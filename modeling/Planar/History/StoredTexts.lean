import Planar.History.Progress

/-
  Every JSON text in the database was made by serializing
  some value within the size limit.

  Main declarations:
    * `Database.jsonTexts`, `Statement.jsonTexts`
    * `Serialized`
    * `World.Reachable.serialized`
-/

------------------------------------------------------------
-- JSON Texts of Rows and Statements
------------------------------------------------------------

namespace Planar

def TableRow.jsonTexts (row : TableRow) : List String :=
  row.properties.toList

def FileRow.jsonTexts (row : FileRow) : List String :=
  row.partitionValues.toList ++ row.formatOptions.toList

/- All JSON texts that the database holds. -/
def Database.jsonTexts (db : Database) : List String :=
  db.tables.flatMap TableRow.jsonTexts ++
    db.files.flatMap FileRow.jsonTexts

/- The JSON texts that a statement writes. -/
def Statement.jsonTexts : Statement → List String
| .insertTable row => row.jsonTexts
| .insertFiles rows => rows.flatMap FileRow.jsonTexts
| .advanceTableHead _ _ properties _ => [properties]
| _ => []

/- Texts that stand for values within the size limit. -/
def Serialized
    (ext : External)
    (texts : List String) : Prop :=
  ∀ text ∈ texts, ∃ value,
    serializeJson ext value = .ok text

/- A statement adds at most its own texts. -/
theorem Database.mem_jsonTexts_effect
    {db : Database}
    {s : Statement}
    {text : String}
    (hText : text ∈ (db.effect s).jsonTexts) :
    text ∈ db.jsonTexts ∨ text ∈ s.jsonTexts := by
  cases s with
  | insertTable row =>
      simp only [jsonTexts, effect, List.flatMap_append,
        List.flatMap_singleton, List.mem_append] at *
      tauto
  | insertTransaction row => exact .inl hText
  | insertSchema row => exact .inl hText
  | insertColumns rows => exact .inl hText
  | insertFiles rows =>
      simp only [jsonTexts, effect, List.flatMap_append,
        List.mem_append, Statement.jsonTexts] at *
      tauto
  | markFilesRemoved transactionId tableUuid fileUuids =>
      left
      have hSame : ∀ row : FileRow,
          (row.markRemoved transactionId tableUuid
            fileUuids).jsonTexts = row.jsonTexts := by
        intro row
        unfold FileRow.markRemoved
        split <;> rfl
      simpa [jsonTexts, effect, List.flatMap_map, hSame]
        using hText
  | closeSchema transactionId schemaUuid => exact .inl hText
  | initTableHead schemaUuid transactionId tableUuid =>
      left
      have hSame : ∀ row : TableRow,
          (row.initHead schemaUuid transactionId
            tableUuid).jsonTexts = row.jsonTexts := by
        intro row
        unfold TableRow.initHead
        split <;> rfl
      simpa [jsonTexts, effect, List.flatMap_map, hSame]
        using hText
  | advanceTableHead transactionId schemaUuid properties
      tableUuid =>
      simp only [jsonTexts, effect, List.mem_append,
        List.flatMap_map, Statement.jsonTexts] at *
      rcases hText with hTable | hFile
      · rcases List.mem_flatMap.mp hTable with
          ⟨row, hRow, hIn⟩
        unfold TableRow.advanceHead at hIn
        split at hIn
        · right
          simpa [TableRow.jsonTexts] using hIn
        · exact .inl (.inl (List.mem_flatMap.mpr
            ⟨row, hRow, hIn⟩))
      · exact .inl (.inr hFile)

theorem Serialized.apply
    {ext : External}
    {db : Database}
    {statements : List Statement}
    (hOld : Serialized ext db.jsonTexts)
    (hNew : ∀ s ∈ statements,
      Serialized ext s.jsonTexts) :
    Serialized ext
      (sqlStore.apply db statements).jsonTexts := by
  induction statements generalizing db with
  | nil => exact hOld
  | cons s rest ih =>
      rw [Store.apply_cons]
      apply ih
      · intro text hText
        rcases Database.mem_jsonTexts_effect hText with
          hBefore | hBrought
        · exact hOld text hBefore
        · exact hNew s List.mem_cons_self text hBrought
      · exact fun t ht =>
          hNew t (List.mem_cons_of_mem _ ht)

------------------------------------------------------------
-- The Statements of a Call
------------------------------------------------------------

/- The statement writes serialized texts only. -/
def Statement.IsSerialized
    (ext : External)
    (s : Statement) : Prop :=
  Serialized ext s.jsonTexts

theorem Statement.isSerialized_of_none
    {ext : External}
    {s : Statement}
    (hNone : s.jsonTexts = []) :
    s.IsSerialized ext := by
  intro text hText
  rw [hNone] at hText
  cases hText

section Calls

variable {ext : External}

theorem stages_insertColumns
    (kind : DbKind)
    (schemaUuid : Uuid)
    (columnUuid : Nat → Uuid)
    (columns : List ColumnSpec) :
    Tx.StagesOnly (Statement.IsSerialized ext)
      (insertColumns ext kind schemaUuid columnUuid
        columns) := by
  have hChunks : ∀ size index pieces,
      Tx.StagesOnly (Statement.IsSerialized ext)
        (insertColumnChunks ext schemaUuid columnUuid size
          index pieces) := by
    intro size index pieces
    induction pieces generalizing index with
    | nil => exact trivial
    | cons chunk rest ih =>
        exact (Tx.stagesOnly_execute
          (Statement.isSerialized_of_none rfl)).bind
            fun _ => ih (index + 1)
  exact hChunks ..

theorem serialized_optional
    {value : Option Json}
    {text : Option String}
    (hOk : serializeJsonOptional ext value = .ok text) :
    Serialized ext text.toList := by
  cases value with
  | none =>
      rw [← Except.ok.inj hOk]
      intro t ht
      cases ht
  | some v =>
      rcases bind_ok.mp hOk with ⟨t, hText, hSome⟩
      rw [← Except.ok.inj hSome]
      intro t' ht'
      rcases List.mem_singleton.mp ht' with rfl
      exact ⟨v, hText⟩

theorem serialized_fileRow
    {tableUuid : Uuid}
    {transactionId : TxnId}
    {fresh : Uuid}
    {f : FileSpec}
    {row : FileRow}
    (hOk :
      fileRow ext tableUuid transactionId fresh f =
        .ok row) :
    Serialized ext row.jsonTexts := by
  rcases bind_ok.mp hOk with ⟨_, _, hOk⟩
  rcases bind_ok.mp hOk with ⟨partition, hPartition, hOk⟩
  rcases bind_ok.mp hOk with ⟨format, hFormat, hRow⟩
  rw [← Except.ok.inj hRow]
  intro text hText
  rcases List.mem_append.mp hText with hIn | hIn
  · exact serialized_optional hPartition text hIn
  · exact serialized_optional hFormat text hIn

theorem serialized_fileRows
    {tableUuid : Uuid}
    {transactionId : TxnId}
    {fileUuid : Nat → Uuid}
    {start : Nat}
    {files : List FileSpec}
    {rows : List FileRow}
    (hOk :
      fileRows ext tableUuid transactionId fileUuid start
        files = .ok rows) :
    Serialized ext (rows.flatMap FileRow.jsonTexts) := by
  induction files generalizing start rows with
  | nil =>
      rw [← Except.ok.inj hOk]
      intro text hText
      cases hText
  | cons f rest ih =>
      rcases bind_ok.mp hOk with ⟨row, hRow, hOk⟩
      rcases bind_ok.mp hOk with ⟨rows', hRows, hCons⟩
      rw [← Except.ok.inj hCons]
      intro text hText
      rw [List.flatMap_cons] at hText
      rcases List.mem_append.mp hText with hIn | hIn
      · exact serialized_fileRow hRow text hIn
      · exact ih hRows text hIn

theorem stages_insertFileChunks
    (tableUuid : Uuid)
    (transactionId : TxnId)
    (fileUuid : Nat → Uuid)
    (start : Nat)
    (pieces : List (List FileSpec)) :
    Tx.StagesOnly (Statement.IsSerialized ext)
      (insertFileChunks ext tableUuid transactionId fileUuid
        start pieces) := by
  induction pieces generalizing start with
  | nil => exact trivial
  | cons chunk rest ih =>
      apply Tx.stagesOnly_lift_bind
      intro rows hRows
      have hTexts : Statement.IsSerialized ext
          (.insertFiles rows) :=
        serialized_fileRows hRows
      exact (Tx.stagesOnly_execute hTexts).bind
        fun _ => ih _

theorem stages_markFileChunks
    (tableUuid : Uuid)
    (transactionId : TxnId)
    (pieces : List (List Uuid)) :
    Tx.StagesOnly (Statement.IsSerialized ext)
      (markFileChunks tableUuid transactionId pieces) := by
  induction pieces with
  | nil => exact trivial
  | cons chunk rest ih =>
      exact (Tx.stagesOnly_execute
        (Statement.isSerialized_of_none rfl)).bind
          fun _ => ih

theorem stages_updateSchema
    (ctx : CommitContext)
    (op : Nat)
    (spec : SchemaSpec) :
    Tx.StagesOnly (Statement.IsSerialized ctx.ext)
      (updateSchema ctx op spec) := by
  apply Tx.stagesOnly_lift_bind
  intro _ _
  cases ctx.currentSchemaUuid with
  | none => exact trivial
  | some current =>
      refine (Tx.stagesOnly_select _).bind fun fetched => ?_
      refine Tx.StagesOnly.bind trivial fun version => ?_
      refine (Tx.stagesOnly_select _).bind fun rows => ?_
      refine Tx.StagesOnly.bind trivial fun _ => ?_
      refine (Tx.stagesOnly_execute
        (Statement.isSerialized_of_none rfl)).bind
          fun _ => ?_
      refine (Tx.stagesOnly_execute
        (Statement.isSerialized_of_none rfl)).bind
          fun _ => ?_
      refine Tx.StagesOnly.bind ?_ fun _ => trivial
      exact stages_insertColumns ..

theorem stages_stageOperations
    (ctx : CommitContext)
    (op : Nat)
    (staging : Staging)
    (operations : List MutationOp) :
    Tx.StagesOnly (Statement.IsSerialized ctx.ext)
      (stageOperations ctx op staging operations) := by
  induction operations generalizing op staging with
  | nil => exact trivial
  | cons operation rest ih =>
      refine Tx.StagesOnly.bind ?_ fun staging' => ih _ _
      cases operation with
      | appendFiles files =>
          refine Tx.StagesOnly.bind ?_ fun _ => trivial
          unfold appendFiles
          split
          · exact trivial
          · exact stages_insertFileChunks ..
      | deleteFiles fileUuids =>
          refine Tx.StagesOnly.bind ?_ fun _ => trivial
          unfold deleteFiles
          split
          · exact trivial
          · exact stages_markFileChunks ..
      | updateSchema spec =>
          exact (stages_updateSchema ..).bind fun _ => trivial
      | setProperties properties => exact trivial
      | removeProperties keys =>
          simp only [stageOperation]
          split
          · exact trivial
          split
          · exact trivial
          · exact trivial

theorem stages_commitTx
    (catalog : SqlCatalog)
    (ident : TableIdent)
    (base : TxnId)
    (mutation : Mutation)
    (draws : Draws) :
    Tx.StagesOnly (Statement.IsSerialized ext)
      (commitTx ext catalog ident base mutation draws) := by
  refine Tx.StagesOnly.bind trivial fun _ => ?_
  refine Tx.StagesOnly.bind ?_ fun _ => ?_
  · cases catalog.kind with
    | sqlite => exact fun _ => trivial
    | postgres => exact trivial
  refine Tx.StagesOnly.bind (fun _ => trivial) fun row => ?_
  cases row with
  | none => exact trivial
  | some row =>
      refine Tx.StagesOnly.bind trivial fun properties => ?_
      refine Tx.StagesOnly.bind trivial fun _ => ?_
      refine Tx.StagesOnly.bind trivial fun current => ?_
      refine (Tx.stagesOnly_execute
        (Statement.isSerialized_of_none rfl)).bind
          fun _ => ?_
      refine Tx.StagesOnly.bind ?_ fun staging => ?_
      · exact stages_stageOperations
          ⟨ext, catalog.kind, draws, row.tableUuid,
            row.currentSchemaUuid⟩ _ _ _
      apply Tx.stagesOnly_lift_bind
      intro text hText
      refine (Tx.stagesOnly_execute ?_).bind
        fun _ => trivial
      intro t ht
      rcases List.mem_singleton.mp ht with rfl
      exact ⟨_, hText⟩

theorem stages_createTableTx
    (catalog : SqlCatalog)
    (ident : TableIdent)
    (location : String)
    (schema : SchemaSpec)
    (properties : Option TableProperties)
    (draws : Draws) :
    Tx.StagesOnly (Statement.IsSerialized ext)
      (createTableTx ext catalog ident location schema
        properties draws) := by
  refine Tx.StagesOnly.bind trivial fun _ => ?_
  refine Tx.StagesOnly.bind ?_ fun _ => ?_
  · cases catalog.kind with
    | sqlite => exact fun _ => trivial
    | postgres => exact trivial
  refine Tx.StagesOnly.bind (fun _ => trivial)
    fun found => ?_
  refine Tx.StagesOnly.bind trivial fun tableExists => ?_
  cases tableExists with
  | true => exact trivial
  | false =>
      apply Tx.stagesOnly_lift_bind
      intro text hText
      refine (Tx.stagesOnly_execute ?_).bind fun _ => ?_
      · intro t ht
        rcases List.mem_singleton.mp ht with rfl
        exact ⟨_, hText⟩
      refine (Tx.stagesOnly_execute
        (Statement.isSerialized_of_none rfl)).bind
          fun _ => ?_
      refine (Tx.stagesOnly_execute
        (Statement.isSerialized_of_none rfl)).bind
          fun _ => ?_
      refine (stages_insertColumns ..).bind fun _ => ?_
      exact Tx.stagesOnly_execute
        (Statement.isSerialized_of_none rfl)

end Calls

------------------------------------------------------------
-- Texts Along a Run
------------------------------------------------------------

/- A call that writes serialized texts keeps to them. -/
theorem serialized_runTransaction
    {ext : External}
    {α : Type}
    {tx : CatalogTx α}
    {db : Database}
    (hOnly :
      Tx.StagesOnly (Statement.IsSerialized ext) tx)
    (hOld : Serialized ext db.jsonTexts) :
    Serialized ext (runTransaction db tx).2.jsonTexts := by
  cases hRun : runTransaction db tx with
  | mk result db' =>
      cases result with
      | error e =>
          rw [runTransaction_error hRun]
          exact hOld
      | ok a =>
          rcases hOnly.exec (runTransaction_ok.mp hRun) with
            ⟨statements, hAll, rfl⟩
          exact hOld.apply hAll

namespace World

variable {ext : External} {w w' : World}

theorem Step.serialized
    (hInv : w.Inv ext)
    (hStep : Step ext w w')
    (hOld : Serialized ext w.database.jsonTexts) :
    Serialized ext w'.database.jsonTexts := by
  rcases hStep with ⟨call, rfl⟩ | ⟨ident, rfl⟩
  · have hCall :
        Serialized ext
          (call.perform ext w.database).2.jsonTexts := by
      cases call with
      | create call =>
          exact serialized_runTransaction
            (stages_createTableTx ..) hOld
      | commit call =>
          exact serialized_runTransaction
            (stages_commitTx ..) hOld
    unfold perform
    split
    · rename_i hPerform
      rw [hPerform] at hCall
      exact hCall
    · rename_i hPerform
      rw [hPerform] at hCall
      exact hCall
  · rw [hInv.drop_eq ident]
    exact hOld

/- All JSON texts of a reachable state were serialized. -/
theorem Reachable.serialized
    (hReach : w.Reachable ext) :
    Serialized ext w.database.jsonTexts := by
  induction hReach with
  | refl =>
      intro text hText
      cases hText
  | tail hSteps hStep ih =>
      exact hStep.serialized (Reachable.inv hSteps) ih

end World

end Planar
