import Planar.Foundations.Failures
import Planar.Properties.Acceptance

/-
  How a commit ends.  It fails with a conflict, with a table
  that is not found or with a protocol that is too old only
  in the checks before its writes, and the history of the
  table says in which of them.

  Main declarations:
    * `Gate`, `Fault.gate`, `pastGates_stageCommit`
    * `CommitCall.Readable`, `CommitCall.gate`
    * `World.Reachable.commit_endedAt`,
      `World.Reachable.commit_fails_iff`
-/

------------------------------------------------------------
-- Errors of the Writes
------------------------------------------------------------

namespace Planar

/- The checks of a commit against the row of its table. -/
inductive Gate where
  | found
  | protocol
  | base
  deriving DecidableEq

/- The check whose error this is. -/
def Fault.gate : Fault → Option Gate
| .returned (.notFound _) => some .found
| .returned (.protocolVersionIncompatible ..) =>
    some .protocol
| .returned (.conflict _) => some .base
| _ => none

/- The check at which a call has ended. -/
def endedAt {α : Type} : Result α → Option Gate
| .ok _ => none
| .error e => e.gate

/- The computation ends at none of the checks. -/
abbrev PastGates {α : Type} (r : Result α) : Prop :=
  FailsOnly (fun e => e.gate = none) r

theorem PastGates.endedAt
    {α : Type}
    {r : Result α}
    (hPast : PastGates r) :
    endedAt r = none := by
  cases r with
  | ok a => rfl
  | error e => exact hPast

variable {ext : External}

theorem SchemaSpec.pastGates_validateColumns
    (seen : List String)
    (columns : List ColumnSpec) :
    PastGates (validateColumns seen columns) := by
  induction columns generalizing seen with
  | nil => exact trivial
  | cons column rest ih =>
      exact .ite rfl (.ite rfl (ih _))

theorem SchemaSpec.pastGates_validate
    (spec : SchemaSpec) :
    PastGates spec.validate :=
  .ite rfl (.ite rfl (pastGates_validateColumns _ _))

theorem pastGates_serializeJson
    (value : Json) :
    PastGates (serializeJson ext value) :=
  .bind (.ite rfl trivial) fun _ => trivial

theorem pastGates_serializeJsonOptional
    (value : Option Json) :
    PastGates (serializeJsonOptional ext value) := by
  cases value with
  | none => exact trivial
  | some v =>
      exact .bind (pastGates_serializeJson v) fun _ =>
        trivial

theorem FileSpec.pastGates_validate
    (f : FileSpec) :
    PastGates (f.validate ext) := by
  have hPartition :
      PastGates
        (validatePartitionValues f.partitionValues) := by
    cases f.partitionValues with
    | none => exact trivial
    | some v => exact .ite trivial rfl
  have hOptions :
      PastGates (validateOptions ext f.fileFormat
        f.formatOptions) := by
    cases f.formatOptions with
    | none => exact trivial
    | some v =>
        refine .ite ?_ rfl
        cases validateFormatOptions ext f.fileFormat.asStr v
          with
        | ok u => exact trivial
        | error e => cases e <;> rfl
  unfold validate
  refine .ite rfl (.ite rfl (.ite rfl ?_))
  exact .bind hPartition fun _ => hOptions

theorem pastGates_fileRows
    (tableUuid : Uuid)
    (transactionId : TxnId)
    (fileUuid : Nat → Uuid)
    (start : Nat)
    (files : List FileSpec) :
    PastGates (fileRows ext tableUuid transactionId fileUuid
      start files) := by
  induction files generalizing start with
  | nil => exact trivial
  | cons f rest ih =>
      refine .bind (.bind f.pastGates_validate fun _ => ?_)
        fun _ => .bind (ih _) fun _ => trivial
      exact .bind (pastGates_serializeJsonOptional _)
        fun _ => .bind (pastGates_serializeJsonOptional _)
          fun _ => trivial

theorem pastGates_decodeDataType
    (bytes : List UInt8) :
    PastGates (decodeDataType ext bytes) := by
  unfold decodeDataType
  split
  · rfl
  · rfl
  · exact trivial
  · rfl

theorem pastGates_checkAgainstCurrent
    (rows : List ColumnRow)
    (spec : SchemaSpec) :
    PastGates (checkAgainstCurrent ext rows spec) := by
  have hColumns (columns : ColumnMap) :
      PastGates (currentColumns ext columns rows) := by
    induction rows generalizing columns with
    | nil => exact trivial
    | cons row rest ih =>
        exact .bind (pastGates_decodeDataType _) fun _ =>
          ih _
  have hDropped (names existing : List String) :
      PastGates (checkNoneDropped names existing) := by
    induction existing with
    | nil => exact trivial
    | cons first rest ih => exact .ite ih rfl
  have hColumn (columns : ColumnMap) (column : ColumnSpec) :
      PastGates
        (checkColumnEvolution ext columns column) := by
    unfold checkColumnEvolution
    split
    · exact trivial
    · exact .ite rfl (.ite rfl trivial)
  have hEvolution (columns : ColumnMap)
      (new : List ColumnSpec) :
      PastGates (checkEvolution ext columns new) := by
    induction new with
    | nil => exact trivial
    | cons first rest ih =>
        exact .bind (hColumn columns first) fun _ => ih
  exact .bind (hColumns ∅) fun columns =>
    .bind (hDropped _ columns.keys) fun _ =>
      hEvolution columns spec.columns

------------------------------------------------------------
-- Errors of the Operations
------------------------------------------------------------

/- The program fails in other ways only. -/
abbrev TxPastGates {α : Type} (p : CatalogTx α) : Prop :=
  Tx.FailsOnly (fun e : Fault => e.gate = none) p

theorem txPastGates_appendFiles
    (tableUuid : Uuid)
    (transactionId : TxnId)
    (fileUuid : Nat → Uuid)
    (files : List FileSpec) :
    TxPastGates (appendFiles ext tableUuid transactionId
      fileUuid files) := by
  have hChunks (start : Nat)
      (chunked : List (List FileSpec)) :
      TxPastGates (insertFileChunks ext tableUuid
        transactionId fileUuid start chunked) := by
    induction chunked generalizing start with
    | nil => exact trivial
    | cons chunk rest ih =>
        refine .bind (Tx.failsOnly_lift
          (pastGates_fileRows _ _ _ _ _)) fun _ => ?_
        exact .bind (Tx.failsOnly_execute _) fun _ => ih _
  unfold appendFiles
  split
  · exact Tx.failsOnly_fail rfl
  · exact hChunks _ _

theorem txPastGates_deleteFiles
    (tableUuid : Uuid)
    (transactionId : TxnId)
    (fileUuids : List Uuid) :
    TxPastGates
      (deleteFiles tableUuid transactionId fileUuids) := by
  have hChunks (chunked : List (List Uuid)) :
      TxPastGates (markFileChunks tableUuid transactionId
        chunked) := by
    induction chunked with
    | nil => exact trivial
    | cons chunk rest ih =>
        exact .bind (Tx.failsOnly_execute _) fun _ => ih
  unfold deleteFiles
  split
  · exact Tx.failsOnly_fail rfl
  · exact hChunks _

theorem txPastGates_insertColumns
    (kind : DbKind)
    (schemaUuid : Uuid)
    (columnUuid : Nat → Uuid)
    (columns : List ColumnSpec) :
    TxPastGates (insertColumns ext kind schemaUuid
      columnUuid columns) := by
  have hChunks (size index : Nat)
      (chunked : List (List ColumnSpec)) :
      TxPastGates (insertColumnChunks ext schemaUuid
        columnUuid size index chunked) := by
    induction chunked generalizing index with
    | nil => exact trivial
    | cons chunk rest ih =>
        exact .bind (Tx.failsOnly_execute _) fun _ => ih _
  exact hChunks _ _ _

theorem txPastGates_updateSchema
    (ctx : CommitContext)
    (op : Nat)
    (spec : SchemaSpec) :
    TxPastGates (updateSchema ctx op spec) := by
  unfold updateSchema
  refine .bind
    (Tx.failsOnly_lift spec.pastGates_validate) fun _ => ?_
  cases ctx.currentSchemaUuid with
  | none => exact Tx.failsOnly_fail rfl
  | some current =>
      refine Tx.failsOnly_select_bind fun v => ?_
      refine .bind (Tx.failsOnly_lift ?_) fun _ => ?_
      · unfold fetchSchemaVersion
        split
        · exact trivial
        · rfl
      refine Tx.failsOnly_select_bind fun v' => ?_
      refine .bind (Tx.failsOnly_lift
        (pastGates_checkAgainstCurrent _ _)) fun _ => ?_
      refine .bind (Tx.failsOnly_execute _) fun _ => ?_
      refine .bind (Tx.failsOnly_execute _) fun _ => ?_
      exact .bind (txPastGates_insertColumns _ _ _ _)
        fun _ => trivial

theorem txPastGates_stageOperation
    (ctx : CommitContext)
    (op : Nat)
    (staging : Staging)
    (operation : MutationOp) :
    TxPastGates
      (stageOperation ctx op staging operation) := by
  cases operation with
  | appendFiles files =>
      exact .bind (txPastGates_appendFiles _ _ _ _) fun _ =>
        trivial
  | deleteFiles fileUuids =>
      exact .bind (txPastGates_deleteFiles _ _ _) fun _ =>
        trivial
  | updateSchema spec =>
      exact .bind (txPastGates_updateSchema _ _ _) fun _ =>
        trivial
  | setProperties properties => exact trivial
  | removeProperties keys =>
      dsimp only [stageOperation]
      split
      · exact trivial
      · split
        · exact Tx.failsOnly_fail rfl
        · exact trivial

theorem txPastGates_stageOperations
    (ctx : CommitContext)
    (op : Nat)
    (staging : Staging)
    (operations : List MutationOp) :
    TxPastGates
      (stageOperations ctx op staging operations) := by
  induction operations generalizing op staging with
  | nil => exact trivial
  | cons first rest ih =>
      exact .bind (txPastGates_stageOperation _ _ _ _)
        fun _ => ih _ _

theorem sqlStore_pastGates
    (s : Statement)
    (db : Database) :
    PastGates (sqlStore.check s db) :=
  .ite rfl (.ite trivial rfl)

/- The writes of a commit fail in other ways only. -/
theorem pastGates_stageCommit
    (ctx : CommitContext)
    (current : TxnId)
    (properties : TableProperties)
    (mutation : Mutation)
    (db : Database) :
    PastGates
      ((stageCommit ctx current properties mutation).exec
        sqlStore db) := by
  refine Tx.FailsOnly.exec ?_ sqlStore_pastGates
  refine .bind (Tx.failsOnly_execute _) fun _ => ?_
  refine .bind (txPastGates_stageOperations _ _ _ _)
    fun _ => ?_
  refine .bind (Tx.failsOnly_lift
    (pastGates_serializeJson _)) fun _ => ?_
  exact .bind (Tx.failsOnly_execute _) fun _ => trivial

/- So do the checks of the mutation alone. -/
theorem pastGates_precheck
    (mutation : Mutation) :
    PastGates (precheck mutation) := by
  have hDuplicates {α : Type} [DecidableEq α]
      (message : α → String) (seen values : List α) :
      PastGates (rejectDuplicates message seen values) := by
    induction values generalizing seen with
    | nil => exact trivial
    | cons first rest ih => exact .ite rfl (ih _)
  have hOps (updates sets : Nat)
      (operations : List MutationOp) :
      PastGates (Mutation.validateOps updates sets
        operations) := by
    induction operations generalizing updates sets with
    | nil => exact trivial
    | cons operation rest ih =>
        cases operation with
        | appendFiles files => exact ih _ _
        | updateSchema spec => exact .ite rfl (ih _ _)
        | setProperties properties =>
            exact .ite rfl (ih _ _)
        | deleteFiles fileUuids =>
            exact .bind (hDuplicates _ _ _) fun _ => ih _ _
        | removeProperties keys =>
            exact .bind (hDuplicates _ _ _) fun _ => ih _ _
  exact .ite rfl (.ite rfl (hOps _ _ _))

------------------------------------------------------------
-- The Checks in Order
------------------------------------------------------------

/- What a commit does with the row that it finds. -/
def rowOutcome
    (ext : External)
    (call : CommitCall)
    (db : Database) : Option TableRow → Result CommitResult
| none => fault (.notFound call.ident.toText)
| some row => do
    let properties ←
      parseTableProperties ext row.properties
    call.catalog.ensureWriterProtocolCompatible call.ident
      row.minWriterVersion
    let current ←
      checkBase call.base row.currentTransactionId
    let r ← (stageCommit
      { ext := ext
        kind := call.catalog.kind
        draws := call.draws
        tableUuid := row.tableUuid
        currentSchemaUuid := row.currentSchemaUuid }
      current properties call.mutation).exec sqlStore db
    pure r.1

/- The result of a commit, check by check. -/
theorem commit_fst
    (call : CommitCall)
    (db : Database) :
    (commit ext call.catalog call.ident call.base
        call.mutation call.draws db).1 =
      precheck call.mutation >>= fun _ =>
        rowOutcome ext call db
          (db.findTable call.ident) := by
  have hFst {α : Type} (tx : CatalogTx α) :
      (runTransaction db tx).1 =
        (tx.exec sqlStore db).map Prod.fst := by
    unfold runTransaction
    cases tx.exec sqlStore db <;> rfl
  have hLift {α β : Type} (r : Result α)
      (rest : α → CatalogTx β) :
      ((Tx.lift r >>= rest).exec sqlStore db).map
          Prod.fst =
        r >>= fun a =>
          ((rest a).exec sqlStore db).map Prod.fst := by
    cases r <;> rfl
  have hBegin {β : Type} (rest : Unit → CatalogTx β) :
      (beginTransaction call.catalog.kind >>=
          rest).exec sqlStore db =
        (rest ()).exec sqlStore db := by
    cases call.catalog.kind <;> rfl
  unfold commit
  rw [hFst]
  unfold commitTx
  rw [hLift]
  congr 1
  funext u
  rw [hBegin]
  change ((commitToRow ext call.catalog call.ident call.base
    call.mutation call.draws
      (db.findTable call.ident)).exec sqlStore db).map
        Prod.fst = _
  cases db.findTable call.ident with
  | none => rfl
  | some row =>
      dsimp only [commitToRow, rowOutcome]
      simp only [hLift]
      rfl

------------------------------------------------------------
-- The History Decides the Check
------------------------------------------------------------

/- The stored properties of the table can be read. -/
def CommitCall.Readable
    (ext : External)
    (calls : List Call)
    (call : CommitCall) : Prop :=
  ∃ properties,
    parseTableProperties ext
      (some (ext.jsonToString
        (storedProperties ext
          (tableHistory calls call.ident)).toJson)) =
      .ok properties

open Classical in
/- The check at which a commit ends after these calls. -/
noncomputable def CommitCall.gate
    (ext : External)
    (calls : List Call)
    (call : CommitCall) : Option Gate :=
  if ¬ call.mutation.WellFormed then none
  else
    match (tableCalls calls call.ident).head? with
    | some (.create create) =>
        if ¬ call.Readable ext calls then none
        else if
            call.catalog.writerVersion <
              create.catalog.writerVersion then
          some .protocol
        else if
            (tableHistory calls
              call.ident).ids.getLast? ≠ some call.base then
          some .base
        else none
    | _ => some .found

/- The rest of a sequence decides, once a part is done. -/
theorem endedAt_bind
    {α β : Type}
    {r : Result α}
    {f : α → Result β}
    {gate : Option Gate}
    (hPast : PastGates r)
    (hError : (¬ ∃ a, r = .ok a) → gate = none)
    (hRest : ∀ a, r = .ok a → endedAt (f a) = gate) :
    endedAt (r >>= f) = gate := by
  cases r with
  | ok a => exact hRest a rfl
  | error e =>
      refine Eq.trans hPast (hError ?_).symm
      rintro ⟨a, hOk⟩
      cases hOk

theorem pastGates_parseTableProperties
    (text : Option String) :
    PastGates (parseTableProperties ext text) := by
  have hText (t : String) :
      PastGates (parseJsonText ext t) := by
    refine .bind (.ite rfl trivial) fun _ => ?_
    split
    · exact trivial
    · rfl
  have hJson : PastGates (parseJson ext text) := by
    cases text with
    | none => exact trivial
    | some t => exact hText t
  refine .bind hJson fun value => ?_
  unfold TableProperties.fromJson
  split
  · exact trivial
  · rfl

/- The calls that were accepted before decide the check. -/
theorem World.Reachable.commit_endedAt
    {w : World}
    (hReach : w.Reachable ext)
    (call : CommitCall) :
    endedAt (commit ext call.catalog call.ident call.base
        call.mutation call.draws w.database).1 =
      call.gate ext w.calls := by
  rw [commit_fst]
  unfold CommitCall.gate
  refine endedAt_bind (pastGates_precheck _) ?_ ?_
  · intro hError
    refine if_pos fun hForm => hError ?_
    exact ⟨(), precheck_iff.mpr hForm⟩
  intro u hChecked
  rw [if_neg (not_not.mpr (precheck_iff.mp hChecked))]
  cases hFound : w.database.findTable call.ident with
  | none =>
      rw [hReach.findTable_none.mp hFound]
      rfl
  | some row =>
      rcases hReach.of_findTable hFound with
        ⟨hTracked, hLawful, create, hHead, hVersion⟩
      rw [hHead]
      dsimp only
      have hReadable :
          (∃ p, parseTableProperties ext row.properties =
            .ok p) ↔ call.Readable ext w.calls := by
        rw [hTracked.properties]
        rfl
      refine endedAt_bind
        (pastGates_parseTableProperties _) ?_ ?_
      · intro hError
        exact if_pos fun hOk => hError (hReadable.mpr hOk)
      intro properties hParsed
      rw [if_neg (not_not.mpr
        (hReadable.mp ⟨properties, hParsed⟩))]
      unfold SqlCatalog.ensureWriterProtocolCompatible
      rw [hVersion]
      by_cases hOld : call.catalog.writerVersion <
        create.catalog.writerVersion
      · rw [if_pos hOld, if_pos hOld]
        rfl
      rw [if_neg hOld, if_neg hOld]
      change endedAt (checkBase call.base
        row.currentTransactionId >>= _) = _
      rw [hTracked.head]
      cases hLast :
          (tableHistory w.calls
            call.ident).ids.getLast? with
      | none =>
          have hEmpty := List.getLast?_eq_none_iff.mp hLast
          exact absurd (List.map_eq_nil_iff.mp hEmpty)
            hLawful.nonempty
      | some last =>
          by_cases hBase : last = call.base
          · subst hBase
            rw [if_neg (by simp)]
            dsimp only [checkBase]
            rw [if_neg (by simp)]
            refine PastGates.endedAt (.bind trivial
              fun current => ?_)
            exact .bind (pastGates_stageCommit _ _ _ _ _)
              fun _ => trivial
          · rw [if_pos (by simpa using hBase)]
            dsimp only [checkBase]
            rw [if_pos hBase]
            rfl

/- What a commit passes before its base is compared. -/
structure CommitCall.Passes
    (ext : External)
    (calls : List Call)
    (call : CommitCall) : Prop where
  wellFormed : call.mutation.WellFormed
  readable : call.Readable ext calls
  writer : ∃ create,
    (tableCalls calls call.ident).head? =
        some (.create create) ∧
      create.catalog.writerVersion ≤
        call.catalog.writerVersion

section Gates

variable
  {calls : List Call}
  {call : CommitCall}

theorem CommitCall.gate_found_iff :
    call.gate ext calls = some .found ↔
      call.mutation.WellFormed ∧
        ∀ create, (tableCalls calls call.ident).head? ≠
          some (.create create) := by
  unfold gate
  by_cases hForm : call.mutation.WellFormed
  · rw [if_neg (not_not.mpr hForm)]
    split
    · rename_i create hHead
      refine iff_of_false ?_ fun h => h.2 create hHead
      split_ifs <;> simp
    · rename_i hOther
      exact iff_of_true rfl ⟨hForm, hOther⟩
  · rw [if_pos hForm]
    exact iff_of_false (by simp) fun h => hForm h.1

theorem CommitCall.gate_protocol_iff :
    call.gate ext calls = some .protocol ↔
      call.mutation.WellFormed ∧ call.Readable ext calls ∧
        ∃ create,
          (tableCalls calls call.ident).head? =
              some (.create create) ∧
            call.catalog.writerVersion <
              create.catalog.writerVersion := by
  unfold gate
  by_cases hForm : call.mutation.WellFormed
  · rw [if_neg (not_not.mpr hForm)]
    split
    · rename_i create hHead
      by_cases hReadable : call.Readable ext calls
      · rw [if_neg (not_not.mpr hReadable)]
        by_cases hOld : call.catalog.writerVersion <
          create.catalog.writerVersion
        · rw [if_pos hOld]
          exact iff_of_true rfl
            ⟨hForm, hReadable, create, hHead, hOld⟩
        · rw [if_neg hOld]
          refine iff_of_false (by split_ifs <;> simp) ?_
          rintro ⟨_, _, other, hOther, hVersion⟩
          rw [hHead, Option.some.injEq,
            Call.create.injEq] at hOther
          exact hOld (hOther ▸ hVersion)
      · rw [if_pos hReadable]
        exact iff_of_false (by simp) fun h =>
          hReadable h.2.1
    · rename_i hOther
      refine iff_of_false (by simp) ?_
      rintro ⟨_, _, create, hHead, _⟩
      exact hOther create hHead
  · rw [if_pos hForm]
    exact iff_of_false (by simp) fun h => hForm h.1

theorem CommitCall.gate_base_iff :
    call.gate ext calls = some .base ↔
      call.Passes ext calls ∧
        (tableHistory calls call.ident).ids.getLast? ≠
          some call.base := by
  unfold gate
  by_cases hForm : call.mutation.WellFormed
  · rw [if_neg (not_not.mpr hForm)]
    split
    · rename_i create hHead
      by_cases hReadable : call.Readable ext calls
      · rw [if_neg (not_not.mpr hReadable)]
        by_cases hOld : call.catalog.writerVersion <
          create.catalog.writerVersion
        · rw [if_pos hOld]
          refine iff_of_false (by simp) ?_
          rintro ⟨⟨_, _, other, hOther, hVersion⟩, _⟩
          rw [hHead, Option.some.injEq,
            Call.create.injEq] at hOther
          subst hOther
          omega
        · rw [if_neg hOld]
          have hPasses : call.Passes ext calls :=
            ⟨hForm, hReadable, create, hHead, by omega⟩
          by_cases hBase :
            (tableHistory calls
              call.ident).ids.getLast? = some call.base
          · simp [hBase]
          · simp [hBase, hPasses]
      · rw [if_pos hReadable]
        exact iff_of_false (by simp) fun h =>
          hReadable h.1.readable
    · rename_i hOther
      refine iff_of_false (by simp) ?_
      rintro ⟨⟨_, _, create, hHead, _⟩, _⟩
      exact hOther create hHead
  · rw [if_pos hForm]
    exact iff_of_false (by simp) fun h =>
      hForm h.1.wellFormed

end Gates

/- The errors of the three checks. -/
theorem endedAt_iff
    {α : Type}
    {r : Result α} :
    (endedAt r = some .found ↔
      ∃ message, r = fault (.notFound message)) ∧
    (endedAt r = some .protocol ↔
      ∃ operation table client required,
        r = fault (.protocolVersionIncompatible operation
          table client required)) ∧
    (endedAt r = some .base ↔
      ∃ message, r = fault (.conflict message)) := by
  cases r with
  | ok a => simp [endedAt, fault]
  | error e =>
      cases e with
      | panicked message =>
          simp [endedAt, Fault.gate, fault]
      | returned error =>
          cases error <;> simp [endedAt, Fault.gate, fault]

/-
  A commit fails with a table that is not found, with a
  protocol that is too old or with a conflict exactly in
  these cases: the table was never created, the client is
  older than its creator, or the base is not the last
  transaction.
-/
theorem World.Reachable.commit_fails_iff
    {w : World}
    {call : CommitCall}
    {r : Result CommitResult}
    (hReach : w.Reachable ext)
    (hResult :
      (commit ext call.catalog call.ident call.base
        call.mutation call.draws w.database).1 = r) :
    ((∃ message, r = fault (.notFound message)) ↔
      call.mutation.WellFormed ∧
        tableCalls w.calls call.ident = []) ∧
    ((∃ operation table client required,
        r = fault (.protocolVersionIncompatible operation
          table client required)) ↔
      call.mutation.WellFormed ∧ call.Readable ext w.calls ∧
        ∃ create,
          (tableCalls w.calls call.ident).head? =
              some (.create create) ∧
            call.catalog.writerVersion <
              create.catalog.writerVersion) ∧
    ((∃ message, r = fault (.conflict message)) ↔
      call.Passes ext w.calls ∧
        (tableHistory w.calls call.ident).ids.getLast? ≠
          some call.base) := by
  have hEnd := hReach.commit_endedAt call
  rw [hResult] at hEnd
  have hErrors := @endedAt_iff CommitResult r
  rw [hEnd, CommitCall.gate_found_iff,
    CommitCall.gate_protocol_iff,
    CommitCall.gate_base_iff] at hErrors
  refine ⟨hErrors.1.symm.trans (and_congr_right fun _ => ?_),
    hErrors.2.1.symm, hErrors.2.2.symm⟩
  constructor
  · intro hOther
    rw [← hReach.findTable_none]
    cases hFound : w.database.findTable call.ident with
    | none => rfl
    | some row =>
        rcases hReach.of_findTable hFound with
          ⟨_, _, create, hHead, _⟩
        exact absurd hHead (hOther create)
  · intro hNone create
    rw [hNone]
    simp

/- A commit on top of the second transaction. -/
def sampleStale : CommitCall :=
  { catalog := sampleCatalog
    ident := sampleIdent
    base := 2
    mutation := ⟨[.deleteFiles [7]]⟩
    draws := sampleDraws 4 }

theorem commit_fails_iff_sample :
    ∃ r : Result CommitResult,
      ((∃ message, r = fault (.notFound message)) ↔
        sampleStale.mutation.WellFormed ∧
          tableCalls sampleWorld.calls sampleIdent = []) ∧
      ((∃ operation table client required,
          r = fault (.protocolVersionIncompatible operation
            table client required)) ↔
        sampleStale.mutation.WellFormed ∧
          sampleStale.Readable sampleExternal
            sampleWorld.calls ∧
          ∃ create,
            (tableCalls sampleWorld.calls
                sampleIdent).head? =
              some (.create create) ∧
            sampleCatalog.writerVersion <
              create.catalog.writerVersion) ∧
      ((∃ message, r = fault (.conflict message)) ↔
        sampleStale.Passes sampleExternal
            sampleWorld.calls ∧
          (tableHistory sampleWorld.calls
            sampleIdent).ids.getLast? ≠ some 2) :=
  ⟨_, @World.Reachable.commit_fails_iff sampleExternal
    sampleWorld sampleStale _
      (World.reachable_run sampleExternal sampleCalls) rfl⟩

end Planar
