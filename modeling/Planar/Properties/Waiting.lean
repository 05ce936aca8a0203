import Planar.Foundations.Waiting
import Planar.History.Writers
import Planar.Properties.Acceptance
import Planar.Properties.Racing

/-
  Writing calls wait for each other, but never in a circle:
  nobody waits for a call that waits.

  Main declarations:
    * `Call.MayBring`, `Call.Brings`
    * `stagesFreely_stageOperations`
    * `Separated`
    * `System.Reachable.completes`
-/

------------------------------------------------------------
-- The Keys That a Call May Bring
------------------------------------------------------------

namespace Planar

/-
  The keys that a call may bring: its values, the names of
  the columns of its schemas and, for a creation, the name
  of the table.
-/
def Call.MayBring (call : Call) : Key → Prop
| .tableIdent ident =>
    ∃ create, call = .create create ∧ create.ident = ident
| .columnName schemaUuid _ =>
    .schema schemaUuid ∈ call.keys
| k => k ∈ call.keys

/- All keys of the statement are among these. -/
def Statement.Brings
    (M : Key → Prop)
    (s : Statement) : Prop :=
  ∀ k ∈ s.keys, M k

variable
  {ext : External}
  {M : Key → Prop}

theorem brings_insertFiles
    {rows : List FileRow}
    (hRows : ∀ row ∈ rows, M (.file row.fileUuid)) :
    (Statement.insertFiles rows).Brings M := by
  intro k hKey
  rcases List.mem_flatMap.mp hKey with ⟨row, hRow, hKey⟩
  rw [List.mem_singleton.mp hKey]
  exact hRows row hRow

theorem brings_insertColumns
    {rows : List ColumnRow}
    (hRows : ∀ row ∈ rows, M (.column row.columnUuid) ∧
      M (.columnName row.schemaUuid row.columnName)) :
    (Statement.insertColumns rows).Brings M := by
  intro k hKey
  rcases List.mem_flatMap.mp hKey with ⟨row, hRow, hKey⟩
  rcases List.mem_cons.mp hKey with rfl | hName
  · exact (hRows row hRow).1
  · rw [List.mem_singleton.mp hName]
    exact (hRows row hRow).2

theorem stagesFreely_appendFiles
    {tableUuid : Uuid}
    {transactionId : TxnId}
    {draws : Draws}
    {op : Nat}
    {files : List FileSpec}
    (hKeys : ∀ k ∈ ((MutationOp.appendFiles files).change
      draws op).keys, M k) :
    (appendFiles ext tableUuid transactionId
      (draws.fileUuid op) files).StagesFreely
        (Statement.Brings M) := by
  unfold appendFiles
  split
  · exact trivial
  rw [insertFileChunks_eq]
  refine Tx.stagesFreely_inBatches
    (fun rows => brings_insertFiles) ?_
  intro i f row hAt hBuild
  rw [flatten_chunks (by decide)] at hAt
  rw [Nat.zero_add] at hBuild
  rw [(fileRow_ok hBuild).2]
  apply hKeys
  refine List.mem_map.mpr
    ⟨f.contents (draws.fileUuid op i), ?_, rfl⟩
  rcases List.getElem?_eq_some_iff.mp hAt with ⟨hi, rfl⟩
  exact List.mem_mapIdx.mpr ⟨i, hi, rfl⟩

theorem stagesFreely_deleteFiles
    {tableUuid : Uuid}
    {transactionId : TxnId}
    {fileUuids : List Uuid} :
    (deleteFiles tableUuid transactionId
      fileUuids).StagesFreely (Statement.Brings M) := by
  unfold deleteFiles
  split
  · exact trivial
  rw [markFileChunks_eq _ _ 0]
  refine Tx.stagesFreely_inBatches
    (Q := fun _ => True) ?_ fun _ _ _ _ _ => trivial
  intro rows _ k hKey
  cases hKey

/- The columns of a schema bring values and names. -/
theorem stagesFreely_insertColumns
    {kind : DbKind}
    {draws : Draws}
    {op : Nat}
    {spec : SchemaSpec}
    (hKeys : ∀ k ∈ (Change.updateSchema
      (spec.contents draws op)).keys, M k)
    (hNames : ∀ u name, M (.schema u) →
      M (.columnName u name)) :
    (insertColumns ext kind (draws.schemaUuid op)
      (draws.columnUuid op) spec.columns).StagesFreely
        (Statement.Brings M) := by
  have hSize : 0 < batchInsertColumnsChunk kind := by
    rw [batchInsertColumnsChunk_eq]
    decide
  unfold insertColumns chunks
  rw [insertColumnChunks_eq]
  refine Tx.stagesFreely_inBatches
    (fun rows => brings_insertColumns) ?_
  intro i column row hAt hBuild
  rw [flatten_chunkLoop hSize (Nat.le_refl _)] at hAt
  rw [Nat.zero_mul, Nat.zero_add, Except.ok.injEq]
    at hBuild
  subst hBuild
  refine ⟨hKeys _ (List.mem_cons_of_mem _ ?_),
    hNames _ _ (hKeys _ List.mem_cons_self)⟩
  rcases List.getElem?_eq_some_iff.mp hAt with ⟨hi, rfl⟩
  unfold SchemaSpec.contents
  rw [map_mapIdx]
  exact List.mem_mapIdx.mpr ⟨i, hi, rfl⟩

theorem stagesFreely_updateSchema
    {ctx : CommitContext}
    {op : Nat}
    {spec : SchemaSpec}
    (hKeys : ∀ k ∈ ((MutationOp.updateSchema spec).change
      ctx.draws op).keys, M k)
    (hNames : ∀ u name, M (.schema u) →
      M (.columnName u name)) :
    (updateSchema ctx op spec).StagesFreely
      (Statement.Brings M) := by
  have hNone {s : Statement} (hKeys : s.keys = []) :
      s.Brings M := by
    intro k hKey
    rw [hKeys] at hKey
    cases hKey
  have hSchema (row : SchemaRow)
      (hRow : row.schemaUuid = ctx.draws.schemaUuid op) :
      (Statement.insertSchema row).Brings M := by
    intro k hKey
    rw [List.mem_singleton.mp hKey, hRow]
    exact hKeys _ List.mem_cons_self
  unfold updateSchema
  refine Tx.stagesFreely_lift_bind fun _ _ => ?_
  cases ctx.currentSchemaUuid with
  | none => exact trivial
  | some current =>
      refine Tx.stagesFreely_select_bind fun v => ?_
      refine Tx.stagesFreely_lift_bind fun _ _ => ?_
      refine Tx.stagesFreely_select_bind fun v' => ?_
      refine Tx.stagesFreely_lift_bind fun _ _ => ?_
      refine (Tx.stagesFreely_execute
        (hSchema _ rfl)).bind fun _ => ?_
      refine (Tx.stagesFreely_execute
        (hNone rfl)).bind fun _ => ?_
      exact (stagesFreely_insertColumns hKeys
        hNames).bind fun _ => trivial

theorem stagesFreely_stageOperation
    {ctx : CommitContext}
    {op : Nat}
    {staging : Staging}
    {operation : MutationOp}
    (hKeys : ∀ k ∈ (operation.change ctx.draws op).keys,
      M k)
    (hNames : ∀ u name, M (.schema u) →
      M (.columnName u name)) :
    (stageOperation ctx op staging operation).StagesFreely
      (Statement.Brings M) := by
  cases operation with
  | appendFiles files =>
      exact (stagesFreely_appendFiles hKeys).bind fun _ =>
        trivial
  | deleteFiles fileUuids =>
      exact stagesFreely_deleteFiles.bind fun _ => trivial
  | updateSchema spec =>
      exact (stagesFreely_updateSchema hKeys hNames).bind
        fun _ => trivial
  | setProperties properties => exact trivial
  | removeProperties keys =>
      dsimp only [stageOperation]
      split
      · exact trivial
      · split <;> exact trivial

/- A commit that has its lock takes no other. -/
theorem stagesFreely_stageOperations
    {ctx : CommitContext}
    {op : Nat}
    {staging : Staging}
    {operations : List MutationOp}
    (hKeys : ∀ k ∈ (changesFrom ctx.draws op
      operations).flatMap Change.keys, M k)
    (hNames : ∀ u name, M (.schema u) →
      M (.columnName u name)) :
    (stageOperations ctx op staging
      operations).StagesFreely (Statement.Brings M) := by
  induction operations generalizing op staging with
  | nil => exact trivial
  | cons first rest ih =>
      rw [changesFrom, List.flatMap_cons] at hKeys
      refine (stagesFreely_stageOperation (fun k hKey =>
        hKeys k (List.mem_append_left _ hKey))
          hNames).bind fun staging' => ?_
      exact ih fun k hKey =>
        hKeys k (List.mem_append_right _ hKey)

------------------------------------------------------------
-- What a Call Stages
------------------------------------------------------------

theorem Call.mayBring_of_mem
    {call : Call}
    {k : Key}
    (hKey : k ∈ call.keys) :
    call.MayBring k := by
  have hValue := call.isValue_of_mem_keys hKey
  cases k with
  | tableIdent ident => cases hValue
  | columnName schemaUuid name => cases hValue
  | _ => exact hKey

/- A commit that has read its table row. -/
theorem CommitCall.stagesFreely_toRow
    (call : CommitCall)
    (found : Option TableRow) :
    (call.toRow ext found).StagesFreely
      (Statement.Brings (Call.commit call).MayBring) := by
  refine Tx.StagesFreely.bind ?_ fun _ => trivial
  have hOwn {k : Key}
      (hKey : k ∈ (Call.commit call).keys) :
      (Call.commit call).MayBring k :=
    Call.mayBring_of_mem hKey
  have hChanges : ∀ k ∈ (changesFrom call.draws 0
      call.mutation.operations).flatMap Change.keys,
      (Call.commit call).MayBring k := by
    intro k hKey
    apply hOwn
    exact List.mem_cons_of_mem _ hKey
  cases found with
  | none => exact trivial
  | some row =>
      refine Tx.stagesFreely_lift_bind fun _ _ => ?_
      refine Tx.stagesFreely_lift_bind fun _ _ => ?_
      refine Tx.stagesFreely_lift_bind fun _ _ => ?_
      refine (Tx.stagesFreely_execute ?_).bind fun _ => ?_
      · intro k hKey
        rw [List.mem_singleton.mp hKey]
        exact hOwn List.mem_cons_self
      refine (stagesFreely_stageOperations hChanges
        fun u name hSchema => hSchema).bind fun _ => ?_
      refine Tx.stagesFreely_lift_bind fun _ _ => ?_
      refine (Tx.stagesFreely_execute ?_).bind fun _ =>
        trivial
      intro k hKey
      cases hKey

/- A creation that has looked for its table. -/
theorem CreateCall.stagesFreely_afterCheck
    (call : CreateCall)
    (found : Bool) :
    (call.afterCheck ext found).StagesFreely
      (Statement.Brings (Call.create call).MayBring) := by
  have hOwn {k : Key}
      (hKey : k ∈ call.keys) :
      (Call.create call).MayBring k :=
    Call.mayBring_of_mem hKey
  have hSchema : ∀ k ∈ (Change.updateSchema
      (call.schema.contents call.draws 0)).keys,
      (Call.create call).MayBring k := by
    intro k hKey
    apply hOwn
    apply List.mem_cons_of_mem
    apply List.mem_cons_of_mem
    exact List.mem_flatMap.mpr ⟨_, by
      simp [Call.entry, createEntry], hKey⟩
  refine Tx.stagesFreely_lift_bind fun there _ => ?_
  cases there with
  | true => exact trivial
  | false =>
      refine Tx.stagesFreely_lift_bind fun text _ => ?_
      refine (Tx.stagesFreely_execute ?_).bind fun _ => ?_
      · intro k hKey
        rcases List.mem_cons.mp hKey with rfl | hIdent
        · exact hOwn List.mem_cons_self
        · rw [List.mem_singleton.mp hIdent]
          exact ⟨call, rfl, rfl⟩
      refine (Tx.stagesFreely_execute ?_).bind fun _ => ?_
      · intro k hKey
        rw [List.mem_singleton.mp hKey]
        exact hOwn
          (List.mem_cons_of_mem _ List.mem_cons_self)
      refine (Tx.stagesFreely_execute ?_).bind fun _ => ?_
      · intro k hKey
        rw [List.mem_singleton.mp hKey]
        exact hSchema _ List.mem_cons_self
      refine (stagesFreely_insertColumns hSchema
        fun u name hOf => hOf).bind fun _ => ?_
      refine Tx.stagesFreely_execute ?_
      intro k hKey
      cases hKey

/-
  What a call holds, once it has begun.  On SQLite it is the
  lock of the database; on PostgreSQL a commit has the lock
  of its row and needs no more, and a creation needs none.
-/
inductive Underway
    (ext : External)
    (call : Call) : CatalogWriter → Prop
  | idle : Underway ext call ⟨[], [], call.tx ext⟩
  | begun {staged : List Statement} {locks : List Lock}
      {rest : CatalogTx Unit}
      (hSqlite : call.kind = .sqlite →
        Lock.database ∈ locks)
      (hPostgres : call.kind = .postgres →
        (∀ s ∈ staged, s.Brings call.MayBring) ∧
          rest.StagesFreely
            (Statement.Brings call.MayBring) ∧
          ∀ create, call = .create create → locks = []) :
      Underway ext call ⟨staged, locks, rest⟩

theorem Underway.ask
    {call : Call}
    {staged : List Statement}
    {locks : List Lock}
    {lock : Database → Option Lock}
    {next : Database → CatalogTx Unit}
    (hUnderway :
      Underway ext call ⟨staged, locks, .ask lock next⟩)
    (v : Database) :
    Underway ext call
      ⟨staged, locks ++ (lock v).toList, next v⟩ := by
  generalize hWriter :
    (⟨staged, locks, .ask lock next⟩ : CatalogWriter) = w
      at hUnderway
  cases hUnderway with
  | idle =>
      have hTx : Tx.ask lock next = call.tx ext :=
        congrArg Writer.rest hWriter
      cases congrArg Writer.staged hWriter
      cases congrArg Writer.locks hWriter
      have hFirst : FirstStep ext call (call.tx ext) :=
        call.firstStep
      rw [← hTx] at hFirst
      cases hFirst with
      | locks hKind =>
          refine .begun (fun _ => List.mem_cons_self)
            fun hPostgres => ?_
          rw [hKind] at hPostgres
          cases hPostgres
      | @reads call hKind =>
          refine .begun (fun hSqlite => ?_) fun _ =>
            ⟨nofun, call.stagesFreely_toRow _, nofun⟩
          rw [Call.kind, hKind] at hSqlite
          cases hSqlite
      | @checks call hKind =>
          refine .begun (fun hSqlite => ?_) fun _ =>
            ⟨nofun, call.stagesFreely_afterCheck _,
              fun _ _ => rfl⟩
          rw [Call.kind, hKind] at hSqlite
          cases hSqlite
  | begun hSqlite hPostgres =>
      cases hWriter
      refine .begun (fun hKind =>
        List.mem_append_left _ (hSqlite hKind))
          fun hKind => ?_
      rcases hPostgres hKind with ⟨hStaged, hRest, hNone⟩
      refine ⟨hStaged, (hRest v).2, fun create hCreate => ?_⟩
      rw [hNone create hCreate, (hRest v).1]
      rfl

theorem Underway.stage
    {call : Call}
    {staged : List Statement}
    {locks : List Lock}
    {s : Statement}
    {next : CatalogTx Unit}
    (hUnderway :
      Underway ext call ⟨staged, locks, .stage s next⟩) :
    Underway ext call ⟨staged ++ [s], locks, next⟩ := by
  generalize hWriter :
    (⟨staged, locks, .stage s next⟩ : CatalogWriter) = w
      at hUnderway
  cases hUnderway with
  | idle =>
      exact absurd (congrArg Writer.rest hWriter).symm
        (OnCourse.tx_ne_stage call)
  | begun hSqlite hPostgres =>
      cases hWriter
      refine .begun hSqlite fun hKind => ?_
      rcases hPostgres hKind with ⟨hStaged, hRest, hNone⟩
      refine ⟨fun t ht => ?_, hRest.2, hNone⟩
      rcases List.mem_append.mp ht with hOld | hNew
      · exact hStaged t hOld
      · rw [List.mem_singleton.mp hNew]
        exact hRest.1

------------------------------------------------------------
-- Nobody Waits for a Call That Waits
------------------------------------------------------------

variable
  {ι : Type}
  {calls : ι → Call}
  {kind : DbKind}

/- Two calls have no value in common. -/
def Separated (calls : ι → Call) : Prop :=
  ∀ i j, i ≠ j → ∀ k ∈ (calls i).keys, k ∉ (calls j).keys

/- Separated calls can only want the same table name. -/
theorem Separated.common
    {i j : ι}
    {k : Key}
    (hSeparated : Separated calls)
    (hOther : j ≠ i)
    (hFirst : (calls i).MayBring k)
    (hSecond : (calls j).MayBring k) :
    ∃ create create', calls i = .create create ∧
      calls j = .create create' ∧
        k = .tableIdent create.ident ∧
          k = .tableIdent create'.ident := by
  cases k with
  | tableIdent ident =>
      rcases hFirst with ⟨create, hCreate, rfl⟩
      rcases hSecond with ⟨create', hCreate', hIdent⟩
      exact ⟨create, create', hCreate, hCreate', rfl,
        by rw [hIdent]⟩
  | columnName schemaUuid name =>
      exact absurd hFirst
        (hSeparated j i hOther _ hSecond)
  | _ =>
      exact absurd hFirst (hSeparated j i hOther _ hSecond)

/- What is known of a running system of calls. -/
structure Orderly
    [DecidableEq ι]
    (ext : External)
    (kind : DbKind)
    (calls : ι → Call)
    (sys : CatalogSystem ι) : Prop where
  kinds : ∀ i, (calls i).kind = kind
  separated : kind = .postgres → Separated calls
  separate : System.Separate sqlStore sys
  underway : ∀ i wr, sys.writers i = some wr →
    Underway ext (calls i) wr

variable
  [DecidableEq ι]
  {sys sys' : CatalogSystem ι}
  {i j : ι}

/- A call that another one waits for has begun. -/
theorem Orderly.waited
    (hOrderly : Orderly ext kind calls sys)
    (hWaits : System.Waits sqlStore sys i j) :
    ∃ staged locks rest,
      sys.writers j = some ⟨staged, locks, rest⟩ ∧
      (kind = .sqlite → Lock.database ∈ locks) ∧
      (kind = .postgres → rest.StagesFreely
        (Statement.Brings (calls j).MayBring)) := by
  have hBegun {w : CatalogWriter}
      (hOwner : sys.writers j = some w)
      (hBusy : w.staged ≠ [] ∨ w.locks ≠ []) :
      (kind = .sqlite → Lock.database ∈ w.locks) ∧
        (kind = .postgres → w.rest.StagesFreely
          (Statement.Brings (calls j).MayBring)) := by
    rw [← hOrderly.kinds j]
    cases hOrderly.underway j w hOwner with
    | idle => simp at hBusy
    | begun hSqlite hPostgres =>
        exact ⟨hSqlite, fun hKind => (hPostgres hKind).2.1⟩
  cases hWaits with
  | @lock w _ _ _ _ l hWriter hOther hOwner hLock hHolds =>
      exact ⟨_, _, _, hOwner, hBegun hOwner
        (.inr (List.ne_nil_of_mem hHolds))⟩
  | @key w _ _ _ _ k hWriter hOther hOwner hKey hHolds =>
      refine ⟨_, _, _, hOwner, hBegun hOwner (.inl ?_)⟩
      intro hNone
      rw [hNone] at hHolds
      cases hHolds

/- On SQLite one call at a time has begun. -/
theorem Orderly.waits_sqlite
    {k : ι}
    (hOrderly : Orderly ext .sqlite calls sys)
    (hWaits : System.Waits sqlStore sys i j) :
    ¬ System.Waits sqlStore sys j k := by
  intro hAlso
  rcases hOrderly.waited hWaits with
    ⟨_, _, _, hFirst, hLock, _⟩
  rcases hOrderly.waited hAlso with
    ⟨_, _, _, hSecond, hLock', _⟩
  have hSame := hOrderly.separate.locks hFirst hSecond
    (hLock rfl) (hLock' rfl)
  cases hAlso with
  | lock _ hOther _ _ _ => exact hOther hSame.symm
  | key _ hOther _ _ _ => exact hOther hSame.symm

/-
  On PostgreSQL a call that has begun waits for no lock, and
  for a key only if another one creates the same table.
-/
theorem Orderly.waits_postgres
    {k : ι}
    (hOrderly : Orderly ext .postgres calls sys)
    (hWaits : System.Waits sqlStore sys i j) :
    ¬ System.Waits sqlStore sys j k := by
  intro hAlso
  have hSeparated := hOrderly.separated rfl
  rcases hOrderly.waited hWaits with
    ⟨_, _, _, hWriter, _, hRest⟩
  have hFree := hRest rfl
  have hStaged {m : ι} {w : CatalogWriter}
      (hOwner : sys.writers m = some w)
      {key : Key}
      (hHolds : key ∈ w.staged.flatMap Statement.keys) :
      (calls m).MayBring key := by
    cases hOrderly.underway m w hOwner with
    | idle => cases hHolds
    | begun hSqlite hPostgres =>
        rcases List.mem_flatMap.mp hHolds with
          ⟨s, hStatement, hKey⟩
        exact (hPostgres (hOrderly.kinds m)).1 s
          hStatement key hKey
  cases hAlso with
  | @lock w staged locks lock next l hAsks hOther hOwner
      hLock hHolds =>
      rw [hWriter] at hAsks
      cases hAsks
      rw [(hFree _).1] at hLock
      cases hLock
  | @key w staged locks s next key hStages hOther hOwner
      hKey hHolds =>
      rw [hWriter] at hStages
      cases hStages
      rcases hSeparated.common hOther
          (hFree.1 key hKey) (hStaged hOwner hHolds) with
        ⟨create, create', hCreate, hCreate', rfl, _⟩
      cases hWaits with
      | @lock w' _ _ _ _ l _ _ hOwner' _ hHolds' =>
          cases hOrderly.underway j w' hOwner' with
          | idle => cases hHolds'
          | begun hSqlite hPostgres =>
              have hNone := (hPostgres
                (hOrderly.kinds j)).2.2 create hCreate
              rw [hNone] at hHolds'
              cases hHolds'
      | @key w' _ _ _ _ key' hStages' hOther' hOwner'
          hKey' hHolds' =>
          have hBrings : (calls i).MayBring key' := by
            generalize hFirst :
              (⟨_, _, .stage _ _⟩ : CatalogWriter) = first
                at hStages'
            cases hOrderly.underway i first hStages' with
            | idle =>
                exact absurd
                  (congrArg Writer.rest hFirst).symm
                  (OnCourse.tx_ne_stage _)
            | begun hSqlite hPostgres =>
                cases hFirst
                exact (hPostgres
                  (hOrderly.kinds i)).2.1.1 key' hKey'
          rcases hSeparated.common hOther' hBrings
              (hStaged hOwner' hHolds') with
            ⟨_, other, _, hOtherCreate, _, rfl⟩
          rw [hCreate, Call.create.injEq] at hOtherCreate
          subst hOtherCreate
          exact hOther (hOrderly.separate.keys hOwner
            hOwner' hHolds hHolds')

theorem Orderly.waits_once
    {k : ι}
    (hOrderly : Orderly ext kind calls sys)
    (hWaits : System.Waits sqlStore sys i j) :
    ¬ System.Waits sqlStore sys j k := by
  cases kind with
  | sqlite => exact hOrderly.waits_sqlite hWaits
  | postgres => exact hOrderly.waits_postgres hWaits

theorem System.Reachable.orderly
    {db : Database}
    (hKinds : ∀ i, (calls i).kind = kind)
    (hSeparated : kind = .postgres → Separated calls)
    (hReach : System.Reachable sqlStore db
      (fun i => (calls i).tx ext) sys) :
    Orderly ext kind calls sys := by
  refine ⟨hKinds, hSeparated, hReach.separate, ?_⟩
  refine System.Reachable.each (fun _ => .idle) ?_ ?_ hReach
  · exact fun _ _ _ _ _ v hUnderway => hUnderway.ask v
  · exact fun _ _ _ _ _ hUnderway => hUnderway.stage

/-
  However calls of one backend interleave, nobody waits for
  a call that waits itself, all open calls can go on to their
  ends, and no run goes on for ever.  On PostgreSQL the calls
  must not share values.
-/
theorem System.Reachable.completes
    [Finite ι]
    {db : Database}
    (hKinds : ∀ i, (calls i).kind = kind)
    (hSeparated : kind = .postgres → Separated calls)
    (hReach : System.Reachable sqlStore db
      (fun i => (calls i).tx ext) sys) :
    (∀ i j k, System.Waits sqlStore sys i j →
      ¬ System.Waits sqlStore sys j k) ∧
    (∃ sys',
      Relation.ReflTransGen (System.Advance sqlStore) sys
        sys' ∧
      ∀ i, sys'.writers i = none) ∧
    ¬ ∃ run : Nat → CatalogSystem ι,
      run 0 = sys ∧
        ∀ n, CatalogSystem.Step (run n) (run (n + 1)) := by
  have hOrderly := hReach.orderly hKinds hSeparated
  refine ⟨fun i j k => hOrderly.waits_once, ?_, ?_⟩
  · let Good (sys : CatalogSystem ι) : Prop :=
      System.Reachable sqlStore db
        (fun i => (calls i).tx ext) sys
    refine @System.all_end ι _ _ _ _ _ _ _ sqlStore sys
      _ Good ?_ ?_ hReach
    · rintro sys sys' hGood ⟨event, hStep, _⟩
      exact hGood.step hStep
    · intro sys i j k hGood
      exact (hGood.orderly hKinds hSeparated).waits_once
  · rintro ⟨run, _, hSteps⟩
    exact (wellFounded_iff_isEmpty_descending_chain.mp
      (System.wellFounded_step sqlStore)).false
        ⟨run, hSteps⟩

/- The late creation waits for the name of the other. -/
def sampleWaiting : CatalogSystem Bool :=
  System.run sqlStore
    (System.start Database.empty fun i =>
      (Call.create (sampleCreations .postgres i)).tx
        sampleExternal)
    [false, true, false]

theorem completes_sample :
    (∀ i j k, System.Waits sqlStore sampleWaiting i j →
      ¬ System.Waits sqlStore sampleWaiting j k) ∧
    (∃ sys',
      Relation.ReflTransGen (System.Advance sqlStore)
        sampleWaiting sys' ∧
      ∀ i, sys'.writers i = none) ∧
    ¬ ∃ run : Nat → CatalogSystem Bool,
      run 0 = sampleWaiting ∧
        ∀ n, CatalogSystem.Step (run n) (run (n + 1)) := by
  have hSeparated : Separated fun i =>
      Call.create (sampleCreations .postgres i) := by
    change ∀ i j : Bool, i ≠ j →
      ∀ k ∈ (Call.create (sampleCreations .postgres
        i)).keys,
        k ∉ (Call.create (sampleCreations .postgres
          j)).keys
    decide +kernel
  have hKinds (i : Bool) :
      (Call.create (sampleCreations .postgres i)).kind =
        .postgres := rfl
  exact System.Reachable.completes hKinds
    (fun _ => hSeparated) (System.reachable_run .start)

------------------------------------------------------------
-- A Circle of Waiting Commits
------------------------------------------------------------

def sampleTable (second : Bool) : TableIdent :=
  ⟨"n", if second then "u" else "t"⟩

/- Two tables on PostgreSQL. -/
def sampleTables : World :=
  World.run sampleExternal
    ([false, true].map fun second =>
      .create
        { catalog := ⟨.postgres, {}⟩
          ident := sampleTable second
          location := "l"
          schema := ⟨[⟨"a", .int32, false⟩]⟩
          properties := none
          draws := sampleDraws (if second then 2 else 1) })

/- The same two file UUIDs, appended in opposite orders. -/
def sampleCrossing (second : Bool) : Call :=
  let append (u : Uuid) : MutationOp :=
    .appendFiles [{ sampleFile with fileUuid := some u }]
  .commit
    { catalog := ⟨.postgres, {}⟩
      ident := sampleTable second
      base := if second then 2 else 1
      mutation := ⟨if second then [append 9, append 8]
        else [append 8, append 9]⟩
      draws := sampleDraws (if second then 4 else 3) }

/- Each has staged the UUID that the other one wants. -/
def sampleCircle : CatalogSystem Bool :=
  System.run sqlStore
    (System.start sampleTables.database fun i =>
      (sampleCrossing i).tx sampleExternal)
    [false, false, false, true, true, true]

/-
  Calls that share values can come to wait for each other,
  until the database drops one of them.
-/
example : ∀ i : Bool,
    (sampleCircle.writers i).isSome ∧
      (System.next sqlStore sampleCircle i).isNone := by
  decide +kernel

end Planar
