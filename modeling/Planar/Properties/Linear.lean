import Planar.Foundations.Schedule
import Planar.History.Writers
import Planar.Properties.TimeTravel

/-
  No update is lost: whatever the interleaving of the
  writing calls, the transactions of a table are one chain
  of the successful calls.

  Main declarations:
    * `OneChain`, `World.Reachable.oneChain`
    * `World.Reachable.bases_nodup`
    * `System.Reachable.linear`
-/

------------------------------------------------------------
-- One Chain for Each Table
------------------------------------------------------------

namespace Planar

variable
  {ext : External}
  {w w' : World}

/- The id of the transaction that a call adds. -/
def Call.transactionId (call : Call) : TxnId :=
  call.entry.transactionId

/- The transaction on which a commit is based. -/
def Call.base : Call → Option TxnId
| .create _ => none
| .commit call => some call.base

/-
  The transactions of a table are those of its successful
  calls, each with the one before it as its parent: from the
  head of the table down to the root of its creation.
-/
structure OneChain
    (db : Database)
    (row : TableRow)
    (calls : List Call) : Prop where
  chained :
    Chained db row.tableUuid
      (calls.map Call.transactionId)
  head :
    row.currentTransactionId =
      (calls.map Call.transactionId).getLast?
  created : ∃ create rest,
    calls = .create create :: rest ∧
      ∀ call ∈ rest, ∃ commit, call = .commit commit

namespace World

theorem ids_history
    (w : World)
    (ident : TableIdent) :
    (w.history ident).ids =
      (w.callsOn ident).map Call.transactionId := by
  rw [history_eq, History.ids, List.map_map]
  rfl

theorem Inv.parent
    {row : TableRow}
    {before after : List Call}
    {call : Call}
    (hInv : w.Inv ext)
    (hRow : row ∈ w.database.tables)
    (hCalls :
      w.callsOn row.ident = before ++ call :: after) :
    call.base =
      (before.map Call.transactionId).getLast? := by
  have hLinked := (hInv.lawful row hRow).linked
  rw [history_eq, hCalls, List.map_append,
    List.map_cons] at hLinked
  have hParent := hLinked.parent
  rw [History.ids, List.map_map] at hParent
  have hBase : call.base =
      call.entry.parentTransactionId := by
    cases call <;> rfl
  exact hBase.trans hParent

/- Every table is one chain of its successful calls. -/
theorem Reachable.oneChain
    {row : TableRow}
    (hReach : w.Reachable ext)
    (hRow : row ∈ w.database.tables) :
    OneChain w.database row (w.callsOn row.ident) := by
  have hInv := hReach.inv
  constructor
  case chained =>
    rw [← ids_history]
    exact (hInv.holds hRow).chained
  case head =>
    rw [← ids_history]
    exact (hInv.tracked row hRow).head
  case created =>
    rcases (hReach.created row hRow).first with
      ⟨create, hFirst, _⟩
    cases hCalls : w.callsOn row.ident with
    | nil =>
        rw [hCalls] at hFirst
        cases hFirst
    | cons first rest =>
        rw [hCalls] at hFirst
        cases hFirst
        refine ⟨create, rest, rfl, ?_⟩
        intro call hCall
        rcases List.append_of_mem hCall with
          ⟨before, after, hSplit⟩
        rw [hSplit] at hCalls
        have hParent : call.base =
            ((Call.create create :: before).map
              Call.transactionId).getLast? :=
          hInv.parent hRow hCalls
        cases call with
        | commit commit => exact ⟨commit, rfl⟩
        | create other =>
            have hNone := List.getLast?_eq_none_iff.mp
              hParent.symm
            cases hNone

------------------------------------------------------------
-- No Two Commits on One Base
------------------------------------------------------------

/- The base of an earlier commit is no longer the head. -/
theorem Inv.base_of_mem
    {call : Call}
    {base : TxnId}
    (hInv : w.Inv ext)
    (hCall : call ∈ w.calls)
    (hBase : call.base = some base) :
    ∃ row ∈ w.database.tables,
      base ∈ (w.history row.ident).ids ∧
        row.currentTransactionId ≠ some base := by
  rcases hInv.known call hCall with ⟨row, hRow, hIdent⟩
  have hOn : call ∈ w.callsOn row.ident :=
    List.mem_filter.mpr ⟨hCall, decide_eq_true hIdent.symm⟩
  rcases List.append_of_mem hOn with
    ⟨before, after, hSplit⟩
  have hLast := hInv.parent hRow hSplit
  rw [hBase] at hLast
  have hBefore := List.mem_of_getLast? hLast.symm
  have hNodup := (hInv.holds hRow).chained.nodup
  rw [ids_history, hSplit, List.map_append] at hNodup
  refine ⟨row, hRow, ?_, ?_⟩
  · rw [ids_history, hSplit, List.map_append]
    exact List.mem_append_left _ hBefore
  · intro hHead
    rw [(hInv.tracked row hRow).head, ids_history, hSplit,
      List.map_append, List.map_cons,
      List.getLast?_append_cons] at hHead
    exact (List.nodup_append.mp hNodup).2.2 base hBefore
      base (List.mem_of_getLast? hHead) rfl

/- A transaction belongs to one table. -/
theorem Inv.table_of_transaction
    {row row' : TableRow}
    {t : TxnId}
    (hInv : w.Inv ext)
    (hRow : row ∈ w.database.tables)
    (hRow' : row' ∈ w.database.tables)
    (hIn : t ∈ (w.history row.ident).ids)
    (hIn' : t ∈ (w.history row'.ident).ids) :
    row = row' := by
  have hStored : ∀ {r : TableRow}, r ∈ w.database.tables →
      t ∈ (w.history r.ident).ids →
        ∃ x ∈ w.database.transactions,
          x.transactionId = t ∧
            x.tableUuid = r.tableUuid := by
    intro r hr ht
    rcases List.mem_map.mp ht with ⟨e, hEntry, hId⟩
    have hOwn := List.mem_map_of_mem
      (f := Entry.transactionRow r.tableUuid) hEntry
    rw [← (hInv.tracked r hr).transactions] at hOwn
    exact ⟨_, (List.mem_filter.mp hOwn).1, hId, rfl⟩
  rcases hStored hRow hIn with ⟨x, hx, hId, hTable⟩
  rcases hStored hRow' hIn' with ⟨y, hy, hId', hTable'⟩
  have hSame := List.inj_on_of_nodup_map
    hInv.sound.transactionIds hx hy (hId.trans hId'.symm)
  apply hInv.sound.table_unique hRow hRow'
  rw [← hTable, ← hTable', hSame]

theorem Reachable.bases_nodup
    (hReach : w.Reachable ext) :
    (w.calls.filterMap Call.base).Nodup := by
  induction hReach with
  | refl => exact List.nodup_nil
  | @tail w w' hSteps hStep ih =>
      have hInv := Reachable.inv hSteps
      cases hInv.moves hStep with
      | stays => exact ih
      | @creates call db' hSound hCreates =>
          have hLast :
              [Call.create call].filterMap Call.base =
                [] := rfl
          rw [List.filterMap_append, hLast, List.append_nil]
          exact ih
      | @commits call db' row properties hSound hCommits =>
          rw [List.filterMap_append]
          have hLast :
              [Call.commit call].filterMap Call.base =
                [call.base] := rfl
          rw [hLast, List.nodup_append]
          refine ⟨ih, List.nodup_singleton _, ?_⟩
          rintro base hBase _ hNew rfl
          rw [List.mem_singleton] at hNew
          subst hNew
          rcases List.mem_filterMap.mp hBase with
            ⟨old, hOld, hOldBase⟩
          rcases hInv.base_of_mem hOld hOldBase with
            ⟨row', hRow', hIn, hNotHead⟩
          have hRow :=
            (Database.findTable_some hCommits.found).1
          have hHead := (hInv.tracked row hRow).head
          rw [hCommits.head] at hHead
          have hSame := hInv.table_of_transaction hRow' hRow
            hIn (List.mem_of_getLast? hHead.symm)
          exact hNotHead (hSame ▸ hCommits.head)

end World

------------------------------------------------------------
-- Any Interleaving
------------------------------------------------------------

variable
  {ι : Type}
  {calls : ι → Call}
  {w₀ : World}
  {kind : DbKind}
  {sys sys' : CatalogSystem ι}

/- The lock under which a commit to a table row works. -/
def writeLock (kind : DbKind) (row : TableRow) : Lock :=
  match kind with
  | .sqlite => .database
  | .postgres => .tableRow row.tableUuid

/- A commit holds its lock, and its base is the head. -/
def HoldsHead
    (kind : DbKind)
    (sys : CatalogSystem ι)
    (i : ι)
    (call : CommitCall) : Prop :=
  ∃ row wr,
    sys.committed.findTable call.ident = some row ∧
    row.currentTransactionId = some call.base ∧
    sys.writers i = some wr ∧
    writeLock kind row ∈ wr.locks

variable [DecidableEq ι]

/-
  While the calls go on, the walk over the parents from the
  head of a table neither meets a cycle nor misses a row,
  whatever id is looked for.
-/
structure SafeWalks
    (sys : CatalogSystem ι)
    (row : TableRow)
    (ids : List TxnId) : Prop where
  check : ∀ current target sys' r,
    row.currentTransactionId = some current →
    Query.Runs CatalogSystem.Step System.committed sys
      (checkInHistory row.tableUuid current target)
      sys' r →
    r = .ok () ∨
      r = .error (.returned (.invalidArgument
        ("requested transaction is not in " ++
          "table history")))
  collect : ∀ fromExclusive toInclusive sys' r,
    toInclusive ∈ ids →
    Query.Runs CatalogSystem.Step System.committed sys
      (collectPath row.tableUuid fromExclusive
        maxTransactionsPerScan [] toInclusive) sys' r →
    r = .error scanLimitExceeded ∨ ∃ path, r = .ok path

/-
  What holds in every state that the calls `calls` reach
  from the database of the run `w₀`.
-/
structure LinearHistory
    (ext : External)
    (kind : DbKind)
    (calls : ι → Call)
    (w₀ : World)
    (sys : CatalogSystem ι) : Prop where
  chain : ∀ row ∈ sys.committed.tables,
    OneChain sys.committed row
      ((w₀.calls ++ sys.succeeded.map fun s =>
        calls s.1).filter fun call =>
          call.ident = row.ident)
  bases :
    ((w₀.calls ++ sys.succeeded.map fun s =>
      calls s.1).filterMap Call.base).Nodup
  succeeds : ∀ i u sys',
    System.Step sqlStore sys (.succeeded i u) sys' →
    (calls i).perform ext sys.committed =
        (.ok (), sys'.committed) ∧
      ∀ call, calls i = .commit call →
        HoldsHead kind sys i call
  unchanged : ∀ event sys',
    System.Step sqlStore sys event sys' →
    (∀ i u, event ≠ .succeeded i u) →
    sys'.committed = sys.committed ∧
      sys'.succeeded = sys.succeeded
  walks : ∀ row ∈ sys.committed.tables,
    SafeWalks sys row
      ((sys.committed.transactionsOf row.tableUuid).map
        TransactionRow.transactionId)

namespace Serial

/- The chain of a table only grows while calls go on. -/
theorem growsFrom
    {row : TableRow}
    (hSerial : Serial ext calls w₀ w sys)
    (hKinds : ∀ i, (calls i).kind = kind)
    (hSep : System.Separate sqlStore sys)
    (hRow : row ∈ w.database.tables) :
    GrowsFrom CatalogSystem.Step System.committed
      row.tableUuid (w.history row.ident).ids sys := by
  intro sys' hSteps
  rcases hSerial.steps hKinds hSep hSteps with
    ⟨w', hRun, hSerial', _⟩
  rw [← hSerial'.rows]
  exact hSerial.reachable.inv.growsFrom hRow w' hRun

theorem safeWalks
    {row : TableRow}
    (hSerial : Serial ext calls w₀ w sys)
    (hKinds : ∀ i, (calls i).kind = kind)
    (hSep : System.Separate sqlStore sys)
    (hRow : row ∈ w.database.tables) :
    SafeWalks sys row
      ((w.database.transactionsOf row.tableUuid).map
        TransactionRow.transactionId) := by
  have hInv := hSerial.reachable.inv
  have hGrows := hSerial.growsFrom hKinds hSep hRow
  have hTracked := hInv.tracked row hRow
  have hIds :
      (w.database.transactionsOf row.tableUuid).map
          TransactionRow.transactionId =
        (w.history row.ident).ids := by
    rw [hTracked.transactions, List.map_map]
    rfl
  constructor
  case check =>
    intro current target sys' r hHead hRuns
    rw [hTracked.head] at hHead
    rcases List.getLast?_eq_some_iff.mp hHead with
      ⟨before, hSplit⟩
    rw [hSplit] at hGrows
    have hResult := runs_checkInHistory hGrows hRuns
    split at hResult
    · exact .inl hResult
    · exact .inr hResult
  case collect =>
    intro fromExclusive toInclusive sys' r hIn hRuns
    rw [hIds] at hIn
    rcases List.append_of_mem hIn with
      ⟨before, later, hSplit⟩
    rw [hSplit, List.append_cons] at hGrows
    rcases runs_collectPath hGrows
      (fun v hv => by cases hv) hRuns with
        hLimit | ⟨path, reached, hOk, _⟩
    · exact .inl hLimit
    · exact .inr ⟨_, hOk⟩

/- What a commit that succeeds has checked under its lock. -/
omit [DecidableEq ι] in
theorem holdsHead
    {i : ι}
    {staged : List Statement}
    {locks : List Lock}
    {call : CommitCall}
    (hSerial : Serial ext calls w₀ w sys)
    (hKinds : ∀ i, (calls i).kind = kind)
    (hWriter :
      sys.writers i =
        some ⟨staged, locks, .done (.ok ())⟩)
    (hCall : calls i = .commit call) :
    HoldsHead kind sys i call := by
  have hPerform := hSerial.perform hWriter
  rw [hCall] at hPerform
  rcases World.perform_commit_ok hPerform with ⟨r, hOk⟩
  rcases commit_ok hOk with ⟨_, row, properties, hCommits⟩
  rcases (hSerial.course i _ hWriter).locks_of_done with
    ⟨hDatabase, hRow⟩
  refine ⟨row, _, hCommits.found, hCommits.head, hWriter, ?_⟩
  cases kind with
  | sqlite => exact hDatabase (hKinds i)
  | postgres =>
      apply hRow (hKinds i)
      rw [hCall]
      exact hCommits.found

end Serial

/-
  History is linear in every state of every interleaving of
  creations and commits, which may fail or be dropped at any
  step.
-/
theorem System.Reachable.linear
    (hStart : w₀.Reachable ext)
    (hKinds : ∀ i, (calls i).kind = kind)
    (hReach : System.Reachable sqlStore w₀.database
      (fun i => (calls i).tx ext) sys) :
    LinearHistory ext kind calls w₀ sys := by
  rcases hReach.serial hStart hKinds with ⟨w, hSerial⟩
  have hWorld := hSerial.reachable
  constructor
  case chain =>
    intro row hRow
    rw [← hSerial.rows] at hRow ⊢
    rw [← hSerial.succeeded]
    exact hWorld.oneChain hRow
  case bases =>
    rw [← hSerial.succeeded]
    exact hWorld.bases_nodup
  case succeeds =>
    intro i u sys' hStep
    cases hStep with
    | succeed hWriter =>
        exact ⟨hSerial.perform hWriter,
          fun call hCall =>
            hSerial.holdsHead hKinds hWriter hCall⟩
  case unchanged =>
    intro event sys' hStep hEvent
    exact hStep.committed_eq hEvent
  case walks =>
    intro row hRow
    rw [← hSerial.rows] at hRow ⊢
    exact hSerial.safeWalks hKinds hReach.separate hRow

/- Two commits on the same base. -/
def sampleRivals (i : Fin 2) : Call :=
  sampleCommit (i.val + 2) 1 [.appendFiles [sampleFile]]

/- The second one waits for the lock of the first one. -/
def sampleRace : CatalogSystem (Fin 2) :=
  System.run sqlStore
    (System.start
      (World.run sampleExternal [sampleCreate 1]).database
      fun i => (sampleRivals i).tx sampleExternal)
    [0, 1, 0, 1, 0, 0, 1, 0, 0, 0, 1, 1, 1]

theorem linear_sample :
    sampleRace.succeeded = [(0, ())] ∧
      (sampleRace.writers 1).isNone ∧
      LinearHistory sampleExternal .sqlite sampleRivals
        (World.run sampleExternal [sampleCreate 1])
        sampleRace :=
  ⟨by decide +kernel, by decide +kernel,
    System.Reachable.linear (World.reachable_run ..)
      (fun _ => rfl) (System.reachable_run .start)⟩

end Planar
