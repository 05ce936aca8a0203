import Planar.Database.Frame
import Planar.Reading.OwnRows

/-
  Writing calls whose steps interleave.  A call that ends
  with a success has acted on the committed rows as if it
  had run alone, so the successes make a run of calls.

  Main declarations:
    * `Call.tx`, `Call.perform_eq`
    * `OnCourse`
    * `Serial`, `System.Reachable.serial`
-/

------------------------------------------------------------
-- Calls as Transactions
------------------------------------------------------------

namespace Planar

variable {ext : External}

/- The transaction of a `create_table` call. -/
def CreateCall.tx
    (ext : External)
    (call : CreateCall) : CatalogTx Unit :=
  createTableTx ext call.catalog call.ident call.location
    call.schema call.properties call.draws

/- The transaction of a `commit` call. -/
def CommitCall.tx
    (ext : External)
    (call : CommitCall) : CatalogTx Unit := do
  let _ ← commitTx ext call.catalog call.ident call.base
    call.mutation call.draws
  pure ()

/- What is left of a commit that has read its table row. -/
def CommitCall.toRow
    (ext : External)
    (call : CommitCall)
    (found : Option TableRow) : CatalogTx Unit := do
  let _ ← commitToRow ext call.catalog call.ident call.base
    call.mutation call.draws found
  pure ()

namespace Call

def tx (ext : External) : Call → CatalogTx Unit
| .create call => call.tx ext
| .commit call => call.tx ext

theorem tx_create
    (call : CreateCall) :
    (Call.create call).tx ext = call.tx ext := rfl

theorem tx_commit
    (call : CommitCall) :
    (Call.commit call).tx ext = call.tx ext := rfl

/- The backend on which the call is made. -/
def kind : Call → DbKind
| .create call => call.catalog.kind
| .commit call => call.catalog.kind

/- Performing a call is running its transaction alone. -/
theorem perform_eq
    (call : Call)
    (db : Database) :
    call.perform ext db =
      runTransaction db (call.tx ext) := by
  cases call with
  | create call => rfl
  | commit call =>
      simp only [perform, Planar.commit, runTransaction, tx,
        CommitCall.tx]
      rw [Tx.exec_bind]
      cases (commitTx ext call.catalog call.ident call.base
        call.mutation call.draws).exec sqlStore db with
      | error e => rfl
      | ok r => rfl

theorem perform_ok
    {call : Call}
    {db db' : Database}
    (hExec :
      (call.tx ext).exec sqlStore db = .ok ((), db')) :
    call.perform ext db = (.ok (), db') := by
  rw [perform_eq]
  exact runTransaction_ok.mpr hExec

end Call

------------------------------------------------------------
-- The First Steps of a Call
------------------------------------------------------------

theorem CommitCall.tx_of_checked
    {call : CommitCall}
    (hChecked : precheck call.mutation = .ok ()) :
    call.tx ext =
      ((beginTransaction call.catalog.kind) >>= fun _ =>
        .ask (headerLock call.catalog.kind call.ident)
          fun v => call.toRow ext
            (v.findTable call.ident)) := by
  unfold tx commitTx
  rw [hChecked]
  cases call.catalog.kind <;> rfl

/- What is left of a creation after the existence check. -/
def CreateCall.afterCheck
    (ext : External)
    (call : CreateCall)
    (found : Bool) : CatalogTx Unit := do
  let tableExists ←
    Tx.lift (decodeSelectOne call.catalog.kind found)
  if tableExists then
    Tx.fail (.returned (.conflict
      s!"table already exists: {call.ident.toText}"))
  else
    let propertiesValue := call.properties.getD {}
    let propertiesText ←
      Tx.lift (serializeJson ext propertiesValue.toJson)
    insertNewTable ext call.catalog call.ident
      call.location propertiesText call.schema call.draws

theorem CreateCall.tx_of_valid
    {call : CreateCall}
    (hValid : call.schema.validate = .ok ()) :
    call.tx ext =
      ((beginTransaction call.catalog.kind) >>= fun _ =>
        .ask (fun _ => none) fun v => call.afterCheck ext
          (v.findTable call.ident).isSome) := by
  unfold tx createTableTx afterCheck
  rw [hValid]
  cases call.catalog.kind <;> rfl

/- The first step of a call, unless it fails at once. -/
inductive FirstStep
    (ext : External) : Call → CatalogTx Unit → Prop
  | fails {call : Call} {e : Fault} :
      FirstStep ext call (.done (.error e))
  | locks {call : Call} {next : Database → CatalogTx Unit}
      (hKind : call.kind = .sqlite) :
      FirstStep ext call
        (.ask (fun _ => some .database) next)
  | reads {call : CommitCall}
      (hKind : call.catalog.kind = .postgres) :
      FirstStep ext (.commit call)
        (.ask (headerLock .postgres call.ident) fun v =>
          call.toRow ext (v.findTable call.ident))
  | checks {call : CreateCall}
      (hKind : call.catalog.kind = .postgres) :
      FirstStep ext (.create call)
        (.ask (fun _ => none) fun v => call.afterCheck ext
          (v.findTable call.ident).isSome)

theorem Call.firstStep
    (call : Call) :
    FirstStep ext call (call.tx ext) := by
  cases call with
  | create call =>
      change FirstStep ext (.create call) (call.tx ext)
      cases hValid : call.schema.validate with
      | error e =>
          have hTx : call.tx ext = .done (.error e) := by
            unfold CreateCall.tx createTableTx
            rw [hValid]
            rfl
          rw [hTx]
          exact .fails
      | ok u =>
          rw [CreateCall.tx_of_valid hValid]
          cases hKind : call.catalog.kind with
          | sqlite => exact .locks hKind
          | postgres => exact .checks hKind
  | commit call =>
      change FirstStep ext (.commit call) (call.tx ext)
      cases hChecked : precheck call.mutation with
      | error e =>
          have hTx : call.tx ext = .done (.error e) := by
            unfold CommitCall.tx commitTx
            rw [hChecked]
            rfl
          rw [hTx]
          exact .fails
      | ok u =>
          rw [CommitCall.tx_of_checked hChecked]
          cases hKind : call.catalog.kind with
          | sqlite => exact .locks hKind
          | postgres => exact .reads hKind

------------------------------------------------------------
-- Calls on Their Course
------------------------------------------------------------

/- The text of the properties of a creation can be stored. -/
def CreateCall.Fits
    (ext : External)
    (call : CreateCall) : Prop :=
  ∃ text, serializeJson ext
    (call.properties.getD {}).toJson = .ok text

/- The inserts of a creation. -/
def CreateCall.inserts
    (ext : External)
    (call : CreateCall)
    (text : String) : CatalogTx Unit :=
  insertNewTable ext call.catalog call.ident call.location
    text call.schema call.draws

/- On PostgreSQL a missing table leads to the inserts. -/
theorem CreateCall.afterCheck_none
    (call : CreateCall)
    {text : String}
    (hKind : call.catalog.kind = .postgres)
    (hText :
      serializeJson ext (call.properties.getD {}).toJson =
        .ok text) :
    call.afterCheck ext (none : Option TableRow).isSome =
      call.inserts ext text := by
  unfold afterCheck
  rw [hKind]
  change (Tx.lift (serializeJson ext
    (call.properties.getD {}).toJson) >>= fun text =>
      call.inserts ext text) = _
  rw [hText]
  rfl

/- On PostgreSQL a table that is there ends the call. -/
theorem CreateCall.afterCheck_some
    (call : CreateCall)
    (hKind : call.catalog.kind = .postgres) :
    call.afterCheck ext true =
      .done (.error (.returned
        (.storage (.columnDecode "0")))) := by
  unfold afterCheck
  rw [hKind]
  rfl

theorem CreateCall.afterCheck_not_fits
    (call : CreateCall)
    {e : Fault}
    (hKind : call.catalog.kind = .postgres)
    (hText :
      serializeJson ext (call.properties.getD {}).toJson =
        .error e) :
    call.afterCheck ext (none : Option TableRow).isSome =
      .done (.error e) := by
  unfold afterCheck
  rw [hKind]
  change (Tx.lift (serializeJson ext
    (call.properties.getD {}).toJson) >>= fun text =>
      call.inserts ext text) = _
  rw [hText]
  rfl

abbrev CatalogWriter :=
  Writer Database Statement Lock Fault Unit

/-
  Where an open call can be when the committed rows are
  `db`.  Unless it has not begun or is bound to fail, it is
  at a point that it reaches when it runs alone against
  `db`: it holds a lock, or it creates a table that is not
  there.
-/
inductive OnCourse
    (ext : External)
    (db : Database) : Call → CatalogWriter → Prop
  | idle {call : Call} :
      OnCourse ext db call ⟨[], [], call.tx ext⟩
  | locked {call : Call} {staged : List Statement}
      {locks : List Lock} {rest : CatalogTx Unit}
      (hKind : call.kind = .sqlite)
      (hLock : .database ∈ locks)
      (hReaches :
        Tx.Reaches sqlStore db (call.tx ext) staged rest) :
      OnCourse ext db call ⟨staged, locks, rest⟩
  | rowLocked {call : CommitCall} {row : TableRow}
      {staged : List Statement} {locks : List Lock}
      {rest : CatalogTx Unit}
      (hKind : call.catalog.kind = .postgres)
      (hTx : call.tx ext =
        .ask (headerLock .postgres call.ident) fun v =>
          call.toRow ext (v.findTable call.ident))
      (hFind : db.findTable call.ident = some row)
      (hLock : .tableRow row.tableUuid ∈ locks)
      (hReaches :
        Tx.Reaches sqlStore db (call.toRow ext (some row))
          staged rest) :
      OnCourse ext db (.commit call) ⟨staged, locks, rest⟩
  | absent {call : CreateCall} {text : String}
      {staged : List Statement} {locks : List Lock}
      {rest : CatalogTx Unit}
      (hKind : call.catalog.kind = .postgres)
      (hTx : call.tx ext =
        .ask (fun _ => none) fun v => call.afterCheck ext
          (v.findTable call.ident).isSome)
      (hText :
        serializeJson ext
          (call.properties.getD {}).toJson = .ok text)
      (hNone : db.findTable call.ident = none)
      (hReaches :
        Tx.Reaches sqlStore db (call.inserts ext text)
          staged rest)
      (hStaged :
        (staged = [] ∧ rest = call.inserts ext text) ∨
          .tableIdent call.ident ∈
            staged.flatMap Statement.keys) :
      OnCourse ext db (.create call) ⟨staged, locks, rest⟩
  | failing {call : Call} {staged : List Statement}
      {locks : List Lock} {e : Fault}
      (hKind : call.kind = .postgres)
      (hWhy : ∀ create, call = .create create →
        create.Fits ext →
          .tableIdent create.ident ∈ db.keyList ∧
            e = .returned (.storage (.columnDecode "0"))) :
      OnCourse ext db call
        ⟨staged, locks, .done (.error e)⟩
  | taken {call : CreateCall} {text : String}
      {locks : List Lock}
      (hKind : call.catalog.kind = .postgres)
      (hUsed : .tableIdent call.ident ∈ db.keyList) :
      OnCourse ext db (.create call)
        ⟨[], locks, call.inserts ext text⟩

namespace OnCourse

variable
  {db : Database}
  {call : Call}

/- A call is not done before it has begun. -/
theorem tx_ne_done
    (call : Call) :
    call.tx ext ≠ .done (.ok ()) := by
  intro hDone
  have hFirst : FirstStep ext call (call.tx ext) :=
    call.firstStep
  rw [hDone] at hFirst
  cases hFirst

theorem tx_ne_stage
    (call : Call)
    {s : Statement}
    {next : CatalogTx Unit} :
    call.tx ext ≠ .stage s next := by
  intro hStage
  have hFirst : FirstStep ext call (call.tx ext) :=
    call.firstStep
  rw [hStage] at hFirst
  cases hFirst

/- Where an open call can be when it is about to succeed. -/
theorem exec_of_done
    {staged : List Statement}
    {locks : List Lock}
    (hCourse :
      OnCourse ext db call
        ⟨staged, locks, .done (.ok ())⟩) :
    (call.tx ext).exec sqlStore db =
      .ok ((), sqlStore.apply db staged) := by
  generalize hWriter :
    (⟨staged, locks, .done (.ok ())⟩ : CatalogWriter) = w
      at hCourse
  cases hCourse with
  | idle =>
      exact absurd (congrArg Writer.rest hWriter).symm
        (tx_ne_done call)
  | locked hKind hLock hReaches =>
      cases hWriter
      exact hReaches.exec
  | @rowLocked call row _ _ _ hKind hTx hFind hLock
      hReaches =>
      cases hWriter
      have hAlone := hReaches.exec
      rw [← hFind] at hAlone
      rw [Call.tx_commit, hTx]
      exact hAlone
  | @absent call text _ _ _ hKind hTx hText hNone hReaches
      hStaged =>
      cases hWriter
      rw [Call.tx_create, hTx]
      change (call.afterCheck ext
        (db.findTable call.ident).isSome).exec sqlStore
          db = _
      rw [hNone, call.afterCheck_none hKind hText]
      exact hReaches.exec
  | failing hKind hWhy => cases hWriter
  | taken hKind hUsed => cases hWriter

/- The first question of a call. -/
theorem ask_idle
    {lock : Database → Option Lock}
    {next : Database → CatalogTx Unit}
    (hTx : call.tx ext = .ask lock next) :
    OnCourse ext db call
      ⟨[], [] ++ (lock (sqlStore.apply db [])).toList,
        next (sqlStore.apply db [])⟩ := by
  have hFirst : FirstStep ext call (call.tx ext) :=
    call.firstStep
  rw [hTx] at hFirst
  cases hFirst with
  | locks hKind =>
      have hStart : Tx.Reaches sqlStore db (call.tx ext) []
          (call.tx ext) := .start
      rw [hTx] at hStart
      refine .locked hKind List.mem_cons_self ?_
      rw [hTx]
      exact .ask hStart
  | @reads call hKind =>
      rw [Store.apply_nil]
      dsimp only
      cases hFind : db.findTable call.ident with
      | none =>
          have hMissing : call.toRow ext none =
              .done (.error (.returned (.notFound
                call.ident.toText))) := rfl
          rw [hMissing]
          refine .failing hKind fun create hCreate => ?_
          cases hCreate
      | some row =>
          refine .rowLocked hKind hTx hFind ?_ .start
          simp [headerLock, hFind]
  | @checks call hKind =>
      rw [Store.apply_nil]
      dsimp only
      cases hFind : db.findTable call.ident with
      | some row =>
          rw [Option.isSome_some, call.afterCheck_some hKind]
          refine .failing hKind fun create hCreate _ => ?_
          cases hCreate
          exact ⟨Database.mem_keyList_tableIdent.mpr
            ⟨row, Database.findTable_some hFind⟩, rfl⟩
      | none =>
          cases hText : serializeJson ext
              (call.properties.getD {}).toJson with
          | ok text =>
              rw [call.afterCheck_none hKind hText]
              exact .absent hKind hTx hText hFind .start
                (.inl ⟨rfl, rfl⟩)
          | error e =>
              rw [call.afterCheck_not_fits hKind hText]
              refine .failing hKind
                fun create hCreate hFits => ?_
              cases hCreate
              rcases hFits with ⟨text, hOk⟩
              rw [hText] at hOk
              cases hOk

/- What a call holds when it is about to succeed. -/
theorem locks_of_done
    {staged : List Statement}
    {locks : List Lock}
    (hCourse :
      OnCourse ext db call
        ⟨staged, locks, .done (.ok ())⟩) :
    (call.kind = .sqlite → .database ∈ locks) ∧
    (call.kind = .postgres → ∀ row,
      db.findTable call.ident = some row →
        .tableRow row.tableUuid ∈ locks) := by
  generalize hWriter :
    (⟨staged, locks, .done (.ok ())⟩ : CatalogWriter) = w
      at hCourse
  cases hCourse with
  | idle =>
      exact absurd (congrArg Writer.rest hWriter).symm
        (tx_ne_done call)
  | locked hKind hLock hReaches =>
      cases hWriter
      refine ⟨fun _ => hLock, fun hPostgres => ?_⟩
      rw [hKind] at hPostgres
      cases hPostgres
  | @rowLocked call row _ _ _ hKind hTx hFind hLock
      hReaches =>
      cases hWriter
      constructor
      · intro hSqlite
        rw [Call.kind, hKind] at hSqlite
        cases hSqlite
      · intro _ other hOther
        rw [Call.ident, hFind] at hOther
        cases hOther
        exact hLock
  | @absent call text _ _ _ hKind hTx hText hNone hReaches
      hStaged =>
      cases hWriter
      constructor
      · intro hSqlite
        rw [Call.kind, hKind] at hSqlite
        cases hSqlite
      · intro _ other hOther
        rw [Call.ident, hNone] at hOther
        cases hOther
  | failing hKind hWhy => cases hWriter
  | taken hKind hUsed => cases hWriter

/- A question asked on course leads to a point on course. -/
theorem ask
    {staged : List Statement}
    {locks : List Lock}
    {lock : Database → Option Lock}
    {next : Database → CatalogTx Unit}
    (hCourse :
      OnCourse ext db call
        ⟨staged, locks, .ask lock next⟩) :
    OnCourse ext db call
      ⟨staged,
        locks ++ (lock (sqlStore.apply db staged)).toList,
        next (sqlStore.apply db staged)⟩ := by
  generalize hWriter :
    (⟨staged, locks, .ask lock next⟩ : CatalogWriter) = w
      at hCourse
  cases hCourse with
  | idle =>
      have hTx : Tx.ask lock next = call.tx ext :=
        congrArg Writer.rest hWriter
      cases congrArg Writer.staged hWriter
      cases congrArg Writer.locks hWriter
      exact ask_idle hTx.symm
  | locked hKind hLock hReaches =>
      cases hWriter
      exact .locked hKind (List.mem_append_left _ hLock)
        (.ask hReaches)
  | rowLocked hKind hTx hFind hLock hReaches =>
      cases hWriter
      exact .rowLocked hKind hTx hFind
        (List.mem_append_left _ hLock) (.ask hReaches)
  | absent hKind hTx hText hNone hReaches hStaged =>
      cases hWriter
      rcases hStaged with ⟨_, hRest⟩ | hStaged
      · cases hRest
      · exact .absent hKind hTx hText hNone (.ask hReaches)
          (.inr hStaged)
  | failing hKind hWhy => cases hWriter
  | taken hKind hUsed => cases hWriter

/- A statement staged on course leads to such a point. -/
theorem stage
    {staged : List Statement}
    {locks : List Lock}
    {s : Statement}
    {next : CatalogTx Unit}
    (hCourse :
      OnCourse ext db call ⟨staged, locks, .stage s next⟩)
    (hCheck :
      (sqlStore.apply db staged).check s = .ok ()) :
    OnCourse ext db call ⟨staged ++ [s], locks, next⟩ := by
  generalize hWriter :
    (⟨staged, locks, .stage s next⟩ : CatalogWriter) = w
      at hCourse
  cases hCourse with
  | idle =>
      exact absurd (congrArg Writer.rest hWriter).symm
        (tx_ne_stage call)
  | locked hKind hLock hReaches =>
      cases hWriter
      exact .locked hKind hLock (.stage hReaches hCheck)
  | rowLocked hKind hTx hFind hLock hReaches =>
      cases hWriter
      exact .rowLocked hKind hTx hFind hLock
        (.stage hReaches hCheck)
  | @absent call text _ _ _ hKind hTx hText hNone hReaches
      hStaged =>
      cases hWriter
      refine .absent hKind hTx hText hNone
        (.stage hReaches hCheck) (.inr ?_)
      rw [List.flatMap_append]
      rcases hStaged with ⟨_, hRest⟩ | hStaged
      · cases hRest
        apply List.mem_append_right
        simp [Statement.keys, TableRow.keys, newTableRow,
          TableRow.ident]
      · exact List.mem_append_left _ hStaged
  | failing hKind hWhy => cases hWriter
  | @taken call text _ hKind hUsed =>
      cases hWriter
      have hFresh := (Database.check_ok.mp hCheck).1
        (.tableIdent call.ident) (by
          simp [Statement.keys, TableRow.keys, newTableRow,
            TableRow.ident])
      exact absurd hUsed hFresh

end OnCourse

------------------------------------------------------------
-- Other Calls Do Not Interfere
------------------------------------------------------------

variable
  {db db' : Database}
  {w w' : World}

/- The same calls on a table leave the same part of it. -/
theorem World.Reachable.agrees
    {ident : TableIdent}
    {row : TableRow}
    (hReach : w.Reachable ext)
    (hReach' : w'.Reachable ext)
    (hCalls : w'.callsOn ident = w.callsOn ident)
    (hFind : w.database.findTable ident = some row)
    (hKeys : ∀ k ∈ w.database.keyList,
      k ∈ w'.database.keyList) :
    Database.Agrees (some row.tableUuid)
      row.currentSchemaUuid w.database w'.database := by
  have hRows :=
    (hReach.sameTable hReach' hCalls).rows row hFind
  have hRow := (Database.findTable_some hFind).1
  have hTracked := hReach.inv.tracked row hRow
  rcases (hReach.inv.lawful row hRow).lastSchema with
    ⟨last, hLast⟩
  have hStored := hTracked.lastSchemaRow hLast
  have hHead :=
    (hTracked.schemaHead_eq hReach.inv.sound hLast).1
  rw [hHead]
  have hOwn : versionRow row.tableUuid _
      ⟨last.2, last.1, none⟩ ∈
        w.database.schemasOf row.tableUuid :=
    List.mem_filter.mpr ⟨hStored, decide_eq_true rfl⟩
  have hOwn' := hOwn
  rw [← hRows.schemas] at hOwn'
  have hStored' := (List.mem_filter.mp hOwn').1
  constructor
  case files =>
    intro t ht
    cases ht
    exact hRows.files
  case schema =>
    intro s hs
    cases hs
    exact (hReach'.inv.sound.find?_schema hStored').trans
      (hReach.inv.sound.find?_schema hStored).symm
  case columns =>
    intro s hs
    cases hs
    exact hRows.columns _ hOwn
  case keys => exact hKeys

/-
  When another call succeeds, an open call stays on course:
  its lock keeps its table the same, or the table that it
  creates is there now.
-/
theorem OnCourse.after
    {call : Call}
    {wr : CatalogWriter}
    (hCourse : OnCourse ext w.database call wr)
    (hReach : w.Reachable ext)
    (hReach' : w'.Reachable ext)
    (hKeys : ∀ k ∈ w.database.keyList,
      k ∈ w'.database.keyList)
    (hFresh : ∀ k ∈ wr.staged.flatMap Statement.keys,
      k ∉ w'.database.keyList)
    (hUnlocked : call.kind = .sqlite →
      .database ∉ wr.locks)
    (hOther : call.kind = .postgres → ∀ row,
      w.database.findTable call.ident = some row →
        .tableRow row.tableUuid ∈ wr.locks →
          w'.callsOn call.ident = w.callsOn call.ident)
    (hCreated :
      w.database.findTable call.ident = none →
        w'.callsOn call.ident = w.callsOn call.ident ∨
          .tableIdent call.ident ∈ w'.database.keyList) :
    OnCourse ext w'.database call wr := by
  cases hCourse with
  | idle => exact .idle
  | locked hKind hLock hReaches =>
      exact absurd hLock (hUnlocked hKind)
  | failing hKind hWhy =>
      exact .failing hKind fun create hCreate hFits =>
        (hWhy create hCreate hFits).imp_left (hKeys _)
  | taken hKind hUsed => exact .taken hKind (hKeys _ hUsed)
  | @rowLocked call row staged locks rest hKind hTx hFind
      hLock hReaches =>
      have hCalls := hOther hKind row hFind hLock
      have hFind' : w'.database.findTable call.ident =
          some row :=
        (hReach.findTable_eq hReach' hCalls).trans hFind
      refine .rowLocked hKind hTx hFind' hLock ?_
      refine hReaches.transfer ?_ (sqlStore_carries _ _)
        (hReach.agrees hReach' hCalls hFind hKeys) hFresh
      exact withinTable_commitToRow.bind fun _ => trivial
  | @absent call text staged locks rest hKind hTx hText
      hNone hReaches hStaged =>
      rcases hCreated hNone with hCalls | hUsed
      · have hNone' : w'.database.findTable call.ident =
            none :=
          (hReach.findTable_eq hReach' hCalls).trans hNone
        refine .absent hKind hTx hText hNone' ?_ hStaged
        refine hReaches.transfer withinTable_insertNewTable
          (sqlStore_carries none none) ?_ hFresh
        exact
          { files := fun t ht => by cases ht
            schema := fun s hs => by cases hs
            columns := fun s hs => by cases hs
            keys := hKeys }
      · rcases hStaged with ⟨rfl, rfl⟩ | hStaged
        · exact .taken hKind hUsed
        · exact absurd hUsed (hFresh _ hStaged)

------------------------------------------------------------
-- Interleaved Calls Are Serial
------------------------------------------------------------

variable
  {ι : Type}
  {calls : ι → Call}
  {w₀ : World}
  {kind : DbKind}

abbrev CatalogSystem (ι : Type) :=
  System ι Database Statement Lock Fault Unit

/-
  The committed rows are those of a run `w` of the calls
  that have succeeded, and every open call is on course.
-/
structure Serial
    (ext : External)
    (calls : ι → Call)
    (w₀ w : World)
    (sys : CatalogSystem ι) : Prop where
  reachable : w.Reachable ext
  rows : w.database = sys.committed
  succeeded :
    w.calls =
      w₀.calls ++ sys.succeeded.map fun s => calls s.1
  course : ∀ i wr, sys.writers i = some wr →
    OnCourse ext sys.committed (calls i) wr

theorem serial_start
    (hStart : w₀.Reachable ext) :
    Serial ext calls w₀ w₀
      (System.start w₀.database
        fun i => (calls i).tx ext) where
  reachable := hStart
  rows := rfl
  succeeded := by simp [System.start]
  course := by
    intro i wr hWriter
    rw [← Option.some.inj hWriter]
    exact .idle

namespace Serial

variable [DecidableEq ι] {sys : CatalogSystem ι}

/- One call moves on while the rows stay the same. -/
theorem advanced
    {i : ι}
    {new : Option CatalogWriter}
    (hSerial : Serial ext calls w₀ w sys)
    (hNew : ∀ wr ∈ new,
      OnCourse ext sys.committed (calls i) wr) :
    Serial ext calls w₀ w (sys.withWriter i new) where
  reachable := hSerial.reachable
  rows := hSerial.rows
  succeeded := hSerial.succeeded
  course := by
    intro j wr hWriter
    by_cases hSame : j = i
    · subst hSame
      rw [System.withWriter_self] at hWriter
      exact hNew wr hWriter
    · rw [System.withWriter_of_ne sys hSame] at hWriter
      exact hSerial.course j wr hWriter

/- A call that succeeds does so on the committed rows. -/
omit [DecidableEq ι] in
theorem perform
    {i : ι}
    {staged : List Statement}
    {locks : List Lock}
    (hSerial : Serial ext calls w₀ w sys)
    (hWriter :
      sys.writers i =
        some ⟨staged, locks, .done (.ok ())⟩) :
    (calls i).perform ext sys.committed =
      (.ok (), sqlStore.apply sys.committed staged) :=
  Call.perform_ok (hSerial.course i _ hWriter).exec_of_done

/- When a call succeeds, the others stay on course. -/
theorem succeed
    {i : ι}
    {staged : List Statement}
    {locks : List Lock}
    {sys' : CatalogSystem ι}
    (hSerial : Serial ext calls w₀ w sys)
    (hKinds : ∀ i, (calls i).kind = kind)
    (hSep : System.Separate sqlStore sys)
    (hSep' : System.Separate sqlStore sys')
    (hWriter :
      sys.writers i =
        some ⟨staged, locks, .done (.ok ())⟩)
    (hNext : sys' =
      { sys.withWriter i none with
        committed := sqlStore.apply sys.committed staged
        succeeded := sys.succeeded ++ [(i, ())] }) :
    Serial ext calls w₀ (w.perform ext (calls i)) sys' := by
  rcases (hSerial.course i _ hWriter).locks_of_done with
    ⟨hDatabase, hRow⟩
  have hWorld : w.perform ext (calls i) =
      ⟨sys'.committed, w.calls ++ [calls i]⟩ := by
    unfold World.perform
    rw [hSerial.rows, hSerial.perform hWriter, hNext]
  have hReach' : (w.perform ext (calls i)).Reachable ext :=
    Relation.ReflTransGen.tail hSerial.reachable
      (.inl ⟨calls i, rfl⟩)
  rw [hWorld] at hReach' ⊢
  subst hNext
  constructor
  case reachable => exact hReach'
  case rows => rfl
  case succeeded => simp [hSerial.succeeded]
  case course =>
    intro j wr hOther
    have hji : j ≠ i := by
      rintro rfl
      simp at hOther
    have hOpen : sys.writers j = some wr := by
      rw [← System.withWriter_of_ne sys hji none]
      exact hOther
    have hBefore := hSerial.course j wr hOpen
    rw [← hSerial.rows] at hBefore hRow
    refine hBefore.after hSerial.reachable hReach'
      ?_ ?_ ?_ ?_ ?_
    · intro k hKey
      rw [hSerial.rows] at hKey
      exact (sqlStore.holds_apply _ _ _).mpr (.inl hKey)
    · exact fun k hKey => hSep'.fresh hOther hKey
    · intro hKind hLock
      have hSame : (calls i).kind = .sqlite := by
        rw [hKinds i, ← hKinds j, hKind]
      exact hji (hSep.locks hOpen hWriter hLock
        (hDatabase hSame))
    · intro hKind row hFind hLock
      have hSame : (calls i).kind = .postgres := by
        rw [hKinds i, ← hKinds j, hKind]
      rw [World.callsOn_concat]
      by_cases hIdent : (calls i).ident = (calls j).ident
      · rw [← hIdent] at hFind
        exact absurd (hSep.locks hOpen hWriter hLock
          (hRow hSame row hFind)) hji
      · rw [if_neg hIdent, List.append_nil]
    · intro _
      by_cases hIdent : (calls i).ident = (calls j).ident
      · right
        rcases hReach'.inv.known (calls i)
          (List.mem_append_right _ List.mem_cons_self) with
            ⟨row, hIn, hEq⟩
        exact Database.mem_keyList_tableIdent.mpr
          ⟨row, hIn, hEq.trans hIdent⟩
      · left
        rw [World.callsOn_concat, if_neg hIdent,
          List.append_nil]

/- One step of one call, by the kinds of steps. -/
theorem step
    {sys' : CatalogSystem ι}
    {event : Event ι Fault Unit}
    (hSerial : Serial ext calls w₀ w sys)
    (hKinds : ∀ i, (calls i).kind = kind)
    (hSep : System.Separate sqlStore sys)
    (hStep : System.Step sqlStore sys event sys') :
    ∃ w', Relation.ReflTransGen (World.Step ext) w w' ∧
      Serial ext calls w₀ w' sys' := by
  have hSep' := hSep.step hStep
  cases hStep with
  | @ask i staged locks lock next hWriter hFree =>
      refine ⟨w, .refl, hSerial.advanced ?_⟩
      intro wr hNew
      cases hNew
      exact (hSerial.course i _ hWriter).ask
  | @stage i staged locks s next hWriter hFree hCheck =>
      refine ⟨w, .refl, hSerial.advanced ?_⟩
      intro wr hNew
      cases hNew
      exact (hSerial.course i _ hWriter).stage hCheck
  | refuse =>
      exact ⟨w, .refl,
        hSerial.advanced fun wr hNew => by cases hNew⟩
  | fail =>
      exact ⟨w, .refl,
        hSerial.advanced fun wr hNew => by cases hNew⟩
  | drop =>
      exact ⟨w, .refl,
        hSerial.advanced fun wr hNew => by cases hNew⟩
  | @succeed i staged locks u hWriter =>
      exact ⟨w.perform ext (calls i),
        .single (.inl ⟨calls i, rfl⟩),
        hSerial.succeed hKinds hSep hSep' hWriter rfl⟩

end Serial

variable [DecidableEq ι] {sys sys' : CatalogSystem ι}

/- Any step of any call. -/
def CatalogSystem.Step
    (sys sys' : CatalogSystem ι) : Prop :=
  ∃ event, System.Step sqlStore sys event sys'

/-
  However the steps of the calls interleave, the successful
  ones have made a run of calls.
-/
theorem System.Reachable.serial
    (hStart : w₀.Reachable ext)
    (hKinds : ∀ i, (calls i).kind = kind)
    (hReach : System.Reachable sqlStore w₀.database
      (fun i => (calls i).tx ext) sys) :
    ∃ w, Serial ext calls w₀ w sys := by
  induction hReach with
  | start => exact ⟨w₀, serial_start hStart⟩
  | step hBefore hStep ih =>
      rcases ih with ⟨w, hSerial⟩
      rcases hSerial.step hKinds hBefore.separate hStep with
        ⟨w', _, hSerial'⟩
      exact ⟨w', hSerial'⟩

/- Further steps of the calls go on with the run. -/
theorem Serial.steps
    (hSerial : Serial ext calls w₀ w sys)
    (hKinds : ∀ i, (calls i).kind = kind)
    (hSep : System.Separate sqlStore sys)
    (hSteps :
      Relation.ReflTransGen CatalogSystem.Step sys sys') :
    ∃ w', Relation.ReflTransGen (World.Step ext) w w' ∧
      Serial ext calls w₀ w' sys' ∧
      System.Separate sqlStore sys' := by
  induction hSteps with
  | refl => exact ⟨w, .refl, hSerial, hSep⟩
  | tail _ hStep ih =>
      rcases ih with ⟨w₁, hRun, hSerial₁, hSep₁⟩
      rcases hStep with ⟨event, hStep⟩
      rcases hSerial₁.step hKinds hSep₁ hStep with
        ⟨w₂, hRun₂, hSerial₂⟩
      exact ⟨w₂, hRun.trans hRun₂, hSerial₂,
        hSep₁.step hStep⟩

end Planar
