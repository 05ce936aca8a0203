import Planar.Foundations.Schedule
import Planar.History.Creations
import Planar.Properties.TimeTravel

/-
  Racing creations of one table: one of them succeeds, and
  the others learn of the conflict on SQLite only.

  Main declarations:
    * `Race`, `RaceOutcome`
    * `System.Reachable.race`
-/

------------------------------------------------------------
-- Creations of One Table
------------------------------------------------------------

namespace Planar

variable
  {ext : External}
  {ι : Type}
  {calls : ι → CreateCall}
  {ident : TableIdent}
  {w₀ : World}
  {kind : DbKind}
  {sys : CatalogSystem ι}

/-
  Calls that create one table on one backend, where it does
  not exist: each has a valid schema, properties that can be
  stored and fresh draws.
-/
structure Race
    (ext : External)
    (kind : DbKind)
    (ident : TableIdent)
    (calls : ι → CreateCall)
    (w₀ : World) : Prop where
  start : w₀.Reachable ext
  absent : w₀.database.findTable ident = none
  named : ∀ i, (calls i).ident = ident
  backend : ∀ i, (calls i).catalog.kind = kind
  valid : ∀ i, (calls i).schema.validate = .ok ()
  fits : ∀ i, (calls i).Fits ext
  fresh : ∀ i, (calls i).FreshIn w₀.database

/- A call has run to its completion. -/
def Event.Completes : Event ι Fault Unit → Prop
| .succeeded _ _ => True
| .failed _ _ => True
| _ => False

/- The error of a call that finds the table there. -/
def tableExists (ident : TableIdent) : Fault :=
  .returned (.conflict
    ("table already exists: " ++ ident.toText))

/-
  What holds in every state of a race that has begun with
  the rows `db`.
-/
structure RaceOutcome
    [DecidableEq ι]
    (ext : External)
    (kind : DbKind)
    (ident : TableIdent)
    (calls : ι → CreateCall)
    (db : Database)
    (sys : CatalogSystem ι) : Prop where
  rows :
    (sys.succeeded = [] ∧ sys.committed = db) ∨
      ∃ winner, sys.succeeded = [(winner, ())] ∧
        sys.committed = (calls winner).addedTo ext db ∧
        (sys.committed.tables.filter fun row =>
            row.ident = ident) =
          [(calls winner).createdRow ext]
  oneWins : ∀ event sys',
    System.Step sqlStore sys event sys' →
    event.Completes →
    ∃ winner, sys'.succeeded = [(winner, ())]
  othersLose : ∀ i e sys',
    System.Step sqlStore sys (.failed i e) sys' →
    (e = tableExists ident ↔ kind = .sqlite)

------------------------------------------------------------
-- The Rows of a Race
------------------------------------------------------------

theorem Race.kinds
    (hRace : Race ext kind ident calls w₀)
    (i : ι) :
    (Call.create (calls i)).kind = kind :=
  hRace.backend i

/- The rows of the winner, or those of the start. -/
def RaceRows
    (ext : External)
    (calls : ι → CreateCall)
    (db : Database)
    (sys : CatalogSystem ι) : Prop :=
  (sys.succeeded = [] ∧ sys.committed = db) ∨
    ∃ winner, sys.succeeded = [(winner, ())] ∧
      sys.committed = (calls winner).addedTo ext db

theorem Race.found
    (hRace : Race ext kind ident calls w₀)
    (winner : ι) :
    (((calls winner).addedTo ext
      w₀.database).findTable ident).isSome := by
  have hAbsent :
      w₀.database.findTable (calls winner).ident = none := by
    rw [hRace.named]
    exact hRace.absent
  rw [← hRace.named winner,
    CreateCall.findTable_addedTo hAbsent]
  rfl

/- By induction on the steps: only the first one succeeds. -/
theorem Race.rows
    [DecidableEq ι]
    (hRace : Race ext kind ident calls w₀)
    (hReach : System.Reachable sqlStore w₀.database
      (fun i => (calls i).tx ext) sys) :
    RaceRows ext calls w₀.database sys := by
  induction hReach with
  | start => exact .inl ⟨rfl, rfl⟩
  | @step sys sys' event hBefore hStep ih =>
      have hSerial : ∃ w, Serial ext
          (fun i => .create (calls i)) w₀ w sys :=
        System.Reachable.serial hRace.start hRace.kinds
          hBefore
      rcases hSerial with ⟨w, hSerial⟩
      by_cases hEvent : ∀ i u, event ≠ .succeeded i u
      · rcases hStep.committed_eq hEvent with
          ⟨hRows, hSucceeded⟩
        unfold RaceRows
        rw [hRows, hSucceeded]
        exact ih
      cases hStep with
      | @succeed i staged locks u hWriter =>
          have hPerform := hSerial.perform hWriter
          have hCreates := createTable_ok hPerform
          have hAbsent := hCreates.absent
          rw [hRace.named] at hAbsent
          rcases ih with ⟨hNone, hRows⟩ |
            ⟨winner, _, hRows⟩
          · refine .inr ⟨i, by simp [hNone], ?_⟩
            change sqlStore.apply sys.committed staged = _
            rw [hCreates.effect, hRows]
            exact CreateCall.apply_createStatements
              (hRace.fresh i).table
          · have hFound := hRace.found winner
            rw [← hRows, hAbsent] at hFound
            cases hFound
      | ask => exact absurd (fun _ _ h => nomatch h) hEvent
      | stage => exact absurd (fun _ _ h => nomatch h) hEvent
      | refuse =>
          exact absurd (fun _ _ h => nomatch h) hEvent
      | fail => exact absurd (fun _ _ h => nomatch h) hEvent
      | drop => exact absurd (fun _ _ h => nomatch h) hEvent

------------------------------------------------------------
-- Losing a Race
------------------------------------------------------------

/-
  A creation that fails finds its table among the rows: by
  its check or by the insert.
-/
theorem OnCourse.failure
    {call : CreateCall}
    {db : Database}
    {staged : List Statement}
    {locks : List Lock}
    {rest : CatalogTx Unit}
    {e : Fault}
    (hCourse :
      OnCourse ext db (.create call) ⟨staged, locks, rest⟩)
    (hBegun : ∀ lock next, rest ≠ .ask lock next)
    (hEnds :
      rest.exec sqlStore (sqlStore.apply db staged) =
        .error e)
    (hSound : db.Sound)
    (hValid : call.schema.validate = .ok ())
    (hFits : call.Fits ext)
    (hFresh : db.findTable call.ident = none →
      call.FreshIn db) :
    (db.findTable call.ident).isSome ∧
    (call.catalog.kind = .sqlite →
      e = tableExists call.ident) ∧
    (call.catalog.kind = .postgres →
      ∃ error, e = .returned (.storage error)) := by
  have hNamed : ∀ {row : TableRow}, row ∈ db.tables →
      row.ident = call.ident →
        (db.findTable call.ident).isSome := by
    intro row hRow hIdent
    rw [← hIdent, hSound.findTable hRow]
    rfl
  generalize hWriter :
    (⟨staged, locks, rest⟩ : CatalogWriter) = w at hCourse
  generalize hCall : Call.create call = c at hCourse
  cases hCourse with
  | idle =>
      subst hCall
      have hTx : rest = call.tx ext :=
        congrArg Writer.rest hWriter
      rw [CreateCall.tx_of_valid hValid] at hTx
      cases hKind : call.catalog.kind with
      | sqlite =>
          rw [hKind] at hTx
          exact absurd hTx (hBegun _ _)
      | postgres =>
          rw [hKind] at hTx
          exact absurd hTx (hBegun _ _)
  | locked hKind hLock hReaches =>
      cases hWriter
      subst hCall
      have hAlone := hReaches.exec.trans hEnds
      cases hFind : db.findTable call.ident with
      | none =>
          rcases call.exec_tx_of_absent hKind hValid hFits
            hSound (hFresh hFind) hFind with ⟨r, hOk⟩
          rw [Call.tx_create, hOk] at hAlone
          cases hAlone
      | some row =>
          rw [Call.tx_create, call.exec_tx_of_found hKind
            hValid (by rw [hFind]; rfl)] at hAlone
          refine ⟨rfl, fun _ => (Except.error.inj hAlone).symm,
            fun hOther => ?_⟩
          rw [Call.kind] at hKind
          rw [hKind] at hOther
          cases hOther
  | rowLocked => cases hCall
  | @absent call' text _ _ _ hKind hTx hText hNone hReaches
      hStaged =>
      cases hWriter
      cases hCall
      have hUnused :
          Key.tableIdent call.ident ∉ db.keyList := by
        intro hUsed
        rcases Database.mem_keyList_tableIdent.mp hUsed with
          ⟨row, hRow, hIdent⟩
        have hFound := hNamed hRow hIdent
        rw [hNone] at hFound
        cases hFound
      have hInserts : ∃ r,
          (call.inserts ext text).exec sqlStore db = .ok r :=
        call.exec_inserts hSound (hFresh hNone) hUnused
          hValid
      rcases hInserts with ⟨r, hOk⟩
      have hAlone := hReaches.exec.trans hEnds
      rw [hOk] at hAlone
      cases hAlone
  | failing hKind hWhy =>
      cases hWriter
      subst hCall
      cases hEnds
      rcases hWhy call rfl hFits with ⟨hUsed, hError⟩
      rcases Database.mem_keyList_tableIdent.mp hUsed with
        ⟨row, hRow, hIdent⟩
      refine ⟨hNamed hRow hIdent, fun hOther => ?_,
        fun _ => ⟨_, hError⟩⟩
      rw [Call.kind] at hKind
      rw [hKind] at hOther
      cases hOther
  | @taken call' text _ hKind hUsed =>
      cases hWriter
      cases hCall
      rw [Store.apply_nil,
        call.exec_inserts_of_taken hUsed] at hEnds
      rcases Database.mem_keyList_tableIdent.mp hUsed with
        ⟨row, hRow, hIdent⟩
      refine ⟨hNamed hRow hIdent, fun hOther => ?_,
        fun _ => ⟨_, (Except.error.inj hEnds).symm⟩⟩
      rw [hKind] at hOther
      cases hOther

variable [DecidableEq ι]

/- What a call of the race that fails has met. -/
theorem Race.loses
    {i : ι}
    {e : Fault}
    {sys' : CatalogSystem ι}
    (hRace : Race ext kind ident calls w₀)
    (hReach : System.Reachable sqlStore w₀.database
      (fun i => (calls i).tx ext) sys)
    (hStep : System.Step sqlStore sys (.failed i e) sys') :
    (sys.committed.findTable ident).isSome ∧
      (kind = .sqlite → e = tableExists ident) ∧
      (kind = .postgres →
        ∃ error, e = .returned (.storage error)) := by
  have hSerial : ∃ w, Serial ext
      (fun i => .create (calls i)) w₀ w sys :=
    System.Reachable.serial hRace.start hRace.kinds hReach
  rcases hSerial with ⟨w, hSerial⟩
  have hSound : sys.committed.Sound :=
    hSerial.rows ▸ hSerial.reachable.inv.sound
  have hFresh : sys.committed.findTable (calls i).ident =
      none → (calls i).FreshIn sys.committed := by
    intro hNone
    rcases hRace.rows hReach with ⟨_, hRows⟩ |
      ⟨winner, _, hRows⟩
    · rw [hRows]
      exact hRace.fresh i
    · have hFound := hRace.found winner
      rw [← hRows, ← hRace.named i, hNone] at hFound
      cases hFound
  rw [← hRace.named i, ← hRace.backend i]
  cases hStep with
  | @refuse _ staged locks s next _ hWriter hFree hCheck =>
      exact (hSerial.course i _ hWriter).failure
        (fun _ _ h => nomatch h)
        (Tx.exec_stage_of_error hCheck) hSound
        (hRace.valid i) (hRace.fits i) hFresh
  | @fail _ staged locks _ hWriter =>
      exact (hSerial.course i _ hWriter).failure
        (fun _ _ h => nomatch h) rfl hSound
        (hRace.valid i) (hRace.fits i) hFresh

/- With the table there, some call has won. -/
theorem Race.winner
    (hRace : Race ext kind ident calls w₀)
    (hReach : System.Reachable sqlStore w₀.database
      (fun i => (calls i).tx ext) sys)
    (hFound : (sys.committed.findTable ident).isSome) :
    ∃ winner, sys.succeeded = [(winner, ())] := by
  rcases hRace.rows hReach with ⟨_, hRows⟩ |
    ⟨winner, hWinner, _⟩
  · rw [hRows, hRace.absent] at hFound
    cases hFound
  · exact ⟨winner, hWinner⟩

/-
  In any interleaving of creations of one table the first
  that completes wins, and only its rows are there; every
  other one that completes fails, with the conflict on
  SQLite, and with a storage error on PostgreSQL.
-/
theorem System.Reachable.race
    (hRace : Race ext kind ident calls w₀)
    (hReach : System.Reachable sqlStore w₀.database
      (fun i => (calls i).tx ext) sys) :
    RaceOutcome ext kind ident calls w₀.database sys := by
  constructor
  case rows =>
    rcases hRace.rows hReach with hStart |
      ⟨winner, hWinner, hRows⟩
    · exact .inl hStart
    · refine .inr ⟨winner, hWinner, hRows, ?_⟩
      rw [hRows, ← hRace.named winner]
      apply CreateCall.tables_addedTo
      rw [hRace.named]
      exact hRace.absent
  case oneWins =>
    intro event sys' hStep hCompletes
    have hReach' := hReach.step hStep
    cases event with
    | succeeded i u =>
        rcases hRace.rows hReach' with ⟨hNone, _⟩ |
          ⟨winner, hWinner, _⟩
        · cases hStep with
          | succeed hWriter =>
              exact absurd hNone (by simp)
        · exact ⟨winner, hWinner⟩
    | failed i e =>
        have hFound := (hRace.loses hReach hStep).1
        rcases hRace.winner hReach hFound with
          ⟨winner, hWinner⟩
        refine ⟨winner, ?_⟩
        rw [(hStep.committed_eq fun _ _ h => nomatch h).2]
        exact hWinner
    | asked i => exact hCompletes.elim
    | staged i => exact hCompletes.elim
    | dropped i => exact hCompletes.elim
  case othersLose =>
    intro i e sys' hStep
    rcases hRace.loses hReach hStep with
      ⟨_, hSqlite, hPostgres⟩
    constructor
    · intro hExists
      cases kind with
      | sqlite => rfl
      | postgres =>
          rcases hPostgres rfl with ⟨error, hError⟩
          rw [hExists] at hError
          cases hError
    · exact hSqlite

/- Two creations of the table of the sample run. -/
def sampleCreations
    (kind : DbKind)
    (late : Bool) : CreateCall :=
  { catalog := ⟨kind, {}⟩
    ident := sampleIdent
    location := "l"
    schema := ⟨[⟨"a", .int32, false⟩]⟩
    properties := none
    draws := sampleDraws (if late then 2 else 1) }

/- The first call commits while the second one waits. -/
def sampleCreationRace
    (kind : DbKind) : CatalogSystem Bool :=
  System.run sqlStore
    (System.start Database.empty fun i =>
      (sampleCreations kind i).tx sampleExternal)
    [false, true, false, true, false, false, false, false,
      false, false]

theorem sampleCreations_race
    (kind : DbKind) :
    Race sampleExternal kind sampleIdent
      (sampleCreations kind) {} where
  start := .refl
  absent := rfl
  named _ := rfl
  backend _ := rfl
  valid _ := by
    change SchemaSpec.validate ⟨[⟨"a", .int32, false⟩]⟩ =
      .ok ()
    decide +kernel
  fits _ := by
    refine ⟨"\x7b\x7d", ?_⟩
    change serializeJson sampleExternal
      (TableProperties.toJson {}) = .ok "\x7b\x7d"
    decide +kernel
  fresh i :=
    { table := List.not_mem_nil
      transaction := List.not_mem_nil
      schema := List.not_mem_nil
      columns := fun _ _ => List.not_mem_nil
      distinct := by
        intro m hm n hn _
        simp only [sampleCreations, List.length_singleton]
          at hm hn
        omega }

theorem race_sample :
    (sampleCreationRace .sqlite).succeeded = [(false, ())] ∧
      RaceOutcome sampleExternal .sqlite sampleIdent
        (sampleCreations .sqlite) Database.empty
        (sampleCreationRace .sqlite) :=
  ⟨by decide +kernel,
    System.Reachable.race (sampleCreations_race .sqlite)
      (System.reachable_run .start)⟩

/- On PostgreSQL the second insert is a unique violation. -/
theorem race_storageError :
    ∃ sys sys' : CatalogSystem Bool,
      System.Reachable sqlStore Database.empty
        (fun i => (sampleCreations .postgres i).tx
          sampleExternal) sys ∧
      sys.succeeded = [(false, ())] ∧
      System.Step sqlStore sys
        (.failed true
          (.returned (.storage .uniqueViolation))) sys' := by
  have hNext : (System.next sqlStore
      (sampleCreationRace .postgres) true).map Prod.fst =
        some (.failed true
          (.returned (.storage .uniqueViolation))) := by
    decide +kernel
  rcases Option.map_eq_some_iff.mp hNext with
    ⟨⟨event, sys'⟩, hStep, hEvent⟩
  subst hEvent
  exact ⟨_, sys', System.reachable_run .start,
    by decide +kernel, System.step_of_next hStep⟩

end Planar
