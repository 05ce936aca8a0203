import Planar.Properties.TimeTravel
import Planar.Reading.Records

/-
  Reads that interleave with commits are consistent.

  Main declarations:
    * `TxnEvent.SameCore`
    * `EventSeen.sameCore`
    * `World.Reachable.readsConsistent`
-/

------------------------------------------------------------
-- The Stable Part of an Event
------------------------------------------------------------

namespace Planar

/- A schema without the stamp that closes it. -/
def Schema.opened (schema : Schema) : Schema :=
  { schema with validToTransactionId := none }

/- A file change by its UUID. -/
def TxnFileChange.core
    (change : TxnFileChange) :
    TxnId × TxnFileChangeKind × Uuid :=
  (change.transactionId, change.kind, change.file.fileUuid)

/- A schema change without the end of its schema. -/
def TxnSchemaChange.core
    (change : TxnSchemaChange) : TxnId × Schema :=
  (change.transactionId, change.schema.opened)

/-
  What a later commit cannot change of an event: the files
  that were added and those that were removed, by UUID and
  each in some order, and the schema but for its end.
-/
structure TxnEvent.SameCore (event event' : TxnEvent) :
    Prop where
  transactionId : event.transactionId = event'.transactionId
  kinds :
    event.fileChanges.map TxnFileChange.kind =
      event'.fileChanges.map TxnFileChange.kind
  fileChanges :
    (event.fileChanges.map TxnFileChange.core).Perm
      (event'.fileChanges.map TxnFileChange.core)
  schemaChange :
    event.schemaChange.map TxnSchemaChange.core =
      event'.schemaChange.map TxnSchemaChange.core

variable
  {ext : External}
  {kind : DbKind}
  {tableUuid : Uuid}
  {Seen Seen' : Database → Prop}
  {past : History}
  {e : Entry}

/- The schema change of an entry but for its end. -/
theorem SchemaChangeSeen.core
    {change : Option TxnSchemaChange}
    (hAfter : SeenAfter ext tableUuid past e Seen)
    (hSeen :
      SchemaChangeSeen ext kind tableUuid Seen
        e.transactionId change) :
    (e.schemas = [] ∧ change = none) ∨
    ∃ s columns, e.schemas = [s] ∧
      decodeColumns ext (s.columnRows ext) = .ok columns ∧
      change.map TxnSchemaChange.core =
        some (e.transactionId,
          { schemaUuid := s.schemaUuid
            tableUuid := tableUuid
            schemaVersion :=
              asI32 ((past.schemaPoints.length + 1 : Nat) :
                Int)
            validFromTransactionId := e.transactionId
            validToTransactionId := none
            createdAt := s.createdAt
            columns := columns }) := by
  cases hSeen with
  | absent hDb hNone =>
      rcases hAfter _ hDb with ⟨later, hHolds⟩
      have hNodup := hHolds.ids_nodup hHolds.sound
      match hSchemas : e.schemas with
      | [] => exact .inl ⟨rfl, rfl⟩
      | [s] =>
          rw [Database.newSchemas,
            hHolds.newSchema_eq hNodup hSchemas] at hNone
          cases hNone
      | _ :: _ :: _ =>
          have hOne := hHolds.lawful.oneSchema e (by simp)
          simp [hSchemas] at hOne
  | brought hRowSeen hColumnSeen hRow hLimit hColumns
      hSchema =>
      rcases hAfter _ hRowSeen with ⟨later, hHolds⟩
      rcases hAfter _ hColumnSeen with ⟨later', hHolds'⟩
      have hNodup := hHolds.ids_nodup hHolds.sound
      match hSchemas : e.schemas with
      | [] =>
          rw [Database.newSchemas,
            hHolds.noSchema_eq hNodup hSchemas] at hRow
          cases hRow
      | [s] =>
          rw [Database.newSchemas,
            hHolds.newSchema_eq hNodup hSchemas] at hRow
          rcases List.cons.inj hRow with ⟨rfl, _⟩
          have hPoint :
              (e.transactionId, s) ∈
                History.schemaPoints
                  (past ++ e :: later') := by
            apply List.mem_flatMap.mpr
            refine ⟨e, by simp, ?_⟩
            rw [hSchemas]
            exact List.mem_singleton.mpr rfl
          have hOrder :=
            selectColumns_eq (hHolds'.columns _ hPoint)
              hLimit
          change
            decodeColumns ext
              (selectColumns s.schemaUuid _) = _
                at hColumns
          rw [hOrder] at hColumns
          refine .inr ⟨s, _, rfl, hColumns, ?_⟩
          rw [decodeSchema_ok hSchema]
          simp [TxnSchemaChange.core, Schema.opened,
            versionRow]
      | _ :: _ :: _ =>
          have hOne := hHolds.lawful.oneSchema e (by simp)
          simp [hSchemas] at hOne

/- The changes of one kind, by the UUIDs of their files. -/
theorem ChangesSeen.core
    {changeKind : TxnFileChangeKind}
    {files files' : List File}
    (hAfter : SeenAfter ext tableUuid past e Seen)
    (hAfter' : SeenAfter ext tableUuid past e Seen')
    (hSeen :
      ChangesSeen ext tableUuid Seen e.transactionId
        changeKind files)
    (hSeen' :
      ChangesSeen ext tableUuid Seen' e.transactionId
        changeKind files') :
    (changesOf e.transactionId changeKind files).map
        TxnFileChange.kind =
      (changesOf e.transactionId changeKind files').map
        TxnFileChange.kind ∧
    ((changesOf e.transactionId changeKind files).map
        TxnFileChange.core).Perm
      ((changesOf e.transactionId changeKind files').map
        TxnFileChange.core) := by
  have hUuids := (hSeen.uuids hAfter).trans
    (hSeen'.uuids hAfter').symm
  have hCore (files : List File) :
      (changesOf e.transactionId changeKind files).map
          TxnFileChange.core =
        (files.map File.fileUuid).map fun u =>
          (e.transactionId, changeKind, u) := by
    simp [changesOf, TxnFileChange.core]
  have hLength : files.length = files'.length := by
    simpa using hUuids.length_eq
  rw [kinds_changesOf, kinds_changesOf, hLength, hCore,
    hCore]
  exact ⟨rfl, hUuids.map _⟩

/- Two listings see the same of an entry, stamps apart. -/
theorem EventSeen.sameCore
    {event event' : TxnEvent}
    (hAfter : SeenAfter ext tableUuid past e Seen)
    (hAfter' : SeenAfter ext tableUuid past e Seen')
    (hSeen :
      EventSeen ext kind tableUuid Seen e.transactionId
        event)
    (hSeen' :
      EventSeen ext kind tableUuid Seen' e.transactionId
        event') :
    event.SameCore event' := by
  rcases hSeen.fileChanges with
    ⟨added, removed, hAdded, hRemoved, hChanges⟩
  rcases hSeen'.fileChanges with
    ⟨added', removed', hAdded', hRemoved', hChanges'⟩
  have hSameAdded := hAdded.core hAfter hAfter' hAdded'
  have hSameRemoved :=
    hRemoved.core hAfter hAfter' hRemoved'
  constructor
  case transactionId =>
    exact hSeen.transactionId.trans
      hSeen'.transactionId.symm
  case kinds =>
    rw [hChanges, hChanges', List.map_append,
      List.map_append, hSameAdded.1, hSameRemoved.1]
  case fileChanges =>
    rw [hChanges, hChanges', List.map_append,
      List.map_append]
    exact hSameAdded.2.append hSameRemoved.2
  case schemaChange =>
    rcases hSeen.schemaChange.core hAfter with
      ⟨hNone, hChange⟩ | ⟨s, columns, hSome, hOk, hChange⟩
    · rcases hSeen'.schemaChange.core hAfter' with
        ⟨_, hChange'⟩ | ⟨s', _, hSome', _⟩
      · rw [hChange, hChange']
      · rw [hNone] at hSome'
        cases hSome'
    · rcases hSeen'.schemaChange.core hAfter' with
        ⟨hNone', _⟩ | ⟨s', columns', hSome', hOk', hChange'⟩
      · rw [hSome] at hNone'
        cases hNone'
      · rw [hSome, List.cons.injEq] at hSome'
        rw [hSome'.1] at hOk hChange
        rw [hOk, Except.ok.injEq] at hOk'
        rw [hChange, hChange', hOk']

/- Two listings of one range agree, stamps apart. -/
theorem forall₂_sameCore
    {range : History}
    {events events' : List TxnEvent}
    (hPast : ∀ db, Seen db → ∃ later,
      Holds ext db tableUuid (past ++ range ++ later))
    (hPast' : ∀ db, Seen' db → ∃ later,
      Holds ext db tableUuid (past ++ range ++ later))
    (hSeen :
      List.Forall₂ (EventSeen ext kind tableUuid Seen)
        range.ids events)
    (hSeen' :
      List.Forall₂ (EventSeen ext kind tableUuid Seen')
        range.ids events') :
    List.Forall₂ TxnEvent.SameCore events events' := by
  induction range generalizing past events events' with
  | nil =>
      cases hSeen
      cases hSeen'
      exact .nil
  | cons e rest ih =>
      cases hSeen with
      | cons hEvent hRest =>
          cases hSeen' with
          | cons hEvent' hRest' =>
              have hHere (later : History) :
                  past ++ e :: rest ++ later =
                    past ++ e :: (rest ++ later) := by
                simp
              have hNext (later : History) :
                  past ++ e :: rest ++ later =
                    past ++ [e] ++ rest ++ later := by
                simp
              have hAfter :
                  SeenAfter ext tableUuid past e Seen := by
                intro db hDb
                rcases hPast db hDb with ⟨later, hHolds⟩
                rw [hHere] at hHolds
                exact ⟨_, hHolds⟩
              have hAfter' :
                  SeenAfter ext tableUuid past e Seen' := by
                intro db hDb
                rcases hPast' db hDb with ⟨later, hHolds⟩
                rw [hHere] at hHolds
                exact ⟨_, hHolds⟩
              simp only [hNext] at hPast hPast'
              exact .cons
                (hEvent.sameCore hAfter hAfter' hEvent')
                (ih hPast hPast' hRest hRest')

------------------------------------------------------------
-- Consistent Reads
------------------------------------------------------------

namespace World

variable
  {catalog : SqlCatalog}
  {ident : TableIdent}
  {w w' : World}

/- A table with a history has a row. -/
theorem Inv.row_of_history
    (hInv : w.Inv ext)
    (hHistory : w.history ident ≠ []) :
    ∃ row ∈ w.database.tables, row.ident = ident := by
  rcases List.exists_mem_of_ne_nil _ hHistory with
    ⟨e, hEntry⟩
  rcases List.mem_map.mp hEntry with ⟨call, hCall, _⟩
  rcases List.mem_filter.mp hCall with ⟨hMember, hIdent⟩
  rcases hInv.known call hMember with ⟨row, hRow, hName⟩
  exact ⟨row, hRow,
    hName.trans (of_decide_eq_true hIdent)⟩

/- An interleaved read is a snapshot of its transaction. -/
theorem Inv.interleavedRead
    {view : TableView}
    (hInv : w.Inv ext)
    (hOrdered : w'.Ordered)
    (hReads : ReadsBack ext (w'.history ident))
    (hRuns :
      Query.Runs (Step ext) World.database w
        (readTable ext catalog ident none) w' (.ok view)) :
    ∃ past later,
      w'.history ident = past ++ later ∧
      past.ids.getLast? = some view.transactionId ∧
      view.Shows past ∧
      view.properties = past.properties := by
  rcases runs_readTable (fun _ _ hStep => hStep) hInv hRuns
    with ⟨w₀, w₁, w₂, w₃, row, h₀, h₁, h₂, h₃, h', hSeen⟩
  have hInv₀ := hInv.steps h₀
  rcases hInv₀.steps_history
    (h₁.trans (h₂.trans (h₃.trans h'))) ident with
    ⟨more, hMore⟩
  rw [hMore] at hReads
  rcases History.exists_split hSeen.member with
    ⟨past, later, hSplit, hLast⟩
  have hHead := hSeen.current hInv₀ hSplit hLast
  refine ⟨past, later ++ more, ?_, hLast, ?_, ?_⟩
  · rw [hMore, hSplit, List.append_assoc]
  · exact hSeen.shows hInv₀ h₁ h₂ h₃ h' hOrdered
      hReads.past hSplit hLast
  · have hTracked := hInv₀.tracked row hSeen.found
    rw [hSeen.rowIdent] at hTracked
    rw [hTracked.readProperties hSeen.properties hReads.past,
      hSplit, hHead, List.append_nil]

/- What an interleaved listing has seen of its range. -/
theorem Inv.interleavedLog
    {row : TableRow}
    {cursor : TxnRangeCursor}
    {past later : History}
    {events : List TxnEvent}
    (hInv : w.Inv ext)
    (hRow : row ∈ w.database.tables)
    (hSplit : w'.history row.ident = past ++ later)
    (hLast : past.ids.getLast? = some cursor.toInclusive)
    (hRuns :
      Query.Runs (Step ext) World.database w
        (listTransactionEvents ext catalog row.ident cursor)
        w' (.ok events)) :
    ∃ earlier range Seen,
      past = earlier ++ range ∧
      earlier.ids.getLast? = cursor.fromExclusive ∧
      (∀ db, Seen db → ∃ later,
        Holds ext db row.tableUuid
          (earlier ++ range ++ later)) ∧
      List.Forall₂
        (EventSeen ext catalog.kind row.tableUuid Seen)
        range.ids events := by
  rcases runs_listTransactionEvents
    (fun _ _ hStep => hStep) hInv hRuns with
    ⟨w₁, row₁, earlier, range, later₁, h₁, h', hSeen⟩
  have hInv₁ := hInv.steps h₁
  have hUuid : row₁.tableUuid = row.tableUuid := by
    rcases hInv.steps_keeps h₁ hRow with
      ⟨row', hRow', hUuid', hIdent'⟩
    rw [hInv₁.sound.ident_unique hSeen.found hRow'
      (hSeen.rowIdent.trans hIdent'.symm), hUuid']
  have hAfter {x : World}
      (hx : Relation.ReflTransGen (Step ext) w₁ x) :
      ∃ more, x.history row.ident =
          earlier ++ range ++ more ∧
        Holds ext x.database row.tableUuid
          (earlier ++ range ++ more) := by
    rcases hInv₁.steps_history hx row.ident with
      ⟨more, hMore⟩
    have hHolds := hInv.holds_later (h₁.trans hx) hRow
    rw [hSeen.split, List.append_assoc] at hMore
    rw [hMore] at hHolds
    exact ⟨_, hMore, hHolds⟩
  have hRange : past = earlier ++ range := by
    rcases hAfter h' with ⟨more, hHistory, hHolds⟩
    have hNodup := hHolds.ids_nodup hHolds.sound
    rw [← hHistory, hSplit] at hNodup
    refine History.split_unique hNodup
      (hSplit.symm.trans hHistory) ?_
    have hNonempty : range.ids ≠ [] := by
      intro hNone
      have hStop := hSeen.stop
      rw [hNone] at hStop
      cases hStop
    rw [hLast, History.ids_append,
      List.getLast?_append_of_ne_nil _ hNonempty,
      hSeen.stop]
  refine ⟨earlier, range, _, hRange, hSeen.start, ?_,
    hUuid ▸ hSeen.events⟩
  rintro db ⟨x, hx, _, rfl⟩
  rcases hAfter hx with ⟨more, _, hHolds⟩
  exact ⟨more, hHolds⟩

/-
  A read of the head returns the snapshot of the transaction
  that its view names.  Two listings of a range, whose end
  has the same past in both runs, agree whatever else runs
  between their queries, but for the order of the files that
  an event added or removed and the stamps that close files
  and schemas.
-/
theorem Reachable.readsConsistent
    (hReach : w.Reachable ext) :
    (∀ w' view,
      w'.Ordered →
      ReadsBack ext (w'.history ident) →
      Query.Runs (Step ext) World.database w
        (readTable ext catalog ident none) w' (.ok view) →
      ∃ past later,
        w'.history ident = past ++ later ∧
        past.ids.getLast? = some view.transactionId ∧
        view.Shows past ∧
        view.properties = past.properties) ∧
    (∀ cursor past later₁ later₂ w₁ w₂ events₁ events₂,
      w.history ident ≠ [] →
      w₁.history ident = past ++ later₁ →
      w₂.history ident = past ++ later₂ →
      past.ids.getLast? = some cursor.toInclusive →
      Query.Runs (Step ext) World.database w
        (listTransactionEvents ext catalog ident cursor)
        w₁ (.ok events₁) →
      Query.Runs (Step ext) World.database w
        (listTransactionEvents ext catalog ident cursor)
        w₂ (.ok events₂) →
      List.Forall₂ TxnEvent.SameCore events₁ events₂) := by
  have hInv := hReach.inv
  constructor
  · intro w' view hOrdered hReads hRuns
    exact hInv.interleavedRead hOrdered hReads hRuns
  · intro cursor past later₁ later₂ w₁ w₂ events₁ events₂
      hHistory hSplit₁ hSplit₂ hLast hRuns₁ hRuns₂
    rcases hInv.row_of_history hHistory with
      ⟨row, hRow, rfl⟩
    rcases hInv.interleavedLog hRow hSplit₁ hLast hRuns₁
      with ⟨earlier, range, Seen, rfl, hStart, hPast, hSeen⟩
    rcases hInv.interleavedLog hRow hSplit₂ hLast hRuns₂
      with ⟨earlier', range', Seen', hSame, hStart',
        hPast', hSeen'⟩
    have hNodup :=
      (hInv.holds_later hRuns₁.steps hRow).ids_nodup
        (hInv.steps hRuns₁.steps).sound
    rw [hSplit₁, List.append_assoc] at hNodup
    have hWhole :
        earlier ++ (range ++ later₁) =
          earlier' ++ (range' ++ later₁) := by
      rw [← List.append_assoc, hSame, List.append_assoc]
    have hEarlier : earlier = earlier' :=
      History.split_unique hNodup hWhole
        (hStart.trans hStart'.symm)
    subst hEarlier
    have hRange := List.append_cancel_left hSame
    subst hRange
    exact forall₂_sameCore hPast hPast' hSeen hSeen'

end World

------------------------------------------------------------
-- Sample Interleavings
------------------------------------------------------------

/- The first question sees one state, all others another. -/
def Query.execMoved
    {σ ε α : Type}
    (s s' : σ) : Query σ ε α → Except ε α
| .done r => r
| .ask next => (next s).exec s'

/- Steps taken right after the first question are a run. -/
theorem Query.runs_execMoved
    {ω σ ε α : Type}
    {Step : ω → ω → Prop}
    {see : ω → σ}
    {w w' : ω}
    (hSteps : Relation.ReflTransGen Step w w')
    (q : Query σ ε α) :
    Query.Runs Step see w q w'
      (q.execMoved (see w) (see w')) := by
  cases q with
  | done r => exact .done hSteps
  | ask next =>
      exact .ask .refl
        ((runs_exec w' (next (see w))).after_wait hSteps)

/- The sample run before its last calls. -/
def samplePast (n : Nat) : World :=
  World.run sampleExternal (sampleCalls.take n)

/- One more call is a step of a run. -/
theorem World.step_run_take
    {ext : External}
    {calls : List Call}
    {n : Nat}
    (hMore : n < calls.length) :
    Relation.ReflTransGen (World.Step ext)
      (World.run ext (calls.take n))
      (World.run ext (calls.take (n + 1))) := by
  apply Relation.ReflTransGen.single
  refine .inl ⟨calls[n], ?_⟩
  rw [List.take_succ_eq_append_getElem hMore,
    World.run_concat]

theorem samplePast_steps
    {n : Nat}
    (hMore : n < sampleCalls.length) :
    Relation.ReflTransGen (World.Step sampleExternal)
      (samplePast n) (samplePast (n + 1)) :=
  World.step_run_take hMore

/- The event of the creation, with the end of its schema. -/
def sampleCreated (validTo : Option TxnId) : TxnEvent :=
  { transactionId := 1
    fileChanges := []
    schemaChange := some
      { transactionId := 1
        schema :=
          { schemaUuid := 1000
            tableUuid := 1000
            schemaVersion := 1
            validFromTransactionId := 1
            validToTransactionId := validTo
            createdAt := 1
            columns :=
              [⟨1000, 1000, "a", .int32, 1, false⟩] } } }

/- The order of an index with `removed_in` as its next key. -/
def FileRow.indexedBefore (row row' : FileRow) : Bool :=
  row.removedInTransactionId.all fun t =>
    row'.removedInTransactionId.any fun t' => t ≤ t'

/- The sample, whose added files come from that index. -/
def indexedExternal : External :=
  { sampleExternal with
    orders :=
      { RowOrders.stored with
        addedFiles := .sorted fun row row' =>
          row.indexedBefore row' } }

def indexedPast (n : Nat) : World :=
  World.run indexedExternal (sampleCalls.take n)

/- The sequence of file changes of some events. -/
def fileCores (events : List TxnEvent) :
    List (List (TxnId × TxnFileChangeKind × Uuid)) :=
  events.map fun event =>
    event.fileChanges.map TxnFileChange.core

/-
  A schema change is not independent of commits: it shows
  whether one has replaced the schema meanwhile.  Neither is
  the sequence of file changes: a commit that removes a file
  moves its row within the index.
-/
theorem listings_move :
    (∃ events₁ events₂,
      (samplePast 1).Reachable sampleExternal ∧
      (samplePast 2).Ordered ∧
      Query.Runs (World.Step sampleExternal) World.database
        (samplePast 1)
        (listTransactionEvents sampleExternal sampleCatalog
          sampleIdent ⟨none, 1⟩)
        (samplePast 1) (.ok events₁) ∧
      Query.Runs (World.Step sampleExternal) World.database
        (samplePast 1)
        (listTransactionEvents sampleExternal sampleCatalog
          sampleIdent ⟨none, 1⟩)
        (samplePast 2) (.ok events₂) ∧
      events₁.map TxnEvent.schemaChange ≠
        events₂.map TxnEvent.schemaChange) ∧
    (∃ events₁ events₂,
      (indexedPast 2).Reachable indexedExternal ∧
      (indexedPast 3).Ordered ∧
      Query.Runs (World.Step indexedExternal) World.database
        (indexedPast 2)
        (listTransactionEvents indexedExternal sampleCatalog
          sampleIdent ⟨some 1, 2⟩)
        (indexedPast 2) (.ok events₁) ∧
      Query.Runs (World.Step indexedExternal) World.database
        (indexedPast 2)
        (listTransactionEvents indexedExternal sampleCatalog
          sampleIdent ⟨some 1, 2⟩)
        (indexedPast 3) (.ok events₂) ∧
      fileCores events₁ =
        [[(2, .added, 2001), (2, .added, 2000),
          (2, .removed, 2000)]] ∧
      fileCores events₂ =
        [[(2, .added, 2000), (2, .added, 2001),
          (2, .removed, 2000)]]) := by
  have hStill :
      (listTransactionEvents sampleExternal sampleCatalog
        sampleIdent ⟨none, 1⟩).exec
          (samplePast 1).database =
            .ok [sampleCreated none] := by
    decide +kernel
  have hMoved :
      (listTransactionEvents sampleExternal sampleCatalog
        sampleIdent ⟨none, 1⟩).execMoved
          (samplePast 1).database (samplePast 2).database =
            .ok [sampleCreated (some 2)] := by
    decide +kernel
  have hBefore :
      (((listTransactionEvents indexedExternal sampleCatalog
        sampleIdent ⟨some 1, 2⟩).exec
          (indexedPast 2).database).map fileCores) =
            .ok [[(2, .added, 2001), (2, .added, 2000),
              (2, .removed, 2000)]] := by
    decide +kernel
  have hAfter :
      (((listTransactionEvents indexedExternal sampleCatalog
        sampleIdent ⟨some 1, 2⟩).execMoved
          (indexedPast 2).database
          (indexedPast 3).database).map fileCores) =
            .ok [[(2, .added, 2000), (2, .added, 2001),
              (2, .removed, 2000)]] := by
    decide +kernel
  constructor
  · refine ⟨[sampleCreated none], [sampleCreated (some 2)],
      World.reachable_run .., by decide +kernel, ?_, ?_,
      by decide +kernel⟩
    · rw [← hStill]
      exact Query.runs_exec ..
    · rw [← hMoved]
      exact Query.runs_execMoved
        (samplePast_steps (by decide)) _
  · rcases map_ok hBefore with ⟨events₁, hEvents₁, hCores₁⟩
    rcases map_ok hAfter with ⟨events₂, hEvents₂, hCores₂⟩
    refine ⟨events₁, events₂, World.reachable_run ..,
      by decide +kernel, ?_, ?_, hCores₁.symm,
      hCores₂.symm⟩
    · rw [← hEvents₁]
      exact Query.runs_exec ..
    · rw [← hEvents₂]
      exact Query.runs_execMoved
        (World.step_run_take (by decide)) _

/-
  The view of the sample run at its second transaction, read
  while the third one commits.
-/
def sampleMovedView : TableView :=
  { sampleView with properties := {} }

theorem readsConsistent_sample :
    (∃ past later,
      sampleWorld.history sampleIdent = past ++ later ∧
      past.ids.getLast? =
        some sampleMovedView.transactionId ∧
      sampleMovedView.Shows past ∧
      sampleMovedView.properties = past.properties) ∧
    List.Forall₂ TxnEvent.SameCore [sampleCreated none]
      [sampleCreated (some 2)] := by
  have hRead :
      (readTable sampleExternal sampleCatalog sampleIdent
        none).execMoved (samplePast 2).database
          sampleWorld.database = .ok sampleMovedView := by
    decide +kernel
  have hStill :
      (listTransactionEvents sampleExternal sampleCatalog
        sampleIdent ⟨none, 1⟩).exec
          (samplePast 1).database =
            .ok [sampleCreated none] := by
    decide +kernel
  have hMoved :
      (listTransactionEvents sampleExternal sampleCatalog
        sampleIdent ⟨none, 1⟩).execMoved
          (samplePast 1).database (samplePast 2).database =
            .ok [sampleCreated (some 2)] := by
    decide +kernel
  constructor
  · refine (@World.Reachable.readsConsistent sampleExternal
      sampleCatalog sampleIdent (samplePast 2)
      (World.reachable_run ..)).1 sampleWorld
        sampleMovedView (by decide +kernel)
        (by decide +kernel) ?_
    rw [← hRead]
    exact Query.runs_execMoved
      (samplePast_steps (n := 2) (by decide)) _
  · refine (@World.Reachable.readsConsistent sampleExternal
      sampleCatalog sampleIdent (samplePast 1)
      (World.reachable_run ..)).2 ⟨none, 1⟩
        ((samplePast 1).history sampleIdent) []
        (((samplePast 2).history sampleIdent).drop 1)
        (samplePast 1) (samplePast 2) _ _
        (by decide +kernel) (by decide +kernel)
        (by decide +kernel) (by decide +kernel) ?_ ?_
    · rw [← hStill]
      exact Query.runs_exec ..
    · rw [← hMoved]
      exact Query.runs_execMoved
        (samplePast_steps (by decide)) _

end Planar
