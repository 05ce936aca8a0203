import Planar.Properties.ReadLimits
import Planar.Reading.EventLog

/-
  A consumer that polls a table for its events while others
  commit to it.

  Main declarations:
    * `Consumer`, `Polling`
    * `Consumer.UpTo`, `Polling.upTo`
    * `Polling.exactlyOnce`
-/

------------------------------------------------------------
-- Consumers
------------------------------------------------------------

namespace Planar

/-
  A consumer of the events of a table: its checkpoint, the
  head that it has read and not yet listed up to, and its
  log.
-/
structure Consumer where
  checkpoint : TxnId
  head : Option TxnId
  log : List TxnEvent

/-
  The states of a world and a consumer.  It starts with the
  creating transaction.  A poll reads the head and then
  lists the events from the checkpoint to that head, while
  others write.  A listing that fails leaves the checkpoint
  and the log, and the consumer polls again.
-/
inductive Polling
    (ext : External)
    (catalog : SqlCatalog)
    (ident : TableIdent) : World → Consumer → Prop
  | start {w : World} {first : Entry} {rest : History}
      (hReach : w.Reachable ext)
      (hHistory : w.history ident = first :: rest) :
      Polling ext catalog ident w
        ⟨first.transactionId, none, []⟩
  | write {w w' : World} {k : Consumer}
      (hPolling : Polling ext catalog ident w k)
      (hStep : w.Step ext w') :
      Polling ext catalog ident w' k
  | readHead {w : World} {c h : TxnId}
      {log : List TxnEvent}
      (hPolling : Polling ext catalog ident w ⟨c, none, log⟩)
      (hHead :
        (currentTransactionId ident).exec w.database =
          .ok h) :
      Polling ext catalog ident w ⟨c, some h, log⟩
  | list {w w' : World} {c h : TxnId}
      {log events : List TxnEvent}
      (hPolling :
        Polling ext catalog ident w ⟨c, some h, log⟩)
      (hRuns :
        Query.Runs (World.Step ext) World.database w
          (listTransactionEvents ext catalog ident
            ⟨some c, h⟩) w' (.ok events)) :
      Polling ext catalog ident w' ⟨h, none, log ++ events⟩
  | fail {w w' : World} {c h : TxnId}
      {log : List TxnEvent} {e : Fault}
      (hPolling :
        Polling ext catalog ident w ⟨c, some h, log⟩)
      (hRuns :
        Query.Runs (World.Step ext) World.database w
          (listTransactionEvents ext catalog ident
            ⟨some c, h⟩) w' (.error e)) :
      Polling ext catalog ident w' ⟨c, none, log⟩

/-
  The consumer is up to its checkpoint in a history: its log
  has the transactions after the creation up to there, each
  once and in order, and the head that it has read does not
  come before.
-/
def Consumer.UpTo
    (k : Consumer)
    (h : History) : Prop :=
  ∃ (first : Entry) (past later : History),
    h = (first :: past) ++ later ∧
    k.log.map TxnEvent.transactionId = past.ids ∧
    (History.ids (first :: past)).getLast? =
      some k.checkpoint ∧
    ∀ t ∈ k.head, ∃ range after, later = range ++ after ∧
      (History.ids (first :: past ++ range)).getLast? =
        some t

theorem Consumer.UpTo.append
    {k : Consumer}
    {h : History}
    (hUpTo : k.UpTo h)
    (more : History) :
    k.UpTo (h ++ more) := by
  rcases hUpTo with
    ⟨first, past, later, rfl, hLog, hLast, hHead⟩
  refine ⟨first, past, later ++ more,
    List.append_assoc .., hLog, hLast, ?_⟩
  intro t ht
  rcases hHead t ht with ⟨range, after, rfl, hRange⟩
  exact ⟨range, after ++ more, List.append_assoc ..,
    hRange⟩

------------------------------------------------------------
-- Heads
------------------------------------------------------------

variable
  {ext : External}
  {catalog : SqlCatalog}
  {ident : TableIdent}
  {w w' : World}

/- The head that is read is the last of the history. -/
theorem World.Inv.exec_head
    (hInv : w.Inv ext)
    (hCalls : w.callsOn ident ≠ []) :
    ∃ t, (w.history ident).ids.getLast? = some t ∧
      (currentTransactionId ident).exec w.database =
        .ok t := by
  rcases hInv.findTable_of_calls hCalls with ⟨row, hFound⟩
  rcases Database.findTable_some hFound with
    ⟨hMember, rfl⟩
  rcases hInv.shows hMember with
    ⟨row', t, hFound', _, hHead⟩
  rw [hFound] at hFound'
  have hRow := Option.some.inj hFound'
  subst hRow
  refine ⟨t, (hInv.tracked row hMember).head.symm.trans
    hHead, ?_⟩
  unfold currentTransactionId
  rw [Query.exec_bind_of_ok (Query.exec_fetch ..), hFound]
  dsimp only
  rw [hHead]
  rfl

------------------------------------------------------------
-- Runs of a Consumer
------------------------------------------------------------

theorem Polling.reachable
    {k : Consumer}
    (hPolling : Polling ext catalog ident w k) :
    w.Reachable ext := by
  induction hPolling with
  | start hReach _ => exact hReach
  | write _ hStep ih => exact .tail ih hStep
  | readHead _ _ ih => exact ih
  | list _ hRuns ih => exact ih.trans hRuns.steps
  | fail _ hRuns ih => exact ih.trans hRuns.steps

/-
  Whatever the consumer and the others do, the consumer is
  up to its checkpoint.
-/
theorem Polling.upTo
    {k : Consumer}
    (hPolling : Polling ext catalog ident w k) :
    k.UpTo (w.history ident) := by
  induction hPolling with
  | @start w first rest hReach hHistory =>
      rw [hHistory]
      exact ⟨first, [], rest, rfl, rfl, rfl, by simp⟩
  | @write w w' k hPolling hStep ih =>
      rcases hPolling.reachable.inv.steps_history
        (.single hStep) ident with ⟨more, hMore⟩
      rw [hMore]
      exact ih.append more
  | @readHead w c h log hPolling hHead ih =>
      rcases ih with
        ⟨first, past, later, hSplit, hLog, hLast, _⟩
      have hInv := hPolling.reachable.inv
      have hCalls : w.callsOn ident ≠ [] := by
        intro hNone
        rw [World.history_eq, hNone] at hSplit
        exact absurd hSplit.symm (by simp)
      rcases hInv.exec_head hCalls with ⟨t, hEnd, hRead⟩
      rw [hHead] at hRead
      have hSame := Except.ok.inj hRead
      subst hSame
      refine ⟨first, past, later, hSplit, hLog, hLast, ?_⟩
      intro t ht
      have hEq := Option.some.inj (Option.mem_def.mp ht)
      subst hEq
      exact ⟨later, [], by simp, hSplit ▸ hEnd⟩
  | @list w w' c h log events hPolling hRuns ih =>
      rcases ih with
        ⟨first, past, later, hSplit, hLog, hLast, _⟩
      have hInv := hPolling.reachable.inv
      rcases runs_listTransactionEvents (fun _ _ hs => hs)
          hInv hRuns with
        ⟨w₁, row, earlier, range, rest, hBefore, hAfter,
          hSeen⟩
      have hInv₁ := hInv.steps hBefore
      rcases hInv.steps_history hBefore ident with
        ⟨more, hMore⟩
      rcases hInv₁.steps_history hAfter ident with
        ⟨more', hMore'⟩
      have hHolds := hInv₁.holds hSeen.found
      have hNodup := hHolds.ids_nodup hHolds.sound
      rw [hSeen.rowIdent, hMore, hSplit] at hNodup
      have hPast : first :: past = earlier := by
        have hSame := hSeen.split
        rw [hMore, hSplit, List.append_assoc,
          List.append_assoc] at hSame
        rw [List.append_assoc] at hNodup
        exact History.split_unique hNodup hSame
          (hLast.trans hSeen.start.symm)
      subst hPast
      have hIds := transactionIds_of_seen hSeen.events
      refine ⟨first, past ++ range, rest ++ more', ?_, ?_,
        ?_, by simp⟩
      · rw [hMore', hSeen.split]
        simp
      · rw [List.map_append, hLog, hIds, History.ids_append]
      · rw [← List.cons_append]
        exact History.last_append hSeen.stop
  | @fail w w' c h log e hPolling hRuns ih =>
      rcases hPolling.reachable.inv.steps_history
        hRuns.steps ident with ⟨more, hMore⟩
      rcases ih.append more with
        ⟨first, past, later, hSplit, hLog, hLast, _⟩
      rw [hMore]
      exact ⟨first, past, later, hSplit, hLog, hLast,
        by simp⟩

------------------------------------------------------------
-- Polls
------------------------------------------------------------

/- A scan may list what lies between two transactions. -/
def WithinScanBetween
    (h : History)
    (c t : TxnId) : Prop :=
  ∀ past range later : History,
    h = past ++ range ++ later →
    past.ids.getLast? = some c →
    range.ids.getLast? = some t →
    WithinScan past range

/- There is only one range between two transactions. -/
theorem WithinScan.between
    {past range later : History}
    {c t : TxnId}
    (hWithin : WithinScan past range)
    (hNodup : (History.ids (past ++ range ++ later)).Nodup)
    (hStart : past.ids.getLast? = some c)
    (hStop : range.ids.getLast? = some t) :
    WithinScanBetween (past ++ range ++ later) c t := by
  intro past' range' later' hSplit hStart' hStop'
  have hNodup' := hNodup
  have hSplit' := hSplit
  rw [List.append_assoc] at hNodup'
  rw [List.append_assoc, List.append_assoc] at hSplit'
  have hPast := History.split_unique hNodup' hSplit'
    (hStart.trans hStart'.symm)
  have hLast :
      (History.ids (past ++ range)).getLast? =
        (History.ids (past' ++ range')).getLast? := by
    rw [History.last_append hStop,
      History.last_append hStop']
  have hRange := History.split_unique hNodup hSplit hLast
  subst hPast
  rw [← List.append_cancel_left hRange]
  exact hWithin

/- The databases that a run from a world may see. -/
def World.Ahead
    (ext : External)
    (w : World)
    (db : Database) : Prop :=
  ∃ x, Relation.ReflTransGen (World.Step ext) w x ∧
    db = x.database

/- A range of the history is served from now on. -/
theorem World.Reachable.serves_ahead
    {past later : History}
    {row : TableRow}
    (hReach : w.Reachable ext)
    (hMember : row ∈ w.database.tables)
    (hSplit : w.history row.ident = past ++ later) :
    ∀ db, World.Ahead ext w db →
      Serves ext row.tableUuid past (fun _ => True) db ∧
      Shows row.ident row.tableUuid db := by
  rintro db ⟨x, hSteps, rfl⟩
  have hInv := hReach.inv
  have hInv' := hInv.steps hSteps
  rcases hInv.steps_history hSteps row.ident with
    ⟨more, hMore⟩
  rcases hInv.steps_keeps hSteps hMember with
    ⟨row', hMember', hUuid, hIdent⟩
  have hSerialized :=
    World.Reachable.serialized (hReach.trans hSteps)
  have hSplit' :
      x.history row'.ident = past ++ (later ++ more) := by
    rw [hIdent, hMore, hSplit, List.append_assoc]
  have hServes :=
    hInv'.serves hSerialized hMember' hSplit'
  have hShows := hInv'.shows hMember'
  rw [hUuid] at hServes hShows
  rw [hIdent] at hShows
  exact ⟨hServes, hShows⟩

/-
  A listing between two transactions of the history, the
  first before the second, succeeds while others write.
-/
theorem World.Reachable.lists
    {past range later : History}
    {c t : TxnId}
    {r : Result (List TxnEvent)}
    (hReach : w.Reachable ext)
    (hReadable : Readable ext (w.history ident))
    (hKind : catalog.kind = .sqlite)
    (hSplit : w.history ident = past ++ range ++ later)
    (hStart : past.ids.getLast? = some c)
    (hStop : range.ids.getLast? = some t)
    (hWithin : WithinScan past range)
    (hRuns :
      Query.Runs (World.Step ext) World.database w
        (listTransactionEvents ext catalog ident
          ⟨some c, t⟩) w' r) :
    ∃ events, r = .ok events := by
  have hInv := hReach.inv
  have hCalls : w.callsOn ident ≠ [] := by
    intro hNone
    rw [World.history_eq, hNone] at hSplit
    have hPast : past = [] := by
      simpa using congrArg (List.take past.length) hSplit
    rw [hPast] at hStart
    cases hStart
  rcases hInv.findTable_of_calls hCalls with ⟨row, hFound⟩
  rcases Database.findTable_some hFound with
    ⟨hMember, rfl⟩
  have hHolds := hInv.holds hMember
  have hNodup := hHolds.ids_nodup hHolds.sound
  rw [hSplit, History.ids_append] at hNodup
  rw [hSplit] at hReadable
  have hAhead := hReach.serves_ahead hMember hSplit
  have hSucceeds : Query.Succeeds (World.Ahead ext w) _
      (listTransactionEvents ext catalog row.ident
        ⟨some c, t⟩) :=
    succeeds_listTransactionEvents hKind
      (fun db hDb => (hAhead db hDb).2)
      (fun db hDb => (hAhead db hDb).1)
      (List.nodup_append.mp hNodup).1 hReadable.past hStart
      hStop hWithin
  rcases hSucceeds.runs
    (fun x hSteps => ⟨x, hSteps, rfl⟩) hRuns with
    ⟨events, hOk, _⟩
  exact ⟨events, hOk⟩

/- No listing begins and ends with the same transaction. -/
theorem World.Inv.not_lists_same
    {c : TxnId}
    {events : List TxnEvent}
    (hInv : w.Inv ext)
    (hRuns :
      Query.Runs (World.Step ext) World.database w
        (listTransactionEvents ext catalog ident
          ⟨some c, c⟩) w' (.ok events)) :
    False := by
  rcases runs_listTransactionEvents (fun _ _ hs => hs)
      hInv hRuns with
    ⟨w₁, row, earlier, range, rest, hBefore, _, hSeen⟩
  have hInv₁ := hInv.steps hBefore
  have hHolds := hInv₁.holds hSeen.found
  have hNodup := hHolds.ids_nodup hHolds.sound
  rw [hSeen.rowIdent, hSeen.split, History.ids_append,
    History.ids_append] at hNodup
  have hRange :=
    List.nodup_append.mp (List.nodup_append.mp hNodup).1
  exact hRange.2.2 c (List.mem_of_getLast? hSeen.start) c
    (List.mem_of_getLast? hSeen.stop) rfl

/-
  At every moment the log is exact and the head can be read.
  A listing within the limits returns the events exactly
  when the head that the poll has read is not the
  checkpoint.
-/
theorem Polling.exactlyOnce
    {k : Consumer}
    (hPolling : Polling ext catalog ident w k)
    (hReadable : Readable ext (w.history ident))
    (hKind : catalog.kind = .sqlite) :
    k.UpTo (w.history ident) ∧
    (∃ t, (currentTransactionId ident).exec w.database =
      .ok t) ∧
    ∀ t ∈ k.head, ∀ w' r,
      WithinScanBetween (w.history ident) k.checkpoint t →
      Query.Runs (World.Step ext) World.database w
        (listTransactionEvents ext catalog ident
          ⟨some k.checkpoint, t⟩) w' r →
      ((∃ events, r = .ok events) ↔ k.checkpoint ≠ t) := by
  have hUpTo := hPolling.upTo
  have hReach := hPolling.reachable
  refine ⟨hUpTo, ?_, ?_⟩
  · rcases hUpTo with ⟨first, past, later, hSplit, _⟩
    have hCalls : w.callsOn ident ≠ [] := by
      intro hNone
      rw [World.history_eq, hNone] at hSplit
      exact absurd hSplit.symm (by simp)
    rcases hReach.inv.exec_head hCalls with ⟨t, _, hRead⟩
    exact ⟨t, hRead⟩
  · intro t ht w' r hWithin hRuns
    rcases hUpTo with
      ⟨first, past, later, hSplit, _, hLast, hHead⟩
    rcases hHead t ht with ⟨range, after, rfl, hEnd⟩
    constructor
    · rintro ⟨events, rfl⟩ rfl
      exact hReach.inv.not_lists_same hRuns
    · intro hOther
      rw [← List.append_assoc] at hSplit
      have hStop : range.ids.getLast? = some t := by
        rcases hRange : range.ids.getLast? with _ | last
        · rw [History.ids_append, List.getLast?_append,
            hRange, hLast] at hEnd
          exact absurd (Option.some.inj hEnd) hOther
        · rw [History.last_append hRange] at hEnd
          exact hEnd
      exact hReach.lists hReadable hKind hSplit hLast hStop
        (hWithin _ _ _ hSplit hLast hStop) hRuns

------------------------------------------------------------
-- Sample Polls
------------------------------------------------------------

/- A consumer that has read the head of the sample run. -/
theorem polling_sample :
    Polling sampleExternal sampleCatalog sampleIdent
      sampleWorld ⟨1, some 3, []⟩ := by
  have hHistory :
      sampleWorld.history sampleIdent =
        (sampleCreate 1).entry ::
          (sampleWorld.history sampleIdent).drop 1 := by
    decide +kernel
  have hHead :
      (currentTransactionId sampleIdent).exec
        sampleWorld.database = .ok 3 := by
    decide +kernel
  exact .readHead
    (.start (World.reachable_run ..) hHistory) hHead

theorem exactlyOnce_sample :
    ∃ events,
      (listTransactionEvents sampleExternal sampleCatalog
        sampleIdent ⟨some 1, 3⟩).exec
          sampleWorld.database = .ok events := by
  have hReadable : Readable sampleExternal
      (sampleWorld.history sampleIdent) :=
    ⟨by decide +kernel, by decide +kernel⟩
  have hParts : sampleWorld.history sampleIdent =
      (sampleWorld.history sampleIdent).take 1 ++
        (sampleWorld.history sampleIdent).drop 1 ++ [] := by
    rw [List.append_nil, List.take_append_drop]
  have hScan : WithinScan
      ((sampleWorld.history sampleIdent).take 1)
      ((sampleWorld.history sampleIdent).drop 1) :=
    { transactions := by decide +kernel
      counts :=
        ⟨by decide +kernel, by decide +kernel,
          by decide +kernel⟩ }
  have hWithin : WithinScanBetween
      (sampleWorld.history sampleIdent) 1 3 := by
    rw [hParts]
    exact hScan.between (by decide +kernel)
      (by decide +kernel) (by decide +kernel)
  have hExact :=
    polling_sample.exactlyOnce hReadable rfl
  exact (hExact.2.2 3 rfl sampleWorld _ hWithin
    (Query.runs_exec ..)).mpr (by decide)

/-
  A poll during which nothing was committed since the table
  was created fails.
-/
theorem polling_idle :
    let w := World.run sampleExternal [sampleCreate 1]
    Polling sampleExternal sampleCatalog sampleIdent w
      ⟨1, some 1, []⟩ ∧
    Query.Runs (World.Step sampleExternal) World.database w
      (listTransactionEvents sampleExternal sampleCatalog
        sampleIdent ⟨some 1, 1⟩) w
      (fault (.invalidArgument
        ("from transaction is not an ancestor of " ++
          "to transaction"))) := by
  have hHistory :
      (World.run sampleExternal [sampleCreate 1]).history
        sampleIdent = [(sampleCreate 1).entry] := by
    decide +kernel
  have hHead :
      (currentTransactionId sampleIdent).exec
        (World.run sampleExternal
          [sampleCreate 1]).database = .ok 1 := by
    decide +kernel
  have hFault :
      (listTransactionEvents sampleExternal sampleCatalog
        sampleIdent ⟨some 1, 1⟩).exec
          (World.run sampleExternal
            [sampleCreate 1]).database =
        fault (.invalidArgument
          ("from transaction is not an ancestor of " ++
            "to transaction")) := by
    decide +kernel
  refine ⟨.readHead
    (.start (World.reachable_run ..) hHistory) hHead, ?_⟩
  rw [← hFault]
  exact Query.runs_exec ..

end Planar
