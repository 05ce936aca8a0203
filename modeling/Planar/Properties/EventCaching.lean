import Planar.Properties.Interleaving
import Planar.Reading.EventStamps

/-
  The events of a range do not stay as they are: their
  records carry stamps that later transactions set.

  Main declarations:
    * `World.Inv.list_after`
    * `World.Reachable.eventCaching`
-/

------------------------------------------------------------
-- Listing a Range Again
------------------------------------------------------------

namespace Planar

variable
  {ext : External}
  {catalog : SqlCatalog}
  {ident : TableIdent}
  {cursor : TxnRangeCursor}
  {w w' : World}
  {events : List TxnEvent}

/-
  After further calls the same range is listed again, with
  the stamps that the new entries have set, and the files of
  each event in some order.
-/
theorem World.Inv.list_after
    {row : TableRow}
    {earlier range later : History}
    (hInv : w.Inv ext)
    (hSteps : Relation.ReflTransGen (Step ext) w w')
    (hKind : catalog.kind = .sqlite)
    (hSeen :
      LogSeen ext catalog ident cursor w
        (fun db => db = w.database) row earlier range later
        events)
    (hList :
      (listTransactionEvents ext catalog ident cursor).exec
        w.database = .ok events) :
    ∃ more events',
      w'.history ident = w.history ident ++ more ∧
      (listTransactionEvents ext catalog ident cursor).exec
        w'.database = .ok events' ∧
      List.Forall₂ TxnEvent.Alike events'
        (events.map (TxnEvent.after more)) := by
  rcases hSeen with ⟨hFound, rfl, hSplit, _, hStop, hSeen⟩
  rcases hInv.steps_history hSteps row.ident with
    ⟨more, hMore⟩
  have hHolds := hInv.holds hFound
  have hHolds' := hInv.holds_later hSteps hFound
  have hNodup := hHolds'.ids_nodup hHolds'.sound
  rw [hMore] at hNodup
  have hGrown : Grown ext w.database w'.database
      row.tableUuid (w.history row.ident) more :=
    ⟨hHolds.toStored, hMore ▸ hHolds'.toStored, hNodup⟩
  rcases hInv.steps_keeps hSteps hFound with
    ⟨row', hFound', hUuid, hIdent⟩
  have hTable := hHolds.sound.findTable hFound
  have hTable' := hHolds'.sound.findTable hFound'
  rw [hIdent] at hTable'
  -- the range ends in the history, which has a head
  have hEnd : cursor.toInclusive ∈
      (w.history row.ident).ids := by
    rw [hSplit, History.ids_append, History.ids_append]
    exact List.mem_append_left _ (List.mem_append_right _
      (List.mem_of_getLast? hStop))
  have hHead' :=
    ((hInv.steps hSteps).tracked row' hFound').head
  rw [hIdent, hMore, History.ids_append] at hHead'
  rcases List.append_of_mem hEnd with ⟨before, after, hIds⟩
  have hChained := hHolds.chained
  rw [hIds] at hChained
  rcases hChained.findTransaction with ⟨end', hEnd', _⟩
  rcases hLast : row'.currentTransactionId with _ | current
  · rw [hLast, eq_comm, List.getLast?_eq_none_iff] at hHead'
    rw [hIds] at hHead'
    simp at hHead'
  -- the same path, and the events of the same transactions
  unfold listTransactionEvents at hList ⊢
  rw [Query.exec_bind_of_ok (Query.exec_fetch ..)] at hList ⊢
  rw [hTable] at hList
  rw [hTable']
  dsimp only at hList ⊢
  rw [Query.exec_bind] at hList
  rcases bind_ok.mp hList with ⟨_, _, hRest⟩
  rw [Query.exec_bind] at hRest
  rcases bind_ok.mp hRest with ⟨_, _, hRest⟩
  rw [Query.exec_bind] at hRest
  rcases bind_ok.mp hRest with ⟨path, hPath, hEvents⟩
  have hRuns :
      Query.Runs (fun _ _ : World => False) World.database w
        (readEvents ext catalog.kind row.tableUuid {} path)
        w (.ok events) := by
    rw [← hEvents]
    exact Query.runs_exec w _
  have hPathIds := transactionIds_of_seen
    (runs_readEvents hRuns)
  rw [transactionIds_of_seen hSeen] at hPathIds
  have hOld : ∀ t ∈ path, t ∈ (w.history row.ident).ids := by
    rw [← hPathIds, hSplit, History.ids_append,
      History.ids_append]
    exact fun t ht => List.mem_append_left _
      (List.mem_append_right _ ht)
  have hCurrent : requireHead row'.currentTransactionId =
      .ok current := by
    rw [hLast]
    rfl
  rw [hKind] at hEvents
  rcases hGrown.exec_readEvents hOld hEvents with
    ⟨events', hEvents', hAlike⟩
  refine ⟨more, events', hMore, ?_, hAlike⟩
  rw [Query.exec_lift_bind_of_ok hCurrent, hUuid, hKind,
    Query.exec_bind_of_ok (hGrown.exec_checkEndExists hEnd'),
    Query.exec_bind_of_ok
      (hGrown.exec_transactionPath hPath)]
  exact hEvents'

------------------------------------------------------------
-- What a Consumer May Cache
------------------------------------------------------------

/- The place of an entry of a range in the history. -/
theorem exists_split
    {h earlier range later : History}
    {e : Entry}
    (hSplit : h = earlier ++ range ++ later)
    (hEntry : e ∈ range) :
    ∃ past rest, h = past ++ e :: rest := by
  apply List.append_of_mem
  rw [hSplit]
  exact List.mem_append_left _
    (List.mem_append_right _ hEntry)

/- The entries of a range are known by their ids. -/
theorem mem_range_iff
    {h earlier range later : History}
    {e : Entry}
    (hSplit : h = earlier ++ range ++ later)
    (hNodup : h.ids.Nodup) :
    e ∈ range ↔ e ∈ h ∧ e.transactionId ∈ range.ids := by
  constructor
  · intro he
    rw [hSplit]
    exact ⟨List.mem_append_left _
      (List.mem_append_right _ he), List.mem_map_of_mem he⟩
  · rintro ⟨he, hId⟩
    rcases List.mem_map.mp hId with ⟨e', he', hEq⟩
    have hIn : e' ∈ h := by
      rw [hSplit]
      exact List.mem_append_left _
        (List.mem_append_right _ he')
    rwa [← List.inj_on_of_nodup_map hNodup hIn he hEq]

/-
  A range that was listed can be listed after any further
  calls.  Its events are the same exactly when none of the
  new entries deletes a file that the range appended and
  that was still there, nor brings a schema when the range
  brought the current one.  And its events tell only of
  their own transactions exactly when the same holds of each
  entry of the range and all entries behind it.
-/
theorem World.Reachable.eventCaching
    (hReach : w.Reachable ext)
    (hSteps : Relation.ReflTransGen (Step ext) w w')
    (hKind : catalog.kind = .sqlite)
    (hList :
      (listTransactionEvents ext catalog ident cursor).exec
        w.database = .ok events) :
    ∃ earlier range later more events',
      w.history ident = earlier ++ range ++ later ∧
      earlier.ids.getLast? = cursor.fromExclusive ∧
      range.ids.getLast? = some cursor.toInclusive ∧
      w'.history ident = w.history ident ++ more ∧
      (listTransactionEvents ext catalog ident cursor).exec
        w'.database = .ok events' ∧
      (List.Forall₂ TxnEvent.Same events events' ↔
        Untouched (w.history ident) range more) ∧
      ((∀ event ∈ events', event.OwnStamps) ↔
        ∀ past e rest,
          w'.history ident = past ++ e :: rest → e ∈ range →
            Untouched (past ++ [e]) [e] rest) := by
  have hInv := hReach.inv
  rcases exec_listTransactionEvents hInv hList with
    ⟨row, earlier, range, later, hSeen⟩
  rcases hInv.list_after hSteps hKind hSeen hList with
    ⟨more, events', hMore, hList', hAlike⟩
  refine ⟨earlier, range, later, more, events', hSeen.split,
    hSeen.start, hSeen.stop, hMore, hList', ?_, ?_⟩
  · have hHolds := hInv.holds hSeen.found
    rw [hSeen.rowIdent] at hHolds
    have hEvents := hSeen.events
    rw [History.ids, List.forall₂_map_left_iff] at hEvents
    rw [TxnEvent.forall₂_same_iff hAlike, untouched_iff,
      List.forall₂_map_right_iff, List.forall₂_same]
    apply forall_iff_of_forall₂ hEvents
    intro e he event hEvent
    rcases exists_split hSeen.split he with
      ⟨past, rest, hSplit⟩
    rw [hSplit] at hHolds ⊢
    exact hEvent.same_after_iff hHolds
  · have hInv' := hInv.steps hSteps
    rcases exec_listTransactionEvents hInv' hList' with
      ⟨row', earlier', range', later', hSeen'⟩
    have hHolds := hInv'.holds hSeen'.found
    rw [hSeen'.rowIdent] at hHolds
    have hNodup := hHolds.ids_nodup hHolds.sound
    have hRange : ∀ e, e ∈ range' ↔ e ∈ range := by
      intro e
      have hSplit : w'.history ident =
          earlier ++ range ++ (later ++ more) := by
        rw [hMore, hSeen.split, List.append_assoc]
      have hIds : range'.ids = range.ids := by
        rw [← transactionIds_of_seen hSeen'.events,
          ← transactionIds_of_seen hSeen.events,
          TxnEvent.Alike.transactionIds hAlike]
      rw [mem_range_iff hSeen'.split hNodup,
        mem_range_iff hSplit hNodup, hIds]
    have hEvents := hSeen'.events
    rw [History.ids, List.forall₂_map_left_iff] at hEvents
    have hOwn := forall_iff_of_forall₂
      (A := fun e => ∀ past rest,
        w'.history ident = past ++ e :: rest →
          Untouched (past ++ [e]) [e] rest)
      (B := TxnEvent.OwnStamps) hEvents (by
        intro e he event hEvent
        constructor
        · intro hStamps past rest hSplit
          rw [hSplit] at hHolds
          exact (hEvent.ownStamps_iff hHolds).mp hStamps
        · intro hAll
          rcases exists_split hSeen'.split he with
            ⟨past, rest, hSplit⟩
          rw [hSplit] at hHolds
          exact (hEvent.ownStamps_iff hHolds).mpr
            (hAll past rest hSplit))
    rw [hOwn]
    constructor
    · intro hAll past e rest hSplit he
      exact hAll e ((hRange e).mpr he) past rest hSplit
    · intro hAll e he past rest hSplit
      exact hAll past e rest hSplit ((hRange e).mp he)

theorem list_samplePast :
    (listTransactionEvents sampleExternal sampleCatalog
      sampleIdent ⟨none, 1⟩).exec (samplePast 1).database =
        .ok [sampleCreated none] := by
  decide +kernel

theorem eventCaching_sample :
    ∃ earlier range later more events',
      (samplePast 1).history sampleIdent =
        earlier ++ range ++ later ∧
      earlier.ids.getLast? = none ∧
      range.ids.getLast? = some 1 ∧
      (samplePast 2).history sampleIdent =
        (samplePast 1).history sampleIdent ++ more ∧
      (listTransactionEvents sampleExternal sampleCatalog
        sampleIdent ⟨none, 1⟩).exec (samplePast 2).database =
          .ok events' ∧
      (List.Forall₂ TxnEvent.Same [sampleCreated none]
          events' ↔
        Untouched ((samplePast 1).history sampleIdent) range
          more) ∧
      ((∀ event ∈ events', event.OwnStamps) ↔
        ∀ past e rest,
          (samplePast 2).history sampleIdent =
              past ++ e :: rest →
            e ∈ range →
              Untouched (past ++ [e]) [e] rest) :=
  World.Reachable.eventCaching
    (World.reachable_run sampleExternal _)
    (samplePast_steps (by decide)) rfl list_samplePast

/-
  The event of the creation has another schema record after
  the commit that changes the schema, and then tells of that
  commit.
-/
theorem event_restamped :
    (samplePast 1).Reachable sampleExternal ∧
      Relation.ReflTransGen (World.Step sampleExternal)
        (samplePast 1) (samplePast 2) ∧
      (listTransactionEvents sampleExternal sampleCatalog
        sampleIdent ⟨none, 1⟩).exec (samplePast 1).database =
          .ok [sampleCreated none] ∧
      (listTransactionEvents sampleExternal sampleCatalog
        sampleIdent ⟨none, 1⟩).exec (samplePast 2).database =
          .ok [sampleCreated (some 2)] ∧
      ¬ List.Forall₂ TxnEvent.Same [sampleCreated none]
        [sampleCreated (some 2)] ∧
      ¬ (sampleCreated (some 2)).OwnStamps := by
  refine ⟨World.reachable_run sampleExternal _,
    samplePast_steps (by decide), list_samplePast,
    by decide +kernel, ?_, ?_⟩
  · intro hSame
    rcases List.forall₂_cons.mp hSame with ⟨hFirst, _⟩
    cases hFirst.schemaChange
  · intro hOwn
    cases hOwn.schema _ rfl

end Planar
