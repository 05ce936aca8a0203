import Planar.Properties.EventCaching
import Planar.Properties.ReadLimits
import Planar.Reading.Pages

/-
  Which ranges of the event log can be listed, and that a
  range is listed page by page.

  Main declarations:
    * `World.Inv.located`
    * `World.Reachable.lists_iff`
    * `World.Reachable.pages`
-/

------------------------------------------------------------
-- Ranges that Can Be Listed
------------------------------------------------------------

namespace Planar

variable
  {ext : External}
  {catalog : SqlCatalog}
  {ident : TableIdent}
  {cursor : TxnRangeCursor}
  {w w₁ w₂ : World}
  {events : List TxnEvent}

/-
  A listing that succeeds has located a range of the history
  and has read the events of its transactions.
-/
theorem World.Inv.located
    (hInv : w.Inv ext)
    (hList :
      (listTransactionEvents ext catalog ident cursor).exec
        w.database = .ok events) :
    ∃ row past range later,
      row ∈ w.database.tables ∧ row.ident = ident ∧
      w.history ident = past ++ range ++ later ∧
      past.ids.getLast? = cursor.fromExclusive ∧
      range.ids.getLast? = some cursor.toInclusive ∧
      range.length ≤ maxTransactionsPerScan ∧
      events.map TxnEvent.transactionId = range.ids ∧
      (readEvents ext catalog.kind row.tableUuid {}
        range.ids).exec w.database = .ok events := by
  rcases exec_listTransactionEvents hInv hList with
    ⟨row, past, range, later, hSeen⟩
  have hFound := hInv.sound.findTable hSeen.found
  rw [hSeen.rowIdent] at hFound
  have hIds := transactionIds_of_seen hSeen.events
  rw [listTransactionEvents_eq, Query.exec_bind,
    bind_ok] at hList
  rcases hList with ⟨⟨tableUuid, path⟩, hLocate, hEvents⟩
  have hLength := exec_locateRange_length hLocate
  have hUuid : tableUuid = row.tableUuid := by
    unfold locateRange at hLocate
    rw [Query.exec_bind_of_ok (Query.exec_fetch ..),
      hFound] at hLocate
    dsimp only at hLocate
    rw [Query.exec_bind, bind_ok] at hLocate
    rcases hLocate with ⟨_, _, hLocate⟩
    rw [Query.exec_bind, bind_ok] at hLocate
    rcases hLocate with ⟨_, _, hLocate⟩
    rw [Query.exec_bind, bind_ok] at hLocate
    rcases hLocate with ⟨_, _, hPure⟩
    exact (Prod.mk.inj (Except.ok.inj hPure)).1.symm
  have hPath : path = range.ids := by
    have hRuns :
        Query.Runs (fun _ _ : World => False) World.database
          w (readEvents ext catalog.kind tableUuid {} path)
          w (.ok events) :=
      hEvents ▸ Query.runs_exec w _
    rw [← hIds,
      transactionIds_of_seen (runs_readEvents hRuns)]
  subst hPath hUuid
  rw [History.ids, List.length_map] at hLength
  exact ⟨row, past, range, later, hSeen.found,
    hSeen.rowIdent, hSeen.split, hSeen.start, hSeen.stop,
    hLength, hIds, hEvents⟩

/-
  A listing succeeds exactly when its boundary comes before
  its end in the history, and when the range between them
  has no more transactions, appended files, removed files
  and schema changes than a scan returns.
-/
theorem World.Reachable.lists_iff
    (hReach : w.Reachable ext)
    (hReadable : Readable ext (w.history ident))
    (hKind : catalog.kind = .sqlite) :
    (∃ events,
      (listTransactionEvents ext catalog ident cursor).exec
        w.database = .ok events) ↔
      ∃ past range later,
        w.history ident = past ++ range ++ later ∧
        past.ids.getLast? = cursor.fromExclusive ∧
        range.ids.getLast? = some cursor.toInclusive ∧
        WithinScan past range := by
  have hInv := hReach.inv
  constructor
  · rintro ⟨events, hList⟩
    rcases hInv.located hList with
      ⟨row, past, range, later, hRow, rfl, hSplit, hStart,
        hStop, hLength, _, hEvents⟩
    have hHolds := hInv.holds hRow
    rw [hSplit] at hHolds
    exact ⟨past, range, later, hSplit, hStart, hStop,
      hLength, hHolds.within_of_readEvents
        ⟨Nat.zero_le _, Nat.zero_le _, Nat.zero_le _⟩
        hEvents⟩
  · rintro ⟨past, range, later, hSplit, hStart, hStop,
      hWithin⟩
    have hSome : w.history ident ≠ [] := by
      intro hNone
      rw [hNone] at hSplit
      have hRange := List.append_eq_nil_iff.mp
        (List.append_eq_nil_iff.mp hSplit.symm).1
      rw [hRange.2] at hStop
      cases hStop
    rcases hInv.row_of_history hSome with ⟨row, hRow, rfl⟩
    have hHolds := hInv.holds hRow
    have hNodup := hHolds.ids_nodup hHolds.sound
    rw [hSplit] at hNodup hReadable
    rw [History.ids_append] at hNodup
    have hServes :=
      hInv.serves hReach.serialized hRow hSplit
    have hShows := hInv.shows hRow
    have hList : Query.Succeeds (· = w.database) _
        (listTransactionEvents ext catalog row.ident
          cursor) :=
      succeeds_listTransactionEvents hKind
        (fun x hx => hx ▸ hShows) (fun x hx => hx ▸ hServes)
        (List.nodup_append.mp hNodup).1 hReadable.past
        hStart hStop hWithin
    rcases hList.exec rfl with ⟨events, hOk, _⟩
    exact ⟨events, hOk⟩

theorem lists_iff_sample :
    (∃ events,
      (listTransactionEvents sampleExternal sampleCatalog
        sampleIdent ⟨some 1, 3⟩).exec sampleWorld.database =
          .ok events) ↔
      ∃ past range later,
        sampleWorld.history sampleIdent =
          past ++ range ++ later ∧
        past.ids.getLast? = some 1 ∧
        range.ids.getLast? = some 3 ∧
        WithinScan past range :=
  (World.reachable_run sampleExternal
    sampleCalls).lists_iff
      ⟨by decide +kernel, by decide +kernel⟩ rfl

------------------------------------------------------------
-- Listing Page by Page
------------------------------------------------------------

/- The events of a range of the history are its listing. -/
theorem World.Reachable.list_of_events
    {row : TableRow}
    {past range later : History}
    (hReach : w.Reachable ext)
    (hKind : catalog.kind = .sqlite)
    (hRow : row ∈ w.database.tables)
    (hSplit : w.history row.ident = past ++ range ++ later)
    (hStart : past.ids.getLast? = cursor.fromExclusive)
    (hStop : range.ids.getLast? = some cursor.toInclusive)
    (hLength : range.length ≤ maxTransactionsPerScan)
    (hEvents :
      (readEvents ext catalog.kind row.tableUuid {}
        range.ids).exec w.database = .ok events) :
    (listTransactionEvents ext catalog row.ident
      cursor).exec w.database = .ok events := by
  have hInv := hReach.inv
  have hHolds := hInv.holds hRow
  have hNodup := hHolds.ids_nodup hHolds.sound
  rw [hSplit, History.ids_append] at hNodup
  have hServes := hInv.serves hReach.serialized hRow hSplit
  have hShows := hInv.shows hRow
  have hLocate : Query.Succeeds (· = w.database) _
      (locateRange .sqlite row.ident cursor) :=
    succeeds_locateRange (fun x hx => hx ▸ hShows)
      (fun x hx => hx ▸ hServes)
      (List.nodup_append.mp hNodup).1 hStart hStop hLength
  rcases hLocate.exec rfl with ⟨r, hLocated, rfl⟩
  rw [← hKind] at hLocated
  rw [listTransactionEvents_eq,
    Query.exec_bind_of_ok hLocated]
  exact hEvents

/- What was listed is listed again after further calls. -/
theorem World.Inv.list_later
    {w' : World}
    {more : History}
    (hInv : w.Inv ext)
    (hSteps : Relation.ReflTransGen (World.Step ext) w w')
    (hKind : catalog.kind = .sqlite)
    (hMore :
      w'.history ident = w.history ident ++ more)
    (hList :
      (listTransactionEvents ext catalog ident cursor).exec
        w.database = .ok events) :
    ∃ events',
      (listTransactionEvents ext catalog ident cursor).exec
        w'.database = .ok events' ∧
      List.Forall₂ TxnEvent.Alike events'
        (events.map (TxnEvent.after more)) := by
  rcases exec_listTransactionEvents hInv hList with
    ⟨row, earlier, range, later, hSeen⟩
  rcases hInv.list_after hSteps hKind hSeen hList with
    ⟨more', events', hMore', hList', hAlike⟩
  rw [hMore] at hMore'
  rw [← List.append_cancel_left hMore'] at hAlike
  exact ⟨events', hList', hAlike⟩

/-
  A range that can be listed can also be listed in two
  pages, at any later times and in any order: the pages have
  the events of the range one after the other, with nothing
  changed but the stamps that later calls have set and the
  order of the files that an event added or removed.
-/
theorem World.Reachable.pages
    {middle : TxnId}
    (hReach : w.Reachable ext)
    (hSteps₁ : Relation.ReflTransGen (World.Step ext) w w₁)
    (hSteps₂ : Relation.ReflTransGen (World.Step ext) w w₂)
    (hKind : catalog.kind = .sqlite)
    (hList :
      (listTransactionEvents ext catalog ident cursor).exec
        w.database = .ok events)
    (hPage : middle ∈ events.map TxnEvent.transactionId)
    (hInside : middle ≠ cursor.toInclusive) :
    ∃ first second more₁ more₂ events₁ events₂,
      events = first ++ second ∧
      w₁.history ident = w.history ident ++ more₁ ∧
      w₂.history ident = w.history ident ++ more₂ ∧
      (listTransactionEvents ext catalog ident
        ⟨cursor.fromExclusive, middle⟩).exec w₁.database =
          .ok events₁ ∧
      List.Forall₂ TxnEvent.Alike events₁
        (first.map (TxnEvent.after more₁)) ∧
      (listTransactionEvents ext catalog ident
        ⟨some middle, cursor.toInclusive⟩).exec
          w₂.database = .ok events₂ ∧
      List.Forall₂ TxnEvent.Alike events₂
        (second.map (TxnEvent.after more₂)) := by
  have hInv := hReach.inv
  rcases hInv.located hList with
    ⟨row, past, range, later, hRow, rfl, hSplit, hStart,
      hStop, hLength, hIds, hEvents⟩
  rw [hIds] at hPage
  rcases History.exists_split hPage with
    ⟨page, rest, rfl, hMiddle⟩
  -- the second page is not empty, so it has the end
  have hStop' : rest.ids.getLast? =
      some cursor.toInclusive := by
    rw [History.ids_append, List.getLast?_append] at hStop
    cases hLast : rest.ids.getLast? with
    | none =>
        rw [hLast, Option.none_or, hMiddle,
          Option.some.injEq] at hStop
        exact absurd hStop hInside
    | some t =>
        rw [hLast, Option.some_or] at hStop
        exact hStop
  have hStart' : (History.ids (past ++ page)).getLast? =
      some middle := History.last_append hMiddle
  rw [List.length_append] at hLength
  rw [History.ids_append] at hEvents
  rcases exec_readEvents_append hEvents with
    ⟨first, second, hFirst, hSecond, rfl⟩
  have hSplit₁ : w.history row.ident =
      past ++ page ++ (rest ++ later) := by
    rw [hSplit]
    simp
  have hSplit₂ : w.history row.ident =
      past ++ page ++ rest ++ later := by
    rw [hSplit]
    simp
  have hPage₁ :
      (listTransactionEvents ext catalog row.ident
        ⟨cursor.fromExclusive, middle⟩).exec w.database =
          .ok first :=
    hReach.list_of_events hKind hRow hSplit₁ hStart hMiddle
      ((Nat.le_add_right ..).trans hLength) hFirst
  have hPage₂ :
      (listTransactionEvents ext catalog row.ident
        ⟨some middle, cursor.toInclusive⟩).exec w.database =
          .ok second :=
    hReach.list_of_events hKind hRow hSplit₂ hStart' hStop'
      ((Nat.le_add_left ..).trans hLength) hSecond
  rcases hInv.steps_history hSteps₁ row.ident with
    ⟨more₁, hMore₁⟩
  rcases hInv.steps_history hSteps₂ row.ident with
    ⟨more₂, hMore₂⟩
  rcases hInv.list_later hSteps₁ hKind hMore₁ hPage₁ with
    ⟨events₁, hList₁, hAlike₁⟩
  rcases hInv.list_later hSteps₂ hKind hMore₂ hPage₂ with
    ⟨events₂, hList₂, hAlike₂⟩
  exact ⟨first, second, more₁, more₂, events₁, events₂, rfl,
    hMore₁, hMore₂, hList₁, hAlike₁, hList₂, hAlike₂⟩

theorem pages_sample :
    ∃ (events first second events₁ events₂ : List TxnEvent)
      (more₁ more₂ : History),
      events = first ++ second ∧
      (samplePast 3).history sampleIdent =
        (samplePast 2).history sampleIdent ++ more₁ ∧
      (samplePast 3).history sampleIdent =
        (samplePast 2).history sampleIdent ++ more₂ ∧
      (listTransactionEvents sampleExternal sampleCatalog
        sampleIdent ⟨none, 1⟩).exec
          (samplePast 3).database = .ok events₁ ∧
      List.Forall₂ TxnEvent.Alike events₁
        (first.map (TxnEvent.after more₁)) ∧
      (listTransactionEvents sampleExternal sampleCatalog
        sampleIdent ⟨some 1, 2⟩).exec
          (samplePast 3).database = .ok events₂ ∧
      List.Forall₂ TxnEvent.Alike events₂
        (second.map (TxnEvent.after more₂)) := by
  have hOk :
      ((listTransactionEvents sampleExternal sampleCatalog
        sampleIdent ⟨none, 2⟩).exec
          (samplePast 2).database).isOk = true := by
    decide +kernel
  have hIds :
      ((listTransactionEvents sampleExternal sampleCatalog
        sampleIdent ⟨none, 2⟩).exec
          (samplePast 2).database).toOption.all
        (fun events =>
          events.map TxnEvent.transactionId = [1, 2]) =
            true := by
    decide +kernel
  rcases exists_of_isOk hOk with ⟨events, hList⟩
  rw [hList] at hIds
  have hIds := of_decide_eq_true hIds
  have hLater :
      Relation.ReflTransGen (World.Step sampleExternal)
        (samplePast 2) (samplePast 3) :=
    samplePast_steps (by decide)
  have hPage : (1 : TxnId) ∈
      events.map TxnEvent.transactionId := by
    rw [hIds]
    exact List.mem_cons_self
  have hReach : (samplePast 2).Reachable sampleExternal :=
    World.reachable_run ..
  have hInside : (1 : TxnId) ≠ 2 := by decide
  rcases hReach.pages hLater hLater rfl hList hPage hInside
    with ⟨first, second, more₁, more₂, events₁, events₂,
      hPages⟩
  exact ⟨events, first, second, events₁, events₂, more₁,
    more₂, hPages⟩

end Planar
