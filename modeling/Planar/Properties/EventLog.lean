import Planar.Properties.TimeTravel
import Planar.Reading.Records

/-
  The event log is faithful to the commits.

  Main declarations:
    * `World.Reachable.eventLog`
-/

------------------------------------------------------------
-- The Event Log
------------------------------------------------------------

namespace Planar

/-
  A listing returns one event for each transaction of its
  range, oldest first.  The range begins after the boundary,
  or with the creation when there is none, and each event
  records its entry.  Folding the events from the creation
  on is replaying the history.
-/
theorem World.Reachable.eventLog
    {ext : External}
    {catalog : SqlCatalog}
    {ident : TableIdent}
    {cursor : TxnRangeCursor}
    {w : World}
    {events : List TxnEvent}
    (hReach : w.Reachable ext)
    (hReads : ReadsBack ext (w.history ident))
    (hList :
      (listTransactionEvents ext catalog ident cursor).exec
        w.database = .ok events) :
    (w.history ident).Linked ∧
    ∃ earlier range later,
      w.history ident = earlier ++ range ++ later ∧
      earlier.ids.getLast? = cursor.fromExclusive ∧
      range.ids.getLast? = some cursor.toInclusive ∧
      events.map TxnEvent.transactionId = range.ids ∧
      Recorded earlier range events ∧
      (cursor.fromExclusive = none →
        (foldEvents [] events).Perm
          (range.files.map FileContents.listed)) := by
  have hInv := hReach.inv
  rcases exec_listTransactionEvents hInv hList with
    ⟨row, earlier, range, later, hSeen⟩
  have hHolds := hInv.holds hSeen.found
  have hLinked := hHolds.lawful.linked
  rw [hSeen.rowIdent] at hHolds hLinked
  have hSplit := hSeen.split
  rw [hSplit] at hHolds hReads
  have hRecorded : Recorded earlier range events :=
    recorded_of_seen hSeen.events hHolds hReads
  refine ⟨hLinked, earlier, range, later, hSplit,
    hSeen.start, hSeen.stop, hRecorded.transactionIds,
    hRecorded, ?_⟩
  intro hNone
  have hStart := hSeen.start
  rw [hNone, List.getLast?_eq_none_iff] at hStart
  have hEarlier : earlier = [] :=
    List.map_eq_nil_iff.mp hStart
  subst hEarlier
  have hNodup := hHolds.appended_nodup
  rw [History.appended_append, List.map_append] at hNodup
  exact hRecorded.fold (List.nodup_append.mp hNodup).1
    (List.Perm.refl _)

theorem eventLog_sample :
    ∃ events,
      (listTransactionEvents sampleExternal sampleCatalog
        sampleIdent ⟨some 1, 3⟩).exec sampleWorld.database =
          .ok events ∧
      (sampleWorld.history sampleIdent).Linked ∧
      ∃ earlier range later,
        sampleWorld.history sampleIdent =
          earlier ++ range ++ later ∧
        earlier.ids.getLast? = some 1 ∧
        range.ids.getLast? = some 3 ∧
        events.map TxnEvent.transactionId = range.ids ∧
        Recorded earlier range events ∧
        (some (1 : TxnId) = none →
          (foldEvents [] events).Perm
            (range.files.map FileContents.listed)) := by
  have hOk :
      ((listTransactionEvents sampleExternal sampleCatalog
        sampleIdent ⟨some 1, 3⟩).exec
          sampleWorld.database).isOk = true := by
    decide +kernel
  rcases exists_of_isOk hOk with ⟨events, hList⟩
  exact ⟨events, hList,
    (World.reachable_run sampleExternal
      sampleCalls).eventLog (by decide +kernel) hList⟩

end Planar
