import Planar.Reading.LaterReads
import Planar.Reading.Scans

/-
  A scan of a range is the scans of its parts: the counters
  of a scan only decide whether it fails.

  Main declarations:
    * `EventCounts.AtMost`, `EventCounts.advance`
    * `exec_readEvent_fewer`, `exec_readEvents_fewer`
    * `exec_readEvents_append`
    * `Holds.within_of_readEvents`
    * `exec_locateRange_length`
-/

------------------------------------------------------------
-- Counters
------------------------------------------------------------

namespace Planar

variable
  {ext : External}
  {kind : DbKind}
  {tableUuid : Uuid}
  {db : Database}
  {t : TxnId}
  {counts counts' fewer : EventCounts}

/- One scan has counted no more than another. -/
structure EventCounts.AtMost
    (fewer counts : EventCounts) : Prop where
  added : fewer.added ≤ counts.added
  removed : fewer.removed ≤ counts.removed
  schemaChanges :
    fewer.schemaChanges ≤ counts.schemaChanges

/- The counters after the rows of one transaction. -/
def EventCounts.advance
    (ext : External)
    (tableUuid : Uuid)
    (db : Database)
    (t : TxnId)
    (counts : EventCounts) : EventCounts :=
  { added := counts.added +
      (selectChanged ext .added tableUuid t db).length
    removed := counts.removed +
      (selectChanged ext .removed tableUuid t db).length
    schemaChanges := counts.schemaChanges +
      (selectSchemas tableUuid t db).length }

theorem EventCounts.atMost_rfl
    (counts : EventCounts) : counts.AtMost counts :=
  ⟨Nat.le_refl _, Nat.le_refl _, Nat.le_refl _⟩

theorem EventCounts.atMost_advance
    (counts : EventCounts) :
    counts.AtMost (counts.advance ext tableUuid db t) :=
  ⟨Nat.le_add_right .., Nat.le_add_right ..,
    Nat.le_add_right ..⟩

theorem EventCounts.AtMost.advance
    (hFewer : fewer.AtMost counts) :
    (fewer.advance ext tableUuid db t).AtMost
      (counts.advance ext tableUuid db t) :=
  ⟨Nat.add_le_add_right hFewer.added _,
    Nat.add_le_add_right hFewer.removed _,
    Nat.add_le_add_right hFewer.schemaChanges _⟩

------------------------------------------------------------
-- Scans that Have Counted Less
------------------------------------------------------------

theorem fileChanges_fewer
    {changeKind : TxnFileChangeKind}
    {count count' less : Nat}
    {rows : List FileRow}
    {changes : List TxnFileChange}
    (hStamps :
      ∀ row ∈ rows, changeKind.stampOf row = .ok t)
    (hLess : less ≤ count)
    (hOk :
      fileChanges ext changeKind count rows =
        .ok (changes, count')) :
    count' = count + rows.length ∧
      (rows ≠ [] → count' ≤ maxFilesPerQuery) ∧
      fileChanges ext changeKind less rows =
        .ok (changes, less + rows.length) := by
  rcases (fileChanges_iff hStamps).mp hOk with
    ⟨files, hFiles, hChanges, hCount, hLimit⟩
  refine ⟨hCount, hLimit, (fileChanges_iff hStamps).mpr
    ⟨files, hFiles, hChanges, rfl, fun hSome => ?_⟩⟩
  have hFew := hLimit hSome
  omega

theorem exec_schemaChange_fewer
    {count count' less : Nat}
    {rows : List SchemaRow}
    {change : Option TxnSchemaChange}
    (hLess : less ≤ count)
    (hOk :
      (schemaChange ext kind count rows).exec db =
        .ok (change, count')) :
    count' = count + rows.length ∧
      (schemaChange ext kind less rows).exec db =
        .ok (change, less + rows.length) ∧
      (rows ≠ [] → count' ≤ maxSchemaChangesPerScan) := by
  rcases rows with _ | ⟨row, _ | ⟨second, rest⟩⟩
  · rcases Prod.mk.inj (Except.ok.inj hOk) with ⟨rfl, rfl⟩
    exact ⟨rfl, rfl, by simp⟩
  · by_cases hLimit : count + 1 > maxSchemaChangesPerScan
    · simp only [schemaChange, hLimit, if_true] at hOk
      cases hOk
    · have hRoom : ¬ less + 1 > maxSchemaChangesPerScan := by
        omega
      simp only [schemaChange, hLimit, hRoom, if_false]
        at hOk ⊢
      rw [Query.exec_bind] at hOk ⊢
      rcases bind_ok.mp hOk with ⟨columns, hColumns, hRest⟩
      rw [Query.exec_bind] at hRest
      rcases bind_ok.mp hRest with ⟨schema, hSchema, hPure⟩
      rcases Prod.mk.inj (Except.ok.inj hPure) with
        ⟨rfl, rfl⟩
      refine ⟨rfl, bind_ok.mpr ⟨columns, hColumns, ?_⟩,
        fun _ => by omega⟩
      rw [Query.exec_bind]
      exact bind_ok.mpr ⟨schema, hSchema, rfl⟩
  · cases hOk

/- What the reading of one event has counted. -/
structure Counted
    (ext : External)
    (tableUuid : Uuid)
    (db : Database)
    (t : TxnId)
    (counts counts' : EventCounts) : Prop where
  counts : counts' = counts.advance ext tableUuid db t
  added : selectChanged ext .added tableUuid t db ≠ [] →
    counts'.added ≤ maxFilesPerQuery
  removed : selectChanged ext .removed tableUuid t db ≠ [] →
    counts'.removed ≤ maxFilesPerQuery
  schemaChanges : selectSchemas tableUuid t db ≠ [] →
    counts'.schemaChanges ≤ maxSchemaChangesPerScan

/-
  An event that is read is also read by a scan that has
  counted less before.
-/
theorem exec_readEvent_fewer
    {event : TxnEvent}
    (hFewer : fewer.AtMost counts)
    (hOk :
      (readEvent ext kind tableUuid counts t).exec db =
        .ok (event, counts')) :
    Counted ext tableUuid db t counts counts' ∧
      (readEvent ext kind tableUuid fewer t).exec db =
        .ok (event, fewer.advance ext tableUuid db t) := by
  unfold readEvent at hOk
  rw [Query.exec_bind_of_ok (Query.exec_fetch ..),
    Query.exec_bind] at hOk
  rcases bind_ok.mp hOk with
    ⟨⟨addedChanges, added⟩, hAdded, hOk⟩
  dsimp only at hOk
  rw [Query.exec_bind_of_ok (Query.exec_fetch ..),
    Query.exec_bind] at hOk
  rcases bind_ok.mp hOk with
    ⟨⟨removedChanges, removed⟩, hRemoved, hOk⟩
  dsimp only at hOk
  rw [Query.exec_bind_of_ok (Query.exec_fetch ..),
    Query.exec_bind] at hOk
  rcases bind_ok.mp hOk with
    ⟨⟨change, schemaChanges⟩, hChange, hPure⟩
  rcases Prod.mk.inj (Except.ok.inj hPure) with ⟨rfl, rfl⟩
  rcases fileChanges_fewer
    (stampOf_selectChanged .added db) hFewer.added hAdded
    with ⟨rfl, hSomeAdded, hAdded'⟩
  rcases fileChanges_fewer
    (stampOf_selectChanged .removed db) hFewer.removed
    hRemoved with ⟨rfl, hSomeRemoved, hRemoved'⟩
  rcases exec_schemaChange_fewer hFewer.schemaChanges
    hChange with ⟨rfl, hChange', hSchemas⟩
  refine ⟨⟨rfl, hSomeAdded, hSomeRemoved, hSchemas⟩, ?_⟩
  unfold readEvent
  rw [Query.exec_bind_of_ok (Query.exec_fetch ..),
    Query.exec_lift_bind_of_ok hAdded']
  dsimp only
  rw [Query.exec_bind_of_ok (Query.exec_fetch ..),
    Query.exec_lift_bind_of_ok hRemoved']
  dsimp only
  rw [Query.exec_bind_of_ok (Query.exec_fetch ..),
    Query.exec_bind_of_ok hChange']
  rfl

/- The reading of the first event and of the others. -/
theorem exec_readEvents_cons
    {rest : List TxnId}
    {events : List TxnEvent} :
    (readEvents ext kind tableUuid counts
        (t :: rest)).exec db = .ok events ↔
      ∃ event counts' others,
        (readEvent ext kind tableUuid counts t).exec db =
            .ok (event, counts') ∧
          (readEvents ext kind tableUuid counts' rest).exec
              db = .ok others ∧
            events = event :: others := by
  rw [readEvents, Query.exec_bind, bind_ok]
  constructor
  · rintro ⟨⟨event, counts'⟩, hEvent, hRest⟩
    rw [Query.exec_bind, bind_ok] at hRest
    rcases hRest with ⟨others, hOthers, hPure⟩
    exact ⟨event, counts', others, hEvent, hOthers,
      (Except.ok.inj hPure).symm⟩
  · rintro ⟨event, counts', others, hEvent, hOthers, rfl⟩
    refine ⟨(event, counts'), hEvent, ?_⟩
    rw [Query.exec_bind]
    exact bind_ok.mpr ⟨others, hOthers, rfl⟩

theorem exec_readEvents_fewer
    {path : List TxnId}
    {events : List TxnEvent}
    (hFewer : fewer.AtMost counts)
    (hOk :
      (readEvents ext kind tableUuid counts path).exec db =
        .ok events) :
    (readEvents ext kind tableUuid fewer path).exec db =
      .ok events := by
  induction path generalizing counts fewer events with
  | nil => exact hOk
  | cons t rest ih =>
      rcases exec_readEvents_cons.mp hOk with
        ⟨event, counts', others, hEvent, hOthers, rfl⟩
      rcases exec_readEvent_fewer hFewer hEvent with
        ⟨hCounted, hEvent'⟩
      rw [hCounted.counts] at hOthers
      exact exec_readEvents_cons.mpr
        ⟨event, _, others, hEvent',
          ih hFewer.advance hOthers, rfl⟩

/- The events of two paths, one after the other. -/
theorem exec_readEvents_append
    {first second : List TxnId}
    {events : List TxnEvent}
    (hOk :
      (readEvents ext kind tableUuid counts
        (first ++ second)).exec db = .ok events) :
    ∃ before after,
      (readEvents ext kind tableUuid counts first).exec db =
          .ok before ∧
        (readEvents ext kind tableUuid counts second).exec
            db = .ok after ∧
          events = before ++ after := by
  induction first generalizing counts events with
  | nil => exact ⟨[], events, rfl, hOk, rfl⟩
  | cons t rest ih =>
      rcases exec_readEvents_cons.mp hOk with
        ⟨event, counts', others, hEvent, hOthers, rfl⟩
      rcases ih hOthers with
        ⟨before, after, hBefore, hAfter, rfl⟩
      have hCounted :=
        (exec_readEvent_fewer counts.atMost_rfl hEvent).1
      rw [hCounted.counts] at hAfter
      exact ⟨event :: before, after,
        exec_readEvents_cons.mpr
          ⟨event, counts', before, hEvent, hBefore, rfl⟩,
        exec_readEvents_fewer counts.atMost_advance hAfter,
        rfl⟩

------------------------------------------------------------
-- What a Scan Has Counted
------------------------------------------------------------

section Counted

variable
  {past later : History}
  {e : Entry}

/- A transaction has brought as many schemas as its entry. -/
theorem Holds.length_selectSchemas
    (hHolds : Holds ext db tableUuid (past ++ e :: later)) :
    (selectSchemas tableUuid e.transactionId db).length =
      e.schemas.length := by
  have hIds := hHolds.ids_nodup hHolds.sound
  have hOne := hHolds.lawful.oneSchema e (by simp)
  unfold selectSchemas
  match hSchemas : e.schemas with
  | [] =>
      rw [hHolds.noSchema_eq hIds hSchemas]
      rfl
  | [s] =>
      rw [hHolds.newSchema_eq hIds hSchemas]
      rfl
  | _ :: _ :: _ =>
      rw [hSchemas] at hOne
      simp at hOne

/- The counters of a scan are those of the history. -/
theorem Counted.plus
    (hCounted :
      Counted ext tableUuid db e.transactionId counts
        counts')
    (hHolds : Holds ext db tableUuid (past ++ e :: later))
    (hWithin : counts.Within) :
    counts' = counts.plus past e ∧ counts'.Within := by
  have hBound {rows limit before after : Nat}
      (hAfter : after = before + rows)
      (hSome : rows ≠ 0 → after ≤ limit)
      (hBefore : before ≤ limit) : after ≤ limit := by
    by_cases hNone : rows = 0
    · omega
    · exact hSome hNone
  have hAfter := hCounted.counts
  have hWithin' : counts'.Within :=
    { added :=
        hBound (congrArg EventCounts.added hAfter)
          (fun h => hCounted.added
            (mt List.length_eq_zero_iff.mpr h))
          hWithin.added
      removed :=
        hBound (congrArg EventCounts.removed hAfter)
          (fun h => hCounted.removed
            (mt List.length_eq_zero_iff.mpr h))
          hWithin.removed
      schemaChanges :=
        hBound (congrArg EventCounts.schemaChanges hAfter)
          (fun h => hCounted.schemaChanges
            (mt List.length_eq_zero_iff.mpr h))
          hWithin.schemaChanges }
  refine ⟨?_, hWithin'⟩
  have hAll {changeKind : TxnFileChangeKind}
      (hFew :
        (selectChanged ext changeKind tableUuid
          e.transactionId db).length ≤ maxFilesPerQuery) :
      (selectChanged ext changeKind tableUuid
          e.transactionId db).length =
        e.changeCount past changeKind := by
    rw [hHolds.length_selectChanged] at hFew ⊢
    omega
  have hAdded := hWithin'.added
  have hRemoved := hWithin'.removed
  rw [hAfter] at hAdded hRemoved
  rw [hAfter, EventCounts.advance, EventCounts.plus,
    hHolds.length_selectSchemas,
    hAll ((Nat.le_add_left ..).trans hAdded),
    hAll ((Nat.le_add_left ..).trans hRemoved)]

/- A scan that succeeds has stayed within its limits. -/
theorem Holds.within_of_readEvents
    {range : History}
    {events : List TxnEvent}
    (hHolds :
      Holds ext db tableUuid (past ++ range ++ later))
    (hWithin : counts.Within)
    (hOk :
      (readEvents ext kind tableUuid counts range.ids).exec
        db = .ok events) :
    (counts.scan past range).Within := by
  induction range generalizing past counts events with
  | nil => exact hWithin
  | cons e rest ih =>
      rcases exec_readEvents_cons.mp hOk with
        ⟨event, counts', others, hEvent, hOthers, rfl⟩
      have hHere : past ++ e :: rest ++ later =
          past ++ e :: (rest ++ later) := by
        simp
      have hNext : past ++ e :: rest ++ later =
          (past ++ [e]) ++ rest ++ later := by
        simp
      rcases (exec_readEvent_fewer counts.atMost_rfl
          hEvent).1.plus (hHere ▸ hHolds) hWithin with
        ⟨rfl, hWithin'⟩
      exact ih (hNext ▸ hHolds) hWithin' hOthers

end Counted

------------------------------------------------------------
-- The Length of a Path
------------------------------------------------------------

/- A path is no longer than the scan may go. -/
theorem exec_collectPath_length
    {fromExclusive : Option TxnId}
    {remaining : Nat}
    {path path' : List TxnId}
    {cursor : TxnId}
    {reached : Bool}
    (hOk :
      (collectPath tableUuid fromExclusive remaining path
        cursor).exec db = .ok (path', reached)) :
    path'.length ≤ path.length + remaining := by
  induction remaining generalizing path cursor with
  | zero =>
      unfold collectPath at hOk
      split at hOk
      · cases hOk
      rw [Query.exec_bind_of_ok (Query.exec_fetch ..)]
        at hOk
      split at hOk <;> cases hOk
  | succ remaining ih =>
      unfold collectPath at hOk
      split at hOk
      · cases hOk
      rw [Query.exec_bind_of_ok (Query.exec_fetch ..)]
        at hOk
      cases hRow : db.findTransaction tableUuid cursor with
      | none =>
          rw [hRow] at hOk
          cases hOk
      | some row =>
          rw [hRow] at hOk
          dsimp only at hOk
          cases hParent : row.parentTransactionId with
          | none =>
              rw [hParent] at hOk
              rcases Prod.mk.inj (Except.ok.inj hOk) with
                ⟨rfl, _⟩
              rw [List.length_cons]
              omega
          | some parent =>
              rw [hParent] at hOk
              dsimp only at hOk
              split at hOk
              · rcases Prod.mk.inj (Except.ok.inj hOk) with
                  ⟨rfl, _⟩
                rw [List.length_cons]
                omega
              · have hRest := ih hOk
                rw [List.length_cons] at hRest
                omega

theorem exec_transactionPath_length
    {cursor : TxnRangeCursor}
    {path : List TxnId}
    (hOk :
      (transactionPath tableUuid cursor).exec db =
        .ok path) :
    path.length ≤ maxTransactionsPerScan := by
  unfold transactionPath at hOk
  rw [Query.exec_bind, bind_ok] at hOk
  rcases hOk with ⟨⟨path', reached⟩, hCollect, hRest⟩
  have hLength := exec_collectPath_length hCollect
  rw [List.length_nil, Nat.zero_add] at hLength
  cases reached with
  | true =>
      rw [← Except.ok.inj hRest]
      exact hLength
  | false => cases hRest

theorem exec_locateRange_length
    {ident : TableIdent}
    {cursor : TxnRangeCursor}
    {path : List TxnId}
    (hOk :
      (locateRange kind ident cursor).exec db =
        .ok (tableUuid, path)) :
    path.length ≤ maxTransactionsPerScan := by
  unfold locateRange at hOk
  rw [Query.exec_bind_of_ok (Query.exec_fetch ..)] at hOk
  split at hOk
  · cases hOk
  rw [Query.exec_bind, bind_ok] at hOk
  rcases hOk with ⟨_, _, hOk⟩
  rw [Query.exec_bind, bind_ok] at hOk
  rcases hOk with ⟨_, _, hOk⟩
  rw [Query.exec_bind, bind_ok] at hOk
  rcases hOk with ⟨_, hPath, hPure⟩
  rcases Prod.mk.inj (Except.ok.inj hPure) with ⟨_, rfl⟩
  exact exec_transactionPath_length hPath

end Planar
