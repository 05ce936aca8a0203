import Planar.Properties.Diff

/-
  The properties of a view are those of the head, not of the
  transaction that was asked for.

  Main declarations:
    * `History.propertiesAt`
    * `newPropertiesBetween`
    * `World.Reachable.viewProperties`
-/

------------------------------------------------------------
-- Properties of a Snapshot
------------------------------------------------------------

namespace Planar

variable
  {ext : External}
  {catalog : SqlCatalog}
  {ident : TableIdent}
  {w : World}

/- The properties that a table has after a history. -/
def History.propertiesAt
    (ext : External)
    (h : History) : TableProperties :=
  reread ext (storedProperties ext h)

/- They are the replayed ones when all values read back. -/
theorem ReadsBack.propertiesAt_eq
    {h : History}
    (hReads : ReadsBack ext h)
    (hLast : ext.ReadsJson h.properties.toJson) :
    h.propertiesAt ext = h.properties := by
  rw [History.propertiesAt, hReads.storedProperties_eq,
    reread_of_readsJson hLast]

/- What a diff between two histories should bring. -/
def newPropertiesBetween
    (ext : External)
    (before after : History) : Option TableProperties :=
  if before.propertiesAt ext = after.propertiesAt ext then
    none
  else some (after.propertiesAt ext)

/- Every view has the properties of the whole history. -/
theorem World.Reachable.properties_of_read
    {atTransactionId : Option TxnId}
    {view : TableView}
    (hReach : w.Reachable ext)
    (hRead :
      (readTable ext catalog ident atTransactionId).exec
        w.database = .ok view) :
    view.properties =
      (w.history ident).propertiesAt ext := by
  rcases exec_readTable hReach.inv hRead with ⟨row, hSeen⟩
  have hTracked := hReach.inv.tracked row hSeen.found
  have hParse := hSeen.properties
  rw [hTracked.properties, hSeen.rowIdent] at hParse
  exact reread_of_ok hParse

/- So the two views of a diff never differ in them. -/
theorem World.Reachable.newProperties_of_diff
    {s t : TxnId}
    {delta : TableDelta}
    (hReach : w.Reachable ext)
    (hDiff :
      (diffTable ext catalog ident s t).exec w.database =
        .ok delta) :
    delta.newProperties = none := by
  rcases exec_diffTable hDiff with
    ⟨events, fromView, toView, _, hFrom, hTo, rfl⟩
  have hSame : fromView.properties = toView.properties := by
    rw [hReach.properties_of_read hFrom,
      hReach.properties_of_read hTo]
  simp [projectDeltaRange, hSame]

/-
  A view at a transaction has the properties of that time
  exactly when the later property operations leave them as
  they were, and a diff is right about them exactly when the
  operations of its range do.
-/
theorem World.Reachable.viewProperties
    (hReach : w.Reachable ext) :
    (∀ (view : TableView) (t : TxnId)
        (past later : History),
      (readTable ext catalog ident (some t)).exec
          w.database = .ok view →
      w.history ident = past ++ later →
      past.ids.getLast? = some t →
      (view.properties = past.propertiesAt ext ↔
        History.propertiesAt ext (past ++ later) =
          past.propertiesAt ext)) ∧
    (∀ (delta : TableDelta) (s t : TxnId)
        (before range later : History),
      (diffTable ext catalog ident s t).exec w.database =
        .ok delta →
      w.history ident = before ++ range ++ later →
      before.ids.getLast? = some s →
      range.ids.getLast? = some t →
      (delta.newProperties =
          newPropertiesBetween ext before
            (before ++ range) ↔
        History.propertiesAt ext (before ++ range) =
          before.propertiesAt ext)) := by
  constructor
  · intro view t past later hRead hSplit _
    rw [hReach.properties_of_read hRead, hSplit]
  · intro delta s t before range later hDiff _ _ _
    rw [hReach.newProperties_of_diff hDiff,
      newPropertiesBetween]
    constructor
    · intro hNone
      by_contra hDiffer
      rw [if_neg (Ne.symm hDiffer)] at hNone
      cases hNone
    · intro hSame
      rw [if_pos hSame.symm]

/- The third commit of the sample run sets a property. -/
theorem viewProperties_sample :
    (sampleView.properties =
        History.propertiesAt sampleExternal
          ((sampleWorld.history sampleIdent).take 2) ↔
      History.propertiesAt sampleExternal
          ((sampleWorld.history sampleIdent).take 2 ++
            (sampleWorld.history sampleIdent).drop 2) =
        History.propertiesAt sampleExternal
          ((sampleWorld.history sampleIdent).take 2)) := by
  have hRead :
      (readTable sampleExternal sampleCatalog sampleIdent
        (some 2)).exec sampleWorld.database =
          .ok sampleView := by
    decide +kernel
  exact (World.reachable_run sampleExternal
    sampleCalls).viewProperties.1 sampleView 2 _ _ hRead
      (by decide +kernel) (by decide +kernel)

/-
  The view at the second transaction shows the property that
  only the third one sets, and the diff between the two says
  that no property has changed.
-/
theorem viewProperties_moves :
    sampleWorld.Reachable sampleExternal ∧
    (readTable sampleExternal sampleCatalog sampleIdent
      (some 2)).exec sampleWorld.database =
        .ok sampleView ∧
    sampleView.properties ≠
      History.propertiesAt sampleExternal
        ((sampleWorld.history sampleIdent).take 2) ∧
    ∃ delta,
      (diffTable sampleExternal sampleCatalog sampleIdent
        2 3).exec sampleWorld.database = .ok delta ∧
      delta.newProperties = none ∧
      newPropertiesBetween sampleExternal
        ((sampleWorld.history sampleIdent).take 2)
        (sampleWorld.history sampleIdent) ≠ none := by
  refine ⟨World.reachable_run .., by decide +kernel,
    by decide +kernel, ?_⟩
  have hOk :
      ((diffTable sampleExternal sampleCatalog sampleIdent
        2 3).exec sampleWorld.database).isOk = true := by
    decide +kernel
  rcases exists_of_isOk hOk with ⟨delta, hDiff⟩
  exact ⟨delta, hDiff,
    (World.reachable_run sampleExternal
      sampleCalls).newProperties_of_diff hDiff,
    by decide +kernel⟩

end Planar
