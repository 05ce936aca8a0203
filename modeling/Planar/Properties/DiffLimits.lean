import Planar.Catalog.Diff
import Planar.Properties.KeptSnapshots
import Planar.Properties.LogPages

/-
  Which transactions of a table can be read, and between
  which of them a diff succeeds.

  Main declarations:
    * `World.Supports`
    * `fetchFiles_iff`
    * `World.Reachable.reads_iff`
    * `World.Reachable.diffs_iff`
-/

------------------------------------------------------------
-- Files at a Transaction
------------------------------------------------------------

namespace Planar

variable
  {ext : External}
  {catalog : SqlCatalog}
  {ident : TableIdent}
  {w : World}
  {row : TableRow}
  {past later : History}
  {s t : TxnId}

/- The files of a past are fetched up to the limit. -/
theorem fetchFiles_iff
    {db : Database}
    {tableUuid : Uuid}
    (hHolds : Holds ext db tableUuid (past ++ later))
    (hSerialized : Serialized ext db.jsonTexts)
    (hReads : ReadsBack ext past)
    (hPast : ∀ i ∈ past.ids, i ≤ t)
    (hLater : ∀ i ∈ later.ids, t < i) :
    (∃ files, (fetchFiles ext tableUuid t).exec db =
        .ok files) ↔
      past.files.length ≤ maxFilesPerQuery := by
  have hFetch := exec_fetchFiles hHolds hSerialized hReads
    hPast hLater
  refine ⟨?_, hFetch.1⟩
  rintro ⟨files, hOk⟩
  by_contra hMany
  rw [hFetch.2 (not_le.mp hMany)] at hOk
  cases hOk

------------------------------------------------------------
-- Reads of a Past Transaction
------------------------------------------------------------

/- The client is new enough for the creator of the table. -/
def World.Supports
    (w : World)
    (catalog : SqlCatalog)
    (ident : TableIdent) : Prop :=
  ∃ create, (w.callsOn ident).head? =
      some (.create create) ∧
    create.catalog.readerVersion ≤ catalog.readerVersion

theorem World.Reachable.supports_iff
    (hReach : w.Reachable ext)
    (hRow : row ∈ w.database.tables) :
    w.Supports catalog row.ident ↔
      catalog.ensureReaderProtocolCompatible row.ident
        row.minReaderVersion = .ok () := by
  rw [SqlCatalog.ensureReaderProtocolCompatible_ok]
  rcases (hReach.created row hRow).first with
    ⟨create, hHead, hFixed⟩
  have hVersion : row.minReaderVersion =
      create.catalog.readerVersion :=
    congrArg TableRow.minReaderVersion hFixed
  unfold Supports
  rw [hVersion, hHead]
  constructor
  · rintro ⟨other, hOther, hSupports⟩
    rw [Option.some.injEq, Call.create.injEq] at hOther
    exact hOther ▸ hSupports
  · intro hSupports
    exact ⟨create, rfl, hSupports⟩

/- The stored properties of a table are parsed. -/
theorem World.Reachable.parsesProperties
    (hReach : w.Reachable ext)
    (hRow : row ∈ w.database.tables)
    (hReads : ReadsBack ext (w.history row.ident)) :
    parseTableProperties ext row.properties =
      .ok (w.history row.ident).properties :=
  (hReach.inv.tracked row hRow).parsesProperties hRow
    hReach.serialized hReads

/-
  A transaction can be read exactly when it is one of the
  table, the client supports the table, and no more files
  were live then than a read returns.
-/
theorem World.Reachable.reads_iff
    (hReach : w.Reachable ext)
    (hOrdered : w.Ordered)
    (hReadable : Readable ext (w.history ident))
    (hKind : catalog.kind = .sqlite) :
    (∃ view,
      (readTable ext catalog ident (some t)).exec
        w.database = .ok view) ↔
      w.Supports catalog ident ∧
        ∃ past later,
          w.history ident = past ++ later ∧
          past.ids.getLast? = some t ∧
          past.files.length ≤ maxFilesPerQuery := by
  have hInv := hReach.inv
  constructor
  · rintro ⟨view, hRead⟩
    have hAt : view.transactionId = t := by
      rcases exec_readTable hInv hRead with ⟨_, hSeen⟩
      exact Option.some.inj hSeen.requested
    rcases hInv.readParts hRead with
      ⟨row, hRow, rfl, hMember, hParts⟩
    rw [hAt] at hMember hParts
    rcases History.exists_split hMember with
      ⟨past, later, hSplit, hLast⟩
    rcases hInv.holds_past hRow hSplit hLast .refl .refl
      hOrdered with ⟨later₁, hHolds, hPast, hLater⟩
    rw [hSplit] at hReadable
    exact ⟨(hReach.supports_iff hRow).mpr hParts.reader,
      past, later, hSplit, hLast,
      (fetchFiles_iff hHolds hReach.serialized
        hReadable.past.toReadsBack hPast hLater).mp
          ⟨_, hParts.files⟩⟩
  · rintro ⟨hSupports, past, later, hSplit, hLast, hFew⟩
    have hSome : w.history ident ≠ [] := by
      intro hNone
      rw [hNone] at hSplit
      rw [(List.append_eq_nil_iff.mp hSplit.symm).1]
        at hLast
      cases hLast
    rcases hInv.row_of_history hSome with ⟨row, hRow, rfl⟩
    rcases hInv.holds_past hRow hSplit hLast .refl .refl
      hOrdered with ⟨later₁, hHolds, hPast, hLater⟩
    have hMember : t ∈ (w.history row.ident).ids := by
      rw [hSplit, History.ids_append]
      exact List.mem_append_left _
        (List.mem_of_getLast? hLast)
    rcases hInv.checked hRow hMember with
      ⟨current, hHead, hCheck⟩
    have hProperties :=
      hReach.parsesProperties hRow hReadable.toReadsBack
    rw [hSplit] at hReadable
    have hServes : Serves ext row.tableUuid past
        (fun later => ∀ i ∈ later.ids, t < i) w.database :=
      ⟨⟨later₁, hLater, hHolds⟩, hReach.serialized⟩
    have hFetch :
        Query.Succeeds (· = w.database) (fun _ => True)
          (fetchSchema ext .sqlite row.ident
            row.tableUuid t) :=
      succeeds_fetchSchema (fun x hx => hx ▸ hServes)
        hReadable.past (History.ne_nil_of_last hLast) hPast
    rcases hFetch.exec rfl with ⟨schema, hSchema, _⟩
    rw [← hKind] at hSchema
    rcases (fetchFiles_iff hHolds hReach.serialized
      hReadable.past.toReadsBack hPast hLater).mpr hFew with
      ⟨files, hFiles⟩
    have hParts : ReadParts ext catalog row.ident t
        w.database row
        { ident := row.ident
          tableUuid := row.tableUuid
          transactionId := t
          schema := schema
          files := files
          properties := (w.history row.ident).properties
          stats := none } :=
      ⟨rfl, rfl, rfl, hProperties,
        (hReach.supports_iff hRow).mp hSupports, hSchema,
        hFiles, rfl⟩
    unfold readTable
    rw [Query.exec_bind_of_ok (Query.exec_fetch ..),
      hInv.sound.findTable hRow]
    exact ⟨_, (exec_readRow_iff (some t) hInv.stats hHead
      hCheck).mpr hParts⟩

theorem reads_iff_sample :
    sampleWorld.Supports sampleCatalog sampleIdent ∧
      ∃ past later : History,
        sampleWorld.history sampleIdent = past ++ later ∧
        past.ids.getLast? = some 2 ∧
        past.files.length ≤ maxFilesPerQuery := by
  have hReadable : Readable sampleExternal
      (sampleWorld.history sampleIdent) :=
    ⟨by decide +kernel, by decide +kernel⟩
  have hRead :
      (readTable sampleExternal sampleCatalog sampleIdent
        (some 2)).exec sampleWorld.database =
          .ok sampleView := by
    decide +kernel
  exact ((World.reachable_run sampleExternal
    sampleCalls).reads_iff (by decide +kernel) hReadable
      rfl).mp ⟨sampleView, hRead⟩

------------------------------------------------------------
-- Diffs
------------------------------------------------------------

/- A diff succeeds when its three calls do. -/
theorem exec_diffTable_iff
    {db : Database} :
    (∃ delta,
      (diffTable ext catalog ident s t).exec db =
        .ok delta) ↔
      (∃ events,
        (listTransactionEvents ext catalog ident
          ⟨some s, t⟩).exec db = .ok events) ∧
      (∃ view, (readTable ext catalog ident
        (some s)).exec db = .ok view) ∧
      ∃ view, (readTable ext catalog ident
        (some t)).exec db = .ok view := by
  unfold diffTable
  constructor
  · rintro ⟨delta, hOk⟩
    rw [Query.exec_bind, bind_ok] at hOk
    rcases hOk with ⟨events, hList, hOk⟩
    rw [Query.exec_bind, bind_ok] at hOk
    rcases hOk with ⟨fromView, hFrom, hOk⟩
    rw [Query.exec_bind, bind_ok] at hOk
    rcases hOk with ⟨toView, hTo, _⟩
    exact ⟨⟨events, hList⟩, ⟨fromView, hFrom⟩,
      toView, hTo⟩
  · rintro ⟨⟨events, hList⟩, ⟨fromView, hFrom⟩, toView,
      hTo⟩
    rw [Query.exec_bind_of_ok hList,
      Query.exec_bind_of_ok hFrom,
      Query.exec_bind_of_ok hTo]
    exact ⟨_, rfl⟩

/-
  A diff between two transactions succeeds exactly when the
  client supports the table, the first one comes before the
  second one, the range between them is within a scan, and
  the files of both are within a read.
-/
theorem World.Reachable.diffs_iff
    (hReach : w.Reachable ext)
    (hOrdered : w.Ordered)
    (hReadable : Readable ext (w.history ident))
    (hKind : catalog.kind = .sqlite) :
    (∃ delta,
      (diffTable ext catalog ident s t).exec w.database =
        .ok delta) ↔
      w.Supports catalog ident ∧
        ∃ before range later,
          w.history ident = before ++ range ++ later ∧
          before.ids.getLast? = some s ∧
          range.ids.getLast? = some t ∧
          WithinScan before range ∧
          before.files.length ≤ maxFilesPerQuery ∧
          (History.files (before ++ range)).length ≤
            maxFilesPerQuery := by
  rw [exec_diffTable_iff,
    hReach.lists_iff hReadable hKind,
    hReach.reads_iff hOrdered hReadable hKind,
    hReach.reads_iff hOrdered hReadable hKind]
  constructor
  · rintro ⟨⟨before, range, later, hSplit, hStart, hStop,
      hWithin⟩, ⟨hSupports, past, rest, hFrom, hAt, hFew⟩,
      _, past', rest', hTo, hAt', hFew'⟩
    have hSome : w.history ident ≠ [] := by
      intro hNone
      rw [hNone] at hFrom
      rw [(List.append_eq_nil_iff.mp hFrom.symm).1] at hAt
      cases hAt
    rcases hReach.inv.row_of_history hSome with
      ⟨row, hRow, rfl⟩
    have hHolds := hReach.inv.holds hRow
    have hNodup := hHolds.ids_nodup hHolds.sound
    have hBefore : past = before := by
      have hSame :
          past ++ rest = before ++ (range ++ later) := by
        rw [← hFrom, hSplit, List.append_assoc]
      rw [hFrom] at hNodup
      exact History.split_unique hNodup hSame
        (hAt.trans hStart.symm)
    have hUpTo : past' = before ++ range := by
      have hSame :
          past' ++ rest' = (before ++ range) ++ later := by
        rw [← hTo, hSplit]
      rw [hTo] at hNodup
      exact History.split_unique hNodup hSame
        (hAt'.trans (History.last_append hStop).symm)
    exact ⟨hSupports, before, range, later, hSplit, hStart,
      hStop, hWithin, hBefore ▸ hFew, hUpTo ▸ hFew'⟩
  · rintro ⟨hSupports, before, range, later, hSplit, hStart,
      hStop, hWithin, hFew, hFew'⟩
    refine ⟨⟨before, range, later, hSplit, hStart, hStop,
      hWithin⟩, ⟨hSupports, before, range ++ later, ?_,
      hStart, hFew⟩, hSupports, before ++ range, later,
      hSplit, History.last_append hStop, hFew'⟩
    rw [hSplit, List.append_assoc]

theorem diffs_iff_sample :
    sampleWorld.Supports sampleCatalog sampleIdent ∧
      ∃ before range later : History,
        sampleWorld.history sampleIdent =
          before ++ range ++ later ∧
        before.ids.getLast? = some 1 ∧
        range.ids.getLast? = some 3 ∧
        WithinScan before range ∧
        before.files.length ≤ maxFilesPerQuery ∧
        (History.files (before ++ range)).length ≤
          maxFilesPerQuery := by
  have hReadable : Readable sampleExternal
      (sampleWorld.history sampleIdent) :=
    ⟨by decide +kernel, by decide +kernel⟩
  have hOk :
      ((diffTable sampleExternal sampleCatalog sampleIdent
        1 3).exec sampleWorld.database).isOk = true := by
    decide +kernel
  exact ((World.reachable_run sampleExternal
    sampleCalls).diffs_iff (by decide +kernel) hReadable
      rfl).mp (exists_of_isOk hOk)

end Planar
