import Planar.Properties.Diff
import Planar.Properties.Sessions
import Planar.Reading.SeenChanges

/-
  A diff while others commit, and a replica that follows a
  table by diffs.

  Main declarations:
    * `TableDelta.Tells`, `World.Reachable.diffTells`
    * `TableView.sync`, `TableDelta.Tells.sync`
    * `Replica`, `Replica.snapshot`
-/

------------------------------------------------------------
-- Reads of a Past
------------------------------------------------------------

namespace Planar

variable
  {ext : External}
  {catalog : SqlCatalog}
  {ident : TableIdent}
  {w w' : World}
  {view : TableView}
  {delta : TableDelta}

/- The view has the UUID of the last schema of a past. -/
def TableView.HasSchemaOf
    (view : TableView)
    (past : History) : Prop :=
  ∃ last, past.schemaPoints.getLast? = some last ∧
    view.schema.schemaUuid = last.2.schemaUuid

/- A read at a transaction of the history is its snapshot. -/
theorem World.Inv.readAt
    {s : TxnId}
    {w₁ : World}
    {past later : History}
    (hInv : w.Inv ext)
    (hOrdered : w'.Ordered)
    (hReads : ReadsBack ext (w'.history ident))
    (hSplit : w.history ident = past ++ later)
    (hLast : past.ids.getLast? = some s)
    (hRuns :
      Query.Runs (World.Step ext) World.database w
        (readTable ext catalog ident (some s)) w₁
        (.ok view))
    (hAfter : Relation.ReflTransGen (World.Step ext) w₁ w') :
    view.Shows past ∧ view.HasSchemaOf past := by
  rcases runs_readTable (fun _ _ hStep => hStep) hInv hRuns
    with ⟨w₂, w₃, w₄, w₅, row, h₂, h₃, h₄, h₅, h₆, hSeen⟩
  have hInv₂ := hInv.steps h₂
  have hEnd := h₄.trans (h₅.trans (h₆.trans hAfter))
  have hAt : view.transactionId = s :=
    Option.some.inj hSeen.requested
  rcases hInv.steps_history h₂ ident with ⟨more, hMore⟩
  rcases hInv₂.steps_history (h₃.trans hEnd) ident with
    ⟨more', hMore'⟩
  rw [hMore'] at hReads
  rw [hSplit, List.append_assoc] at hMore
  rw [← hAt] at hLast
  refine ⟨hSeen.shows hInv₂ h₃ h₄ h₅ (h₆.trans hAfter)
    hOrdered hReads.past hMore hLast, ?_⟩
  rw [← hSeen.rowIdent] at hMore
  rcases hInv₂.holds_past hSeen.found hMore hLast h₃ hEnd
    hOrdered with ⟨later₁, hHolds, hPast, hLater⟩
  rcases History.lastPoint
    (History.created_past hHolds.lawful.created
      (History.ne_nil_of_last hLast)) with ⟨last, hPoint⟩
  refine ⟨last, hPoint, ?_⟩
  rcases hSeen.schema.eq
    (hHolds.selectSchema_eq hPast hLater hPoint) with
    ⟨columns, _, hSchema⟩
  rw [decodeSchema_ok hSchema]
  rfl

/- The schema changes with the first one of a range. -/
theorem schemaUuid_eq_iff
    {before range later : History}
    {fromView toView : TableView}
    (hNodup :
      ((History.schemaPoints
        (before ++ range ++ later)).map fun p =>
          p.2.schemaUuid).Nodup)
    (hFrom : fromView.HasSchemaOf before)
    (hTo : toView.HasSchemaOf (before ++ range)) :
    fromView.schema.schemaUuid =
        toView.schema.schemaUuid ↔
      range.schemaPoints = [] := by
  rcases hFrom with ⟨last, hLast, hUuid⟩
  rcases hTo with ⟨last', hLast', hUuid'⟩
  rw [History.schemaPoints_append] at hLast'
  constructor
  · intro hSame
    by_contra hSome
    rw [List.getLast?_append_of_ne_nil _ hSome] at hLast'
    rw [History.schemaPoints_append,
      History.schemaPoints_append, List.map_append,
      List.map_append] at hNodup
    have hApart :=
      (List.nodup_append.mp (List.nodup_append.mp hNodup).1)
    refine hApart.2.2 _
      (List.mem_map_of_mem (List.mem_of_getLast? hLast)) _
      (List.mem_map_of_mem (List.mem_of_getLast? hLast')) ?_
    rw [← hUuid, ← hUuid', hSame]
  · intro hNone
    rw [hNone, List.append_nil, hLast] at hLast'
    rw [hUuid, hUuid', Option.some.inj hLast']

------------------------------------------------------------
-- Interleaved Diffs
------------------------------------------------------------

/-
  The delta tells what a range of a history does to what
  comes before it: the files that it leaves and that were
  not there, the files that were there and that it takes
  away, and its last schema when it brings one.
-/
structure TableDelta.Tells
    (delta : TableDelta)
    (before range : History) : Prop where
  fromTransactionId :
    before.ids.getLast? = some delta.fromTransactionId
  toTransactionId :
    range.ids.getLast? = some delta.toTransactionId
  added :
    (delta.addedFiles.map File.listed).Perm
      (((History.files (before ++ range)).filter fun f =>
        f.fileUuid ∉ before.fileUuids).map
          FileContents.listed)
  removed :
    (delta.removedFiles.map File.listed).Perm
      ((before.files.filter fun f =>
        f.fileUuid ∉
          History.fileUuids (before ++ range)).map
            FileContents.listed)
  columns :
    (delta.newSchema.map fun schema =>
        schema.columns.map Column.spec) =
      if range.schemaPoints = [] then none
      else (History.schema (before ++ range)).map
        SchemaContents.specs

/- The net changes of a range are those of its ends. -/
theorem NetOf.perm_listed
    {whole before range later : History}
    {net : NetChanges}
    (hNet :
      NetOf whole.Lists
        {k | k ∈ before.fileUuids}
        {k | k ∈ History.fileUuids (before ++ range)} net)
    (hWhole : whole = before ++ range ++ later)
    (hNodup :
      (whole.appended.map FileContents.fileUuid).Nodup) :
    (net.added.intoValues.map File.listed).Perm
      (((History.files (before ++ range)).filter fun f =>
        f.fileUuid ∉ before.fileUuids).map
          FileContents.listed) ∧
    (net.removed.intoValues.map File.listed).Perm
      ((before.files.filter fun f =>
        f.fileUuid ∉
          History.fileUuids (before ++ range)).map
            FileContents.listed) := by
  have hValues (files : FileMap)
      (hFiles : ∀ p ∈ files.entries,
        p.2.fileUuid = p.1 ∧ whole.Lists p.2) :
      (∀ f ∈ files.intoValues, whole.Lists f) ∧
      files.intoValues.map File.fileUuid = files.keys := by
    constructor
    · intro f hFile
      rcases List.mem_map.mp hFile with ⟨p, hp, rfl⟩
      exact (hFiles p hp).2
    · exact FileMap.ByUuid.uuids_intoValues
        fun p hp => (hFiles p hp).1
  have hPast : (before ++ range).appended.Sublist
      whole.appended := by
    rw [hWhole, History.appended_append _ later]
    exact List.sublist_append_left ..
  have hFirst : before.appended.Sublist
      (before ++ range).appended := by
    rw [History.appended_append]
    exact List.sublist_append_left ..
  constructor
  · rcases hValues _ hNet.addedValues with ⟨hLists, hUuids⟩
    refine Planar.perm_listed hNodup hLists
      ((List.filter_sublist.trans
        (History.files_sublist _)).trans hPast) ?_ ?_
    · rw [hUuids]
      exact net.added.keys_nodup
    · intro k
      rw [hUuids, KeyedLists.mem_keys_filter_notMem]
      exact hNet.addedKeys k
  · rcases hValues _ hNet.removedValues with
      ⟨hLists, hUuids⟩
    refine Planar.perm_listed hNodup hLists
      ((List.filter_sublist.trans
        before.files_sublist).trans
          (hFirst.trans hPast)) ?_ ?_
    · rw [hUuids]
      exact net.removed.keys_nodup
    · intro k
      rw [hUuids, KeyedLists.mem_keys_filter_notMem]
      exact hNet.removedKeys k

/-
  A diff whose queries interleave with commits still tells
  exactly what its range does, each file once.
-/
theorem World.Inv.tellsRange
    {s t : TxnId}
    (hInv : w.Inv ext)
    (hOrdered : w'.Ordered)
    (hReads : ReadsBack ext (w'.history ident))
    (hRuns :
      Query.Runs (World.Step ext) World.database w
        (diffTable ext catalog ident s t) w' (.ok delta)) :
    delta.fromTransactionId = s ∧
    delta.toTransactionId = t ∧
    ∃ before range later,
      w'.history ident = before ++ range ++ later ∧
      delta.Tells before range := by
  rcases Query.runs_bind_ok hRuns with
    ⟨w₁, events, hList, hRest₁⟩
  rcases Query.runs_bind_ok hRest₁ with
    ⟨w₂, fromView, hFrom, hRest₂⟩
  rcases Query.runs_bind_ok hRest₂ with
    ⟨w₃, toView, hTo, hRest₃⟩
  rcases Query.runs_pure_ok hRest₃ with ⟨rfl, hEnd⟩
  have hInv₁ := hInv.steps hList.steps
  have hInv₂ := hInv₁.steps hFrom.steps
  have hAfter₂ := hTo.steps.trans hEnd
  have hAfter₁ := hFrom.steps.trans hAfter₂
  rcases hInv.seenRange hList hAfter₁ with
    ⟨tableUuid, before, range, later, Seen, hSplit, hStart,
      hStop, hHolds, hPast, hEvents⟩
  have hStop' :
      (History.ids (before ++ range)).getLast? = some t :=
    History.last_append hStop
  rcases hInv₁.steps_history hFrom.steps ident with
    ⟨more, hMore⟩
  rcases hInv₂.steps_history hAfter₂ ident with
    ⟨more', hMore'⟩
  have hWhole : w'.history ident =
      before ++ range ++ (later ++ (more ++ more')) := by
    rw [hMore', hMore, hSplit]
    simp only [List.append_assoc]
  -- both reads come after the listing
  have hSplit₁ := hSplit
  rw [List.append_assoc] at hSplit₁
  have hSplit₂ : w₂.history ident =
      before ++ range ++ (later ++ more) := by
    rw [hMore, hSplit, List.append_assoc]
  rcases hInv₁.readAt hOrdered hReads hSplit₁ hStart hFrom
    hAfter₂ with ⟨_, hPoint⟩
  rcases hInv₂.readAt hOrdered hReads hSplit₂ hStop' hTo
    hEnd with ⟨hShows, hPoint'⟩
  have hNodup := hHolds.schemaUuids_nodup hHolds.sound
  rw [hWhole] at hNodup
  have hSchema := schemaUuid_eq_iff hNodup hPoint hPoint'
  have hNet := netOf_seen hEvents hPast hReads hWhole
    hHolds.appended_nodup
  rcases hNet.perm_listed hWhole hHolds.appended_nodup with
    ⟨hAdded, hRemoved⟩
  refine ⟨rfl, rfl, before, range, _, hWhole, hStart, hStop,
    hAdded, hRemoved, ?_⟩
  by_cases hNone : range.schemaPoints = []
  · simp [projectDeltaRange, hNone, hSchema.mpr hNone]
  · rw [if_neg hNone, ← hShows.columns]
    simp [projectDeltaRange, mt hSchema.mp hNone]

/-
  A diff tells exactly what the range between its two
  transactions does to the table, each file once, however
  its queries interleave with commits.
-/
theorem World.Reachable.diffTells
    {s t : TxnId}
    (hReach : w.Reachable ext)
    (hOrdered : w'.Ordered)
    (hReads : ReadsBack ext (w'.history ident))
    (hRuns :
      Query.Runs (World.Step ext) World.database w
        (diffTable ext catalog ident s t) w' (.ok delta)) :
    ∃ before range later,
      w'.history ident = before ++ range ++ later ∧
      before.ids.getLast? = some s ∧
      range.ids.getLast? = some t ∧
      delta.Tells before range := by
  rcases hReach.inv.tellsRange hOrdered hReads hRuns with
    ⟨rfl, rfl, before, range, later, hWhole, hTells⟩
  exact ⟨before, range, later, hWhole,
    hTells.fromTransactionId, hTells.toTransactionId,
    hTells⟩

/- A diff of two transactions while the third one commits. -/
theorem diffTells_sample :
    ∃ delta before range later,
      sampleWorld.history sampleIdent =
        before ++ range ++ later ∧
      before.ids.getLast? = some 1 ∧
      range.ids.getLast? = some 2 ∧
      TableDelta.Tells delta before range := by
  have hOk :
      ((diffTable sampleExternal sampleCatalog sampleIdent
        1 2).execMoved (samplePast 2).database
          sampleWorld.database).isOk = true := by
    decide +kernel
  rcases exists_of_isOk hOk with ⟨delta, hDelta⟩
  have hRuns : Query.Runs (World.Step sampleExternal)
      World.database (samplePast 2)
        (diffTable sampleExternal sampleCatalog sampleIdent
          1 2) sampleWorld (.ok delta) := by
    rw [← hDelta]
    exact Query.runs_execMoved
      (samplePast_steps (n := 2) (by decide)) _
  exact ⟨delta, (World.reachable_run sampleExternal
    (sampleCalls.take 2)).diffTells (by decide +kernel)
      (by decide +kernel) hRuns⟩

------------------------------------------------------------
-- Replicas
------------------------------------------------------------

/- The view brought forward by a delta, by file UUIDs. -/
def TableView.sync
    (view : TableView)
    (delta : TableDelta) : TableView :=
  { view with
    transactionId := delta.toTransactionId
    files :=
      (view.files.filter fun f =>
        f.fileUuid ∉ delta.removedFiles.map File.fileUuid) ++
          delta.addedFiles
    schema := delta.newSchema.getD view.schema
    properties := delta.newProperties.getD view.properties }

/- The UUIDs that a delta takes away. -/
theorem TableDelta.Tells.mem_removed
    {before range : History}
    (hTells : delta.Tells before range)
    (k : Uuid) :
    k ∈ delta.removedFiles.map File.fileUuid ↔
      k ∈ before.files.map FileContents.fileUuid ∧
        k ∉ (History.files (before ++ range)).map
          FileContents.fileUuid := by
  have hPerm := hTells.removed.map ListedFile.fileUuid
  rw [List.map_map, List.map_map] at hPerm
  exact hPerm.mem_iff.trans
    (KeyedLists.mem_keys_filter_notMem _ k)

/- A snapshot brought forward by a delta is a snapshot. -/
theorem TableDelta.Tells.sync
    {before range later : History}
    (hTells : delta.Tells before range)
    (hShows : view.Shows before)
    (hNodup :
      ((History.appended
        (before ++ range ++ later)).map
          FileContents.fileUuid).Nodup) :
    (view.sync delta).Shows (before ++ range) := by
  constructor
  case columns =>
    have hColumns := hTells.columns
    unfold TableView.sync
    dsimp only
    by_cases hNone : range.schemaPoints = []
    · rw [if_pos hNone, Option.map_eq_none_iff] at hColumns
      rw [hColumns, Option.getD_none, hShows.columns,
        History.schema, History.schema,
        History.schemaPoints_append, hNone,
        List.append_nil]
    · rw [if_neg hNone, History.schema,
        History.schemaPoints_append,
        List.getLast?_append_of_ne_nil _ hNone] at hColumns
      rw [History.schema, History.schemaPoints_append,
        List.getLast?_append_of_ne_nil _ hNone, ← hColumns]
      rcases hLast : range.schemaPoints.getLast? with _ | p
      · exact absurd (List.getLast?_eq_none_iff.mp hLast)
          hNone
      · rw [hLast] at hColumns
        cases hNew : delta.newSchema with
        | none => rw [hNew] at hColumns; cases hColumns
        | some schema => rfl
  case files =>
    have hFirst : before.files.Sublist
        (History.appended (before ++ range ++ later)) := by
      refine before.files_sublist.trans ?_
      rw [List.append_assoc, History.appended_append]
      exact List.sublist_append_left ..
    have hSecond : (History.files (before ++ range)).Sublist
        (History.appended (before ++ range ++ later)) := by
      refine (History.files_sublist _).trans ?_
      rw [History.appended_append _ later]
      exact List.sublist_append_left ..
    have hKept :
        ((view.files.filter fun f => f.fileUuid ∉
            delta.removedFiles.map File.fileUuid).map
              File.listed).Perm
          ((before.files.filter fun f => f.fileUuid ∉
            delta.removedFiles.map File.fileUuid).map
              FileContents.listed) := by
      have hPerm := hShows.files.filter fun f =>
        f.fileUuid ∉ delta.removedFiles.map File.fileUuid
      rw [List.filter_map, List.filter_map] at hPerm
      exact hPerm
    have hExchange := KeyedLists.perm_exchange hNodup hFirst
      hSecond hTells.mem_removed
    unfold TableView.sync
    dsimp only
    rw [List.map_append]
    refine (hKept.append hTells.added).trans ?_
    rw [← List.map_append]
    exact hExchange.map _

/-
  The states of a world and of a replica of a table.  It
  starts with a read of the head, and from then on asks for
  diffs from its transaction to any other one, while others
  write.  A diff that fails leaves it as it is.
-/
inductive Replica
    (ext : External)
    (catalog : SqlCatalog)
    (ident : TableIdent) : World → TableView → Prop
  | start {w w' : World} {view : TableView}
      (hReach : w.Reachable ext)
      (hRuns :
        Query.Runs (World.Step ext) World.database w
          (readTable ext catalog ident none) w'
          (.ok view)) :
      Replica ext catalog ident w' view
  | write {w w' : World} {view : TableView}
      (hReplica : Replica ext catalog ident w view)
      (hStep : w.Step ext w') :
      Replica ext catalog ident w' view
  | sync {w w' : World} {view : TableView} {t : TxnId}
      {delta : TableDelta}
      (hReplica : Replica ext catalog ident w view)
      (hRuns :
        Query.Runs (World.Step ext) World.database w
          (diffTable ext catalog ident view.transactionId t)
          w' (.ok delta)) :
      Replica ext catalog ident w' (view.sync delta)

theorem Replica.reachable
    (hReplica : Replica ext catalog ident w view) :
    w.Reachable ext := by
  induction hReplica with
  | start hReach hRuns => exact hReach.trans hRuns.steps
  | write _ hStep ih => exact .tail ih hStep
  | sync _ hRuns ih => exact ih.trans hRuns.steps

/- The view is the snapshot of its transaction. -/
def TableView.SnapshotIn
    (view : TableView)
    (h : History) : Prop :=
  ∃ past later : History,
    h = past ++ later ∧
    past.ids.getLast? = some view.transactionId ∧
    view.Shows past

/-
  Whatever the replica and the others do, the replica is the
  snapshot of its transaction, as a read of it would be.
-/
theorem Replica.snapshot
    (hReplica : Replica ext catalog ident w view)
    (hOrdered : w.Ordered)
    (hReads : ReadsBack ext (w.history ident)) :
    view.SnapshotIn (w.history ident) := by
  induction hReplica with
  | @start w w' view hReach hRuns =>
      have hInv := World.Reachable.inv hReach
      rcases hInv.readMoment hOrdered hReads hRuns with
        ⟨w₀, hBefore, hAfter, hShows⟩
      rcases (hInv.steps hBefore).steps_history hAfter ident
        with ⟨more, hMore⟩
      exact ⟨_, more, hMore, hShows.head, hShows.shows⟩
  | @write w w' view hReplica hStep ih =>
      have hInv := hReplica.reachable.inv
      have hSteps := Relation.ReflTransGen.single hStep
      rcases hInv.steps_history hSteps ident with
        ⟨more, hMore⟩
      rw [hMore] at hReads
      rcases ih (hOrdered.before hInv hSteps) hReads.past
        with ⟨past, later, hSplit, hLast, hShows⟩
      refine ⟨past, later ++ more, ?_, hLast, hShows⟩
      rw [hMore, hSplit, List.append_assoc]
  | @sync w w' view t delta hReplica hRuns ih =>
      have hInv := hReplica.reachable.inv
      rcases hInv.tellsRange hOrdered hReads hRuns with
        ⟨hFrom, hTo, before, range, rest, hWhole, hTells⟩
      rcases hInv.steps_history hRuns.steps ident with
        ⟨more, hMore⟩
      have hReads' := hReads
      rw [hMore] at hReads'
      rcases ih (hOrdered.before hInv hRuns.steps)
          hReads'.past with
        ⟨past, later, hSplit, hLast, hShows⟩
      have hInv' := hInv.steps hRuns.steps
      have hSome : w'.history ident ≠ [] := by
        rw [hWhole]
        intro hNil
        exact History.ne_nil_of_last hTells.fromTransactionId
          (List.append_eq_nil_iff.mp
            (List.append_eq_nil_iff.mp hNil).1).1
      rcases hInv'.row_of_history hSome with
        ⟨row, hRow, rfl⟩
      have hHolds := hInv'.holds hRow
      have hNodup := hHolds.ids_nodup hHolds.sound
      -- both lead up to the transaction of the view
      have hSame : past = before := by
        rw [hMore, hSplit, List.append_assoc] at hNodup
        have hWholes : past ++ (later ++ more) =
            before ++ (range ++ rest) := by
          rw [← List.append_assoc, ← hSplit, ← hMore,
            hWhole, List.append_assoc]
        refine History.split_unique hNodup hWholes ?_
        rw [hLast, hTells.fromTransactionId, hFrom]
      subst hSame
      refine ⟨_, rest, hWhole,
        History.last_append hTells.toTransactionId, ?_⟩
      exact hTells.sync hShows
        (hWhole ▸ hHolds.appended_nodup)

/- A replica that misses two commits, then catches up. -/
theorem snapshot_sample :
    ∃ (view : TableView) (delta : TableDelta),
      view.transactionId = 1 ∧
      delta.toTransactionId = 3 ∧
      (view.sync delta).SnapshotIn
        (sampleWorld.history sampleIdent) := by
  have hRead :
      ((readTable sampleExternal sampleCatalog sampleIdent
        none).exec (samplePast 1).database).isOk =
          true := by
    decide +kernel
  have hHead :
      ((readTable sampleExternal sampleCatalog sampleIdent
        none).exec (samplePast 1).database).map
          TableView.transactionId = .ok 1 := by
    decide +kernel
  have hDiff :
      ((diffTable sampleExternal sampleCatalog sampleIdent
        1 3).exec sampleWorld.database).isOk = true := by
    decide +kernel
  rcases exists_of_isOk hRead with ⟨view, hView⟩
  rcases exists_of_isOk hDiff with ⟨delta, hDelta⟩
  rw [hView] at hHead
  have hAt : view.transactionId = 1 := Except.ok.inj hHead
  rw [← hAt] at hDelta
  have hStart : Replica sampleExternal sampleCatalog
      sampleIdent (samplePast 1) view :=
    .start (World.reachable_run ..)
      (hView ▸ Query.runs_exec (samplePast 1) _)
  have hSteps : Relation.ReflTransGen
      (World.Step sampleExternal) (samplePast 1)
        sampleWorld :=
    (samplePast_steps (n := 1) (by decide)).trans
      (samplePast_steps (n := 2) (by decide))
  have hRuns : Query.Runs (World.Step sampleExternal)
      World.database (samplePast 1)
        (diffTable sampleExternal sampleCatalog sampleIdent
          view.transactionId 3) sampleWorld (.ok delta) :=
    (hDelta ▸ Query.runs_exec sampleWorld _).after_wait
      hSteps
  have hTo := ((World.reachable_run sampleExternal
    (sampleCalls.take 1)).inv.tellsRange (by decide +kernel)
      (by decide +kernel) hRuns).2.1
  exact ⟨view, delta, hAt, hTo,
    Replica.snapshot (hStart.sync hRuns)
      (by decide +kernel) (by decide +kernel)⟩

end Planar
