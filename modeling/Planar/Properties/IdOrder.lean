import Planar.Properties.KeptSnapshots
import Planar.Reading.RenamedReads

/-
  What a reader sees of a table under two assignments of
  transaction ids to the same calls.

  Main declarations:
    * `ReadAlike`, `ReadsAlike`
    * `History.CountsAlike`
    * `World.Reachable.readsAlike_of_countsAlike`
    * `World.Reachable.countsAlike_of_readsAlike`
    * `World.Reachable.readsAlike_of_ordered`
    * `World.Reachable.readsAlike_of_strictMono`
    * `readsAlike_iff`
-/

------------------------------------------------------------
-- Reads of Two Runs
------------------------------------------------------------

namespace Planar

/- Both reads fail, or both return the same contents. -/
structure ReadAlike
    (ρ : TxnId → TxnId)
    (result result' : Result TableView) : Prop where
  returns : result'.isOk = result.isOk
  contents : ∀ view view',
    result = .ok view → result' = .ok view' →
      SameContents ρ view view'

/-
  Every transaction of the table, and its head, is read
  alike in two states.
-/
def ReadsAlike
    (ext : External)
    (ρ : TxnId → TxnId)
    (ident : TableIdent)
    (w w' : World) : Prop :=
  ∀ (catalog : SqlCatalog) (atTransactionId : Option TxnId),
    (∀ t ∈ atTransactionId, t ∈ (w.history ident).ids) →
      ReadAlike ρ
        ((readTable ext catalog ident
          atTransactionId).exec w.database)
        ((readTable ext catalog ident
          (atTransactionId.map ρ)).exec w'.database)

/-
  At a transaction either the same files and the same
  version count with the one and with the other ids, or
  neither can be read.
-/
def History.CountsAlike
    (h : History)
    (orders : RowOrders)
    (tableUuid : Uuid)
    (ρ : TxnId → TxnId)
    (t : TxnId) : Prop :=
  h.SameAt orders tableUuid ρ t ∨
    (¬ h.CanReadAt orders tableUuid t ∧
      ¬ (h.rename ρ).CanReadAt orders tableUuid (ρ t))

variable
  {ext : External}
  {catalog : SqlCatalog}
  {row : TableRow}
  {w w' : World}
  {ρ : TxnId → TxnId}
  {t : TxnId}

/- The row of the table, with the other head. -/
theorem World.Reachable.mem_tables_rename
    (hReach : w.Reachable ext)
    (hReach' : w'.Reachable ext)
    (hRow : row ∈ w.database.tables)
    (hCalls :
      w'.callsOn row.ident =
        (w.callsOn row.ident).map (Call.rename ρ)) :
    row.rename ρ ∈ w'.database.tables := by
  have hFound := hReach.inv.sound.findTable hRow
  rw [hReach.findTable] at hFound
  have hFound' :
      w'.database.findTable row.ident =
        some (row.rename ρ) := by
    rw [hReach'.findTable, hCalls, rowOf_rename, hFound]
    rfl
  exact (Database.findTable_some hFound').1

/- The rows that both runs hold of the table. -/
theorem World.Reachable.holds_rename
    (hReach : w.Reachable ext)
    (hReach' : w'.Reachable ext)
    (hRow : row ∈ w.database.tables)
    (hCalls :
      w'.callsOn row.ident =
        (w.callsOn row.ident).map (Call.rename ρ)) :
    Holds ext w'.database row.tableUuid
      ((w.history row.ident).rename ρ) := by
  have hRow' :=
    hReach.mem_tables_rename hReach' hRow hCalls
  have hHolds := hReach'.inv.holds hRow'
  have hIdent : (row.rename ρ).ident = row.ident := rfl
  rw [hIdent, World.history_rename hCalls] at hHolds
  exact hHolds

/- A read in the other run has its parts too. -/
theorem World.Reachable.readTable_rename_iff
    {atTransactionId : Option TxnId}
    {current : TxnId}
    {view : TableView}
    (hReach : w.Reachable ext)
    (hReach' : w'.Reachable ext)
    (hRow : row ∈ w.database.tables)
    (hCalls :
      w'.callsOn row.ident =
        (w.callsOn row.ident).map (Call.rename ρ))
    (hHead : row.currentTransactionId = some current)
    (hMember :
      atTransactionId.getD current ∈
        (w.history row.ident).ids) :
    (readTable ext catalog row.ident
        (atTransactionId.map ρ)).exec w'.database =
          .ok view ↔
      ReadParts ext catalog row.ident
        (ρ (atTransactionId.getD current)) w'.database
        (row.rename ρ) view := by
  have hRow' :=
    hReach.mem_tables_rename hReach' hRow hCalls
  have hHead' : (row.rename ρ).currentTransactionId =
      some (ρ current) := by
    rw [TableRow.rename, hHead]
    rfl
  have hAt :
      (atTransactionId.map ρ).getD (ρ current) =
        ρ (atTransactionId.getD current) := by
    cases atTransactionId <;> rfl
  have hMember' : (atTransactionId.map ρ).getD (ρ current) ∈
      (w'.history (row.rename ρ).ident).ids := by
    have hHistory := World.history_rename hCalls
    change _ ∈ (w'.history row.ident).ids
    rw [hAt, hHistory, History.ids_rename]
    exact List.mem_map_of_mem hMember
  rw [← hAt]
  exact hReach'.inv.readTable_iff hRow' hHead' hMember'

------------------------------------------------------------
-- Reads Depend on the Order of the Ids
------------------------------------------------------------

theorem isOk_eq_of_iff
    {ε α : Type}
    {x x' : Except ε α}
    (hIff : (∃ a, x' = .ok a) ↔ ∃ a, x = .ok a) :
    x'.isOk = x.isOk := by
  cases x with
  | ok a =>
      rcases hIff.mpr ⟨a, rfl⟩ with ⟨a', rfl⟩
      rfl
  | error e =>
      cases x' with
      | ok a' =>
          rcases hIff.mp ⟨a', rfl⟩ with ⟨a, hOk⟩
          cases hOk
      | error e' => rfl

/- What counts alike at every transaction is read alike. -/
theorem World.Reachable.readsAlike_of_countsAlike
    (hReach : w.Reachable ext)
    (hReach' : w'.Reachable ext)
    (hRow : row ∈ w.database.tables)
    (hCalls :
      w'.callsOn row.ident =
        (w.callsOn row.ident).map (Call.rename ρ))
    (hAll : ∀ t ∈ (w.history row.ident).ids,
      (w.history row.ident).CountsAlike ext.orders
        row.tableUuid ρ t) :
    ReadsAlike ext ρ row.ident w w' := by
  intro catalog atTransactionId hAt
  have hHolds := hReach.inv.holds hRow
  have hHolds' :=
    hReach.holds_rename hReach' hRow hCalls
  have hLast := (hReach.inv.tracked row hRow).head
  rcases hHead : row.currentTransactionId with _ | current
  · rw [hHead] at hLast
    exact absurd (List.getLast?_eq_none_iff.mp hLast.symm)
      (hReach.inv.lawful row hRow).ids_nonempty
  have hMember : atTransactionId.getD current ∈
      (w.history row.ident).ids := by
    cases atTransactionId with
    | none =>
        rw [hHead] at hLast
        exact List.mem_of_getLast? hLast.symm
    | some t => exact hAt t rfl
  have hRead (view : TableView) :
      (readTable ext catalog row.ident
          atTransactionId).exec w.database = .ok view ↔ _ :=
    hReach.inv.readTable_iff hRow hHead hMember
  have hRead' (view : TableView) :
      (readTable ext catalog row.ident
          (atTransactionId.map ρ)).exec w'.database =
            .ok view ↔ _ :=
    hReach.readTable_rename_iff hReach' hRow hCalls hHead
      hMember
  generalize atTransactionId.getD current = t at *
  rcases hAll t hMember with hSame | ⟨hCan, hCan'⟩
  · have hParts :=
      @hSame.readParts _ _ _ _ row.ident _ _ catalog _
        hHolds hHolds'
    constructor
    case returns =>
      apply isOk_eq_of_iff
      simp only [hRead, hRead']
      exact hParts.1
    case contents =>
      intro view view' hOk hOk'
      exact hParts.2 view view' ((hRead view).mp hOk)
        ((hRead' view').mp hOk')
  · constructor
    case returns =>
      apply isOk_eq_of_iff
      simp only [hRead, hRead']
      refine iff_of_false ?_ ?_
      · rintro ⟨view, hParts⟩
        exact hCan' (hParts.canReadAt hHolds'.toStored)
      · rintro ⟨view, hParts⟩
        exact hCan (hParts.canReadAt hHolds.toStored)
    case contents =>
      intro view view' hOk
      exact absurd (((hRead view).mp hOk).canReadAt
        hHolds.toStored) hCan

/- A client that supports the table reads what it can. -/
theorem World.Reachable.exists_readParts
    (hReach : w.Reachable ext)
    (hRow : row ∈ w.database.tables)
    (hReads : ReadsBack ext (w.history row.ident))
    (hKind : catalog.kind = .sqlite)
    (hReader :
      row.minReaderVersion ≤ catalog.readerVersion)
    (hCan :
      (w.history row.ident).CanReadAt ext.orders
        row.tableUuid t) :
    ∃ view, ReadParts ext catalog row.ident t w.database row
      view := by
  have hTracked := hReach.inv.tracked row hRow
  exact (hReach.inv.holds hRow).exists_readParts
    hReach.serialized hReads hKind
    (hTracked.parsesProperties hRow hReach.serialized hReads)
    (SqlCatalog.ensureReaderProtocolCompatible_ok.mpr
      hReader)
    hCan

/- What is read alike counts alike at every transaction. -/
theorem World.Reachable.countsAlike_of_readsAlike
    (hReach : w.Reachable ext)
    (hReach' : w'.Reachable ext)
    (hRow : row ∈ w.database.tables)
    (hCalls :
      w'.callsOn row.ident =
        (w.callsOn row.ident).map (Call.rename ρ))
    (hReads : ReadsBack ext (w.history row.ident))
    (hAlike : ReadsAlike ext ρ row.ident w w')
    (hMember : t ∈ (w.history row.ident).ids) :
    (w.history row.ident).CountsAlike ext.orders
      row.tableUuid ρ t := by
  have hHolds := hReach.inv.holds hRow
  have hHolds' :=
    hReach.holds_rename hReach' hRow hCalls
  have hRow' :=
    hReach.mem_tables_rename hReach' hRow hCalls
  rcases hReach.inv.checked hRow hMember with
    ⟨current, hHead, _⟩
  -- a client that supports the table
  let catalog : SqlCatalog :=
    ⟨.sqlite, { reader := row.minReaderVersion }⟩
  have hRead (view : TableView) :
      (readTable ext catalog row.ident (some t)).exec
          w.database = .ok view ↔
        ReadParts ext catalog row.ident t w.database row
          view :=
    hReach.inv.readTable_iff hRow hHead hMember
  have hRead' (view : TableView) :
      (readTable ext catalog row.ident (some (ρ t))).exec
          w'.database = .ok view ↔
        ReadParts ext catalog row.ident (ρ t) w'.database
          (row.rename ρ) view :=
    @World.Reachable.readTable_rename_iff _ _ _ _ _ _
      (some t) _ _ hReach hReach' hRow hCalls hHead hMember
  have hReader :
      row.minReaderVersion ≤ catalog.readerVersion := le_rfl
  have hBoth := hAlike catalog (some t)
    (by simpa using hMember)
  by_cases hCan : (w.history row.ident).CanReadAt ext.orders
      row.tableUuid t
  · rcases hReach.exists_readParts hRow hReads rfl hReader
      hCan with ⟨view, hParts⟩
    have hOk := (hRead view).mpr hParts
    have hReturns := hBoth.returns
    rw [hOk] at hReturns
    rcases exists_of_isOk hReturns with ⟨view', hOk'⟩
    exact .inl (sameAt_of_readParts hHolds hHolds' hParts
      ((hRead' view').mp hOk')
      (hBoth.contents view view' hOk hOk'))
  · refine .inr ⟨hCan, fun hCan' => ?_⟩
    have hReads' := hReads.rename ρ
    rw [← World.history_rename hCalls] at hReads' hCan'
    rcases hReach'.exists_readParts hRow' hReads' rfl
      hReader hCan' with ⟨view', hParts'⟩
    have hOk' := (hRead' view').mpr hParts'
    have hReturns := hBoth.returns
    rw [Option.map_some, hOk'] at hReturns
    rcases exists_of_isOk hReturns.symm with ⟨view, hOk⟩
    exact hCan (((hRead view).mp hOk).canReadAt
      hHolds.toStored)

/- Ids that increase in both runs are read alike. -/
theorem World.Reachable.readsAlike_of_ordered
    (hReach : w.Reachable ext)
    (hReach' : w'.Reachable ext)
    (hRow : row ∈ w.database.tables)
    (hCalls :
      w'.callsOn row.ident =
        (w.callsOn row.ident).map (Call.rename ρ))
    (hOrdered : w.Ordered)
    (hOrdered' : w'.Ordered) :
    ReadsAlike ext ρ row.ident w w' := by
  have hRow' :=
    hReach.mem_tables_rename hReach' hRow hCalls
  have hIds := hOrdered.history
    (hReach.inv.lawful row hRow).linked
  have hIds' := hOrdered'.history
    (hReach'.inv.lawful (row.rename ρ) hRow').linked
  change (w'.history row.ident).ids.Pairwise (· < ·) at hIds'
  rw [World.history_rename hCalls, History.ids_rename]
    at hIds'
  apply hReach.readsAlike_of_countsAlike hReach' hRow hCalls
  intro t hMember
  exact .inl (History.sameAt_of_increasing
    (hReach.inv.holds hRow) hIds hIds' hMember)

/-
  So are ids in the same order, by an index on the start of
  the intervals.
-/
theorem World.Reachable.readsAlike_of_strictMono
    (hReach : w.Reachable ext)
    (hReach' : w'.Reachable ext)
    (hRow : row ∈ w.database.tables)
    (hCalls :
      w'.callsOn row.ident =
        (w.callsOn row.ident).map (Call.rename ρ))
    (hIndex : ext.orders.validSchemas = schemasByStart)
    (hMono :
      StrictMonoOn ρ {t | t ∈ (w.history row.ident).ids}) :
    ReadsAlike ext ρ row.ident w w' := by
  apply hReach.readsAlike_of_countsAlike hReach' hRow hCalls
  intro t hMember
  exact .inl
    (History.sameAt_of_strictMono hIndex hMono hMember)

/-
  Two runs of the same calls under different ids are read
  alike exactly when at every transaction the same files and
  the same version count, or neither run can be read.
-/
theorem readsAlike_iff
    (hReach : w.Reachable ext)
    (hReach' : w'.Reachable ext)
    (hRow : row ∈ w.database.tables)
    (hCalls :
      w'.callsOn row.ident =
        (w.callsOn row.ident).map (Call.rename ρ))
    (hReads : ReadsBack ext (w.history row.ident)) :
    ReadsAlike ext ρ row.ident w w' ↔
      ∀ t ∈ (w.history row.ident).ids,
        (w.history row.ident).CountsAlike ext.orders
          row.tableUuid ρ t := by
  constructor
  · intro hAlike t hMember
    exact hReach.countsAlike_of_readsAlike hReach' hRow
      hCalls hReads hAlike hMember
  · intro hAll
    exact hReach.readsAlike_of_countsAlike hReach' hRow
      hCalls hAll

theorem readsAlike_sample :
    ReadsAlike sampleExternal (fun t => t + 10) sampleIdent
      sampleWorld
      (World.run sampleExternal
        (sampleCalls.map
          (Call.rename fun t => t + 10))) := by
  have hRow : ∃ row ∈ sampleWorld.database.tables,
      row.ident = sampleIdent := by
    decide +kernel
  rcases hRow with ⟨row, hRow, hIdent⟩
  have hReach : sampleWorld.Reachable sampleExternal :=
    World.reachable_run sampleExternal sampleCalls
  have hReads : ReadsBack sampleExternal
      (sampleWorld.history sampleIdent) := by
    decide +kernel
  have hIds :
      (sampleWorld.history sampleIdent).ids = [1, 2, 3] := by
    decide +kernel
  rw [← hIdent] at hReads hIds ⊢
  apply (readsAlike_iff hReach (World.reachable_run ..) hRow
    (by rw [hIdent]; rfl) hReads).mpr
  intro t hMember
  apply Or.inl
  apply History.sameAt_of_increasing
    (hReach.inv.holds hRow) _ _ hMember
  · rw [hIds]
    decide
  · rw [hIds]
    decide

------------------------------------------------------------
-- Runs with Two Given Ids
------------------------------------------------------------

/- The creation of the sample run with a given id. -/
def createWith (s : TxnId) : CreateCall :=
  { catalog := sampleCatalog
    ident := sampleIdent
    location := "l"
    schema := ⟨[⟨"a", .int32, false⟩]⟩
    properties := none
    draws := (sampleDraws 1).rename fun _ => s }

/- A commit of one file, based on the creation. -/
def appendWith (s t : TxnId) : CommitCall :=
  { catalog := sampleCatalog
    ident := sampleIdent
    base := s
    mutation := ⟨[[sampleFile]].map .appendFiles⟩
    draws := (sampleDraws 2).rename fun _ => t }

def callsWith (s t : TxnId) : List Call :=
  [.create (createWith s), .commit (appendWith s t)]

/-
  The same two calls with the ids in the other order: the
  file of the commit is seen at the creation.
-/
theorem reads_notAlike :
    (World.run sampleExternal
        (callsWith 2 1)).callsOn sampleIdent =
      ((World.run sampleExternal
        (callsWith 1 2)).callsOn sampleIdent).map
          (Call.rename fun t => if t = 1 then 2 else 1) ∧
    ¬ ReadsAlike sampleExternal
      (fun t => if t = 1 then 2 else 1) sampleIdent
      (World.run sampleExternal (callsWith 1 2))
      (World.run sampleExternal (callsWith 2 1)) := by
  have hFiles :
      ((readTable sampleExternal sampleCatalog sampleIdent
        (some 1)).exec (World.run sampleExternal
          (callsWith 1 2)).database).map
            (fun view => view.files.length) = .ok 0 := by
    decide +kernel
  have hFiles' :
      ((readTable sampleExternal sampleCatalog sampleIdent
        (some 2)).exec (World.run sampleExternal
          (callsWith 2 1)).database).map
            (fun view => view.files.length) = .ok 1 := by
    decide +kernel
  refine ⟨rfl, ?_⟩
  intro hAlike
  rcases map_ok hFiles with ⟨view, hRead, hNone⟩
  rcases map_ok hFiles' with ⟨view', hRead', hOne⟩
  have hCreation : ∀ t ∈ some (1 : TxnId),
      t ∈ ((World.run sampleExternal
        (callsWith 1 2)).history sampleIdent).ids := by
    intro t hSome
    rw [← Option.some.inj hSome]
    decide +kernel
  have hContents :=
    (hAlike sampleCatalog (some 1) hCreation).contents
      view view' hRead hRead'
  rcases List.exists_mem_of_ne_nil view'.files
      (by intro hNil; rw [hNil] at hOne; cases hOne) with
    ⟨file, hFile⟩
  rw [hContents.files,
    List.length_eq_zero_iff.mp hNone.symm] at hFile
  cases hFile

end Planar
