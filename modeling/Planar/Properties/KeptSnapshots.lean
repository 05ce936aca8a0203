import Planar.History.OwnCalls
import Planar.Properties.Interleaving
import Planar.Reading.LaterSnapshots
import Planar.Reading.RenamedReads

/-
  A snapshot that was read once can be read again at any
  later time, and shows the same schema and files.

  Main declarations:
    * `World.Reachable.reader_kept`
    * `World.Inv.grown`
    * `World.Inv.readTable_iff`, `World.Inv.readParts`
    * `World.Reachable.snapshotKept`
-/

------------------------------------------------------------
-- Reading a Snapshot Again
------------------------------------------------------------

namespace Planar

variable
  {ext : External}
  {catalog : SqlCatalog}
  {ident : TableIdent}
  {atTransactionId : Option TxnId}
  {w w' : World}
  {view : TableView}

/- The required versions of a table stay as they are. -/
theorem World.Reachable.reader_kept
    {row row' : TableRow}
    (hReach : w.Reachable ext)
    (hSteps : Relation.ReflTransGen (World.Step ext) w w')
    (hRow : row ∈ w.database.tables)
    (hRow' : row' ∈ w'.database.tables)
    (hIdent : row'.ident = row.ident) :
    row'.minReaderVersion = row.minReaderVersion := by
  have hReach' : w'.Reachable ext := hReach.trans hSteps
  rcases (hReach.created row hRow).first with
    ⟨create, hHead, hFixed⟩
  rcases (hReach'.created row' hRow').first with
    ⟨create', hHead', hFixed'⟩
  rcases hReach.inv.steps_calls hSteps with ⟨more, hMore⟩
  rw [hIdent, World.callsOn, hMore, List.filter_append,
    List.head?_append] at hHead'
  rw [World.callsOn] at hHead
  rw [hHead, Option.some_or, Option.some.injEq,
    Call.create.injEq] at hHead'
  subst hHead'
  have hSame : row'.fixed = row.fixed :=
    hFixed'.trans hFixed.symm
  exact congrArg (fun r => r.minReaderVersion) hSame

/- What a later database holds of the table. -/
theorem World.Inv.grown
    {row : TableRow}
    {more : History}
    (hInv : w.Inv ext)
    (hSteps : Relation.ReflTransGen (World.Step ext) w w')
    (hRow : row ∈ w.database.tables)
    (hMore : w'.history row.ident =
      w.history row.ident ++ more) :
    Grown ext w.database w'.database row.tableUuid
      (w.history row.ident) more := by
  have hHolds := hInv.holds_later hSteps hRow
  have hNodup := hHolds.ids_nodup hHolds.sound
  rw [hMore] at hHolds hNodup
  exact ⟨(hInv.holds hRow).toStored, hHolds.toStored,
    hNodup⟩

/- A transaction of the history passes the check. -/
theorem World.Inv.checked
    {row : TableRow}
    {t : TxnId}
    (hInv : w.Inv ext)
    (hRow : row ∈ w.database.tables)
    (hMember : t ∈ (w.history row.ident).ids) :
    ∃ current,
      row.currentTransactionId = some current ∧
        (checkInHistory row.tableUuid current t).exec
          w.database = .ok () := by
  have hHead := (hInv.tracked row hRow).head
  cases hLast : (w.history row.ident).ids.getLast? with
  | none =>
      rw [List.getLast?_eq_none_iff] at hLast
      rw [hLast] at hMember
      cases hMember
  | some current =>
      exact ⟨current, hHead.trans hLast,
        (hInv.holds hRow).chained.exec_checkInHistory hLast
          hMember⟩

/- A read of a transaction of the history has its parts. -/
theorem World.Inv.readTable_iff
    {row : TableRow}
    {current : TxnId}
    (hInv : w.Inv ext)
    (hRow : row ∈ w.database.tables)
    (hHead : row.currentTransactionId = some current)
    (hMember :
      atTransactionId.getD current ∈
        (w.history row.ident).ids) :
    (readTable ext catalog row.ident atTransactionId).exec
        w.database = .ok view ↔
      ReadParts ext catalog row.ident
        (atTransactionId.getD current) w.database row
        view := by
  rcases hInv.checked hRow hMember with
    ⟨current', hHead', hCheck⟩
  rw [hHead, Option.some.injEq] at hHead'
  subst hHead'
  unfold readTable
  rw [Query.exec_bind_of_ok (Query.exec_fetch ..),
    hInv.sound.findTable hRow]
  exact exec_readRow_iff atTransactionId hInv.stats hHead
    hCheck

/- The parts of a read that has returned a view. -/
theorem World.Inv.readParts
    (hInv : w.Inv ext)
    (hRead :
      (readTable ext catalog ident atTransactionId).exec
        w.database = .ok view) :
    ∃ row ∈ w.database.tables, row.ident = ident ∧
      view.transactionId ∈ (w.history ident).ids ∧
        ReadParts ext catalog ident view.transactionId
          w.database row view := by
  rcases exec_readTable hInv hRead with ⟨row, hSeen⟩
  have hRow := hSeen.found
  have hMember := hSeen.member
  have hRequested := hSeen.requested
  rcases hSeen with ⟨_, rfl⟩
  rcases hInv.checked hRow hMember with
    ⟨current, hHead, _⟩
  have hAt : view.transactionId =
      atTransactionId.getD current := by
    rw [hHead] at hRequested
    cases atTransactionId <;>
      exact Option.some.inj hRequested
  rw [hAt] at hMember ⊢
  exact ⟨row, hRow, rfl, hMember,
    (hInv.readTable_iff hRow hHead hMember).mp hRead⟩

/-
  A transaction that was read can be read again after any
  further calls, as long as the properties can be parsed.
  The view then differs in nothing but the properties, which
  are always those of the head, the stamps that the new
  calls have set on its files and on its schema, and the
  order of the files.
-/
theorem World.Reachable.snapshotKept
    (hReach : w.Reachable ext)
    (hSteps : Relation.ReflTransGen (World.Step ext) w w')
    (hOrdered : w'.Ordered)
    (hRead :
      (readTable ext catalog ident atTransactionId).exec
        w.database = .ok view) :
    ∃ more row' files,
      w'.history ident = w.history ident ++ more ∧
      w'.database.findTable ident = some row' ∧
      files.Perm (view.files.map (File.after more)) ∧
      (readTable ext catalog ident
          (some view.transactionId)).exec w'.database =
        (parseTableProperties ext row'.properties).map
          fun properties =>
            { view.after more properties with
              files := files } := by
  have hInv := hReach.inv
  have hInv' := hInv.steps hSteps
  rcases hInv.readParts hRead with
    ⟨row, hRow, rfl, hMember, hParts⟩
  rcases hInv.steps_keeps hSteps hRow with
    ⟨row', hRow', hUuid, hIdent⟩
  rcases hInv.steps_history hSteps row.ident with
    ⟨more, hMore⟩
  have hFound' := hInv'.sound.findTable hRow'
  rw [hIdent] at hFound'
  have hPairwise := hOrdered.history
    (hIdent ▸ hInv'.lawful row' hRow').linked
  rw [hMore, History.ids_append,
    List.pairwise_append] at hPairwise
  have hLater : ∀ i ∈ more.ids, view.transactionId < i :=
    hPairwise.2.2 _ hMember
  have hOne :
      ((w.database.schemasOf row.tableUuid).filter
        (SchemaRow.isValidAt view.transactionId)).length ≤
          1 := by
    rcases (hInv.holds hRow).validSchema hPairwise.1 hMember
      with ⟨_, _, _, _, _, _, hValid⟩
    rw [hValid]
    exact Nat.le_refl 1
  have hGrown := hInv.grown hSteps hRow hMore
  rcases hGrown.exec_fetchFiles hLater hParts.files with
    ⟨files, hFiles, hPerm⟩
  refine ⟨more, row', files, hMore, hFound', hPerm, ?_⟩
  have hMember' : view.transactionId ∈
      (w'.history row'.ident).ids := by
    rw [hIdent, hMore, History.ids_append]
    exact List.mem_append_left _ hMember
  rcases hInv'.checked hRow' hMember' with
    ⟨current, hHead, hCheck⟩
  have hReader :=
    hReach.reader_kept hSteps hRow hRow' hIdent
  unfold readTable
  rw [Query.exec_bind_of_ok (Query.exec_fetch ..), hFound']
  dsimp only
  cases hParsed : parseTableProperties ext
      row'.properties with
  | error e =>
      unfold readRow
      rw [hParsed]
      rfl
  | ok properties =>
      exact (exec_readRow_iff (some view.transactionId)
        hInv'.stats hHead hCheck).mpr
          (hGrown.readParts hLater hOne hUuid hReader
            hParsed hFiles hParts)

theorem snapshotKept_sample :
    ∃ (view : TableView) (more : History) (row' : TableRow)
      (files : List File),
      (samplePast 3).history sampleIdent =
          (samplePast 2).history sampleIdent ++ more ∧
        (samplePast 3).database.findTable sampleIdent =
            some row' ∧
          files.Perm (view.files.map (File.after more)) ∧
            (readTable sampleExternal sampleCatalog
                sampleIdent (some view.transactionId)).exec
                  (samplePast 3).database =
              (parseTableProperties sampleExternal
                row'.properties).map fun properties =>
                  { view.after more properties with
                    files := files } := by
  have hOk :
      ((readTable sampleExternal sampleCatalog sampleIdent
        none).exec (samplePast 2).database).isOk = true := by
    decide +kernel
  rcases exists_of_isOk hOk with ⟨view, hRead⟩
  exact ⟨view, (World.reachable_run ..).snapshotKept
    (samplePast_steps (by decide)) (by decide +kernel)
    hRead⟩

end Planar
