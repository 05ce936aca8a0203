import Planar.History.Invariant
import Planar.Reading.Walk

/-
  A table during a run: its row stays, and its history only
  gets longer.

  Main declarations:
    * `Holds`, `Holds.chained`
    * `World.Inv.holds`, `World.Inv.holds_later`
    * `World.Inv.growsFrom`
    * `World.Ordered.history`
-/

------------------------------------------------------------
-- The Rows of One Table
------------------------------------------------------------

namespace Planar

/- What a sound database holds of a table. -/
structure Holds
    (ext : External)
    (db : Database)
    (tableUuid : Uuid)
    (h : History) : Prop
    extends Stored ext db tableUuid h where
  sound : db.Sound
  lawful : Lawful ext h
  stats : db.tableStats = []

variable
  {ext : External}
  {db : Database}
  {tableUuid : Uuid}
  {h : History}

theorem Stored.ids_nodup
    (hStored : Stored ext db tableUuid h)
    (hSound : db.Sound) :
    h.ids.Nodup := by
  have hIds :
      (db.transactionsOf tableUuid).map
          TransactionRow.transactionId = h.ids := by
    rw [hStored.transactions, List.map_map]
    rfl
  rw [← hIds]
  exact hSound.transactionIds.sublist
    (List.filter_sublist.map _)

theorem Stored.schemaUuids_nodup
    (hStored : Stored ext db tableUuid h)
    (hSound : db.Sound) :
    (h.schemaPoints.map fun p =>
      p.2.schemaUuid).Nodup := by
  rw [← map_schemaUuid_schemaRows tableUuid,
    ← hStored.schemas]
  exact hSound.schemaUuids.sublist
    (List.filter_sublist.map _)

/- The transactions of a table with a history are a chain. -/
theorem Holds.chained
    (hHolds : Holds ext db tableUuid h) :
    Chained db tableUuid h.ids := by
  constructor
  case links =>
    rw [hHolds.transactions, List.map_map]
    exact hHolds.lawful.linked
  case nodup =>
    exact hHolds.ids_nodup hHolds.sound

/- The first schema came with the first transaction. -/
theorem Lawful.ids_nonempty
    (hLawful : Lawful ext h) :
    h.ids ≠ [] := by
  intro hEmpty
  exact hLawful.nonempty (List.map_eq_nil_iff.mp hEmpty)

end Planar

------------------------------------------------------------
-- Tables Along a Run
------------------------------------------------------------

namespace Planar

namespace World

variable
  {ext : External}
  {w w' : World}
  {row : TableRow}

theorem Inv.holds
    (hInv : w.Inv ext)
    (hRow : row ∈ w.database.tables) :
    Holds ext w.database row.tableUuid
      (w.history row.ident) where
  toStored := (hInv.tracked row hRow).toStored
  sound := hInv.sound
  lawful := hInv.lawful row hRow
  stats := hInv.stats

theorem Moves.calls
    (hMoves : Moves ext w w') :
    ∃ more, w'.calls = w.calls ++ more := by
  cases hMoves with
  | stays => exact ⟨[], by simp⟩
  | creates => exact ⟨_, rfl⟩
  | commits => exact ⟨_, rfl⟩

/- No step removes a table. -/
theorem Moves.keeps
    (hInv : w.Inv ext)
    (hMoves : Moves ext w w')
    (hRow : row ∈ w.database.tables) :
    ∃ row' ∈ w'.database.tables,
      row'.tableUuid = row.tableUuid ∧
        row'.ident = row.ident := by
  cases hMoves with
  | stays => exact ⟨row, hRow, rfl, rfl⟩
  | creates hSound hCreates =>
      have hSound' := hSound hInv.sound
      rw [hCreates.effect] at hSound'
      have hFresh :=
        hSound'.fresh _ createStatements_keys.1
      refine ⟨row, ?_, rfl, rfl⟩
      rw [hCreates.effect, tables_createStatements hFresh]
      exact List.mem_append_left _ hRow
  | @commits call db' head properties hSound hCommits =>
      have hTables :
          db'.tables =
            w.database.tables.map
              (advanceTo ext head properties
                (commitEntry call.base call.mutation
                  call.draws)) := by
        rw [hCommits.effect]
        exact tables_commitStatements
      refine ⟨_, hTables ▸ List.mem_map_of_mem hRow,
        by simp, by simp⟩

theorem Inv.steps_calls
    (hInv : w.Inv ext)
    (hSteps : Relation.ReflTransGen (Step ext) w w') :
    ∃ more, w'.calls = w.calls ++ more := by
  induction hSteps with
  | refl => exact ⟨[], by simp⟩
  | tail hBefore hStep ih =>
      rcases ih with ⟨more, hMore⟩
      rcases ((hInv.steps hBefore).moves hStep).calls with
        ⟨last, hLast⟩
      exact ⟨more ++ last, by rw [hLast, hMore,
        List.append_assoc]⟩

theorem Inv.steps_history
    (hInv : w.Inv ext)
    (hSteps : Relation.ReflTransGen (Step ext) w w')
    (ident : TableIdent) :
    ∃ more, w'.history ident =
      w.history ident ++ more := by
  rcases hInv.steps_calls hSteps with ⟨more, hMore⟩
  exact ⟨_, by rw [history, hMore, List.filter_append,
    List.map_append]; rfl⟩

theorem Inv.steps_keeps
    (hInv : w.Inv ext)
    (hSteps : Relation.ReflTransGen (Step ext) w w')
    (hRow : row ∈ w.database.tables) :
    ∃ row' ∈ w'.database.tables,
      row'.tableUuid = row.tableUuid ∧
        row'.ident = row.ident := by
  induction hSteps with
  | refl => exact ⟨row, hRow, rfl, rfl⟩
  | tail hBefore hStep ih =>
      rcases ih with ⟨row₁, hRow₁, hUuid₁, hIdent₁⟩
      have hInv₁ := hInv.steps hBefore
      rcases (hInv₁.moves hStep).keeps hInv₁ hRow₁ with
        ⟨row₂, hRow₂, hUuid₂, hIdent₂⟩
      exact ⟨row₂, hRow₂, hUuid₂.trans hUuid₁,
        hIdent₂.trans hIdent₁⟩

/- What a later database holds of the table. -/
theorem Inv.holds_later
    (hInv : w.Inv ext)
    (hSteps : Relation.ReflTransGen (Step ext) w w')
    (hRow : row ∈ w.database.tables) :
    Holds ext w'.database row.tableUuid
      (w'.history row.ident) := by
  rcases hInv.steps_keeps hSteps hRow with
    ⟨row', hRow', hUuid, hIdent⟩
  have hHolds := (hInv.steps hSteps).holds hRow'
  rw [hUuid, hIdent] at hHolds
  exact hHolds

/- The chain of a table grows from what it is now. -/
theorem Inv.growsFrom
    (hInv : w.Inv ext)
    (hRow : row ∈ w.database.tables) :
    GrowsFrom (Step ext) World.database row.tableUuid
      (w.history row.ident).ids w := by
  intro w' hSteps
  rcases hInv.steps_history hSteps row.ident with
    ⟨more, hMore⟩
  refine ⟨History.ids more, ?_⟩
  rw [← History.ids_append, ← hMore]
  exact (hInv.holds_later hSteps hRow).chained

------------------------------------------------------------
-- Increasing Ids
------------------------------------------------------------

/- What is ordered in the end was ordered before. -/
theorem Ordered.before
    (hInv : w.Inv ext)
    (hSteps : Relation.ReflTransGen (Step ext) w w')
    (hOrdered : w'.Ordered) :
    w.Ordered := by
  rcases hInv.steps_calls hSteps with ⟨more, hMore⟩
  intro call hCall
  apply hOrdered
  rw [hMore]
  exact List.mem_append_left _ hCall

/- With ordered calls the ids of a history increase. -/
theorem Ordered.history
    {ident : TableIdent}
    (hOrdered : w.Ordered)
    (hLinked : (w.history ident).Linked) :
    (w.history ident).ids.Pairwise (· < ·) := by
  rw [← List.isChain_iff_pairwise]
  apply isChain_of_linkedKeys
  rw [← hLinked]
  intro link hLink parent hParent
  rcases List.mem_map.mp hLink with ⟨e, hEntry, rfl⟩
  rcases List.mem_map.mp hEntry with ⟨call, hCall, rfl⟩
  exact Entry.ascends_iff.mp
    (hOrdered call (List.mem_filter.mp hCall).1) parent
    hParent

end World

end Planar
