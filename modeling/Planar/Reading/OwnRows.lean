import Planar.Catalog.Diff
import Planar.Catalog.Tables
import Planar.History.OwnCalls
import Planar.Reading.Decoding
import Planar.Reading.Walk

/-
  The reads of a table depend only on the rows that belong
  to it, and these only on the calls on the table.

  Main declarations:
    * `SameRows`, `SameTable`
    * `SameReads`, `SameTable.reads`
    * `World.Reachable.sameTable`
-/

------------------------------------------------------------
-- Databases That Agree on a Table
------------------------------------------------------------

namespace Planar

/- Two databases have the same rows of one table. -/
structure SameRows
    (db db' : Database)
    (tableUuid : Uuid) : Prop where
  transactions :
    db'.transactionsOf tableUuid =
      db.transactionsOf tableUuid
  schemas :
    db'.schemasOf tableUuid = db.schemasOf tableUuid
  columns : ∀ s ∈ db.schemasOf tableUuid,
    db'.columnsOf s.schemaUuid = db.columnsOf s.schemaUuid
  files : db'.filesOf tableUuid = db.filesOf tableUuid
  stats : db'.tableStats = db.tableStats

/- The row of the table itself is also the same. -/
structure SameTable
    (db db' : Database)
    (ident : TableIdent) : Prop where
  row : db'.findTable ident = db.findTable ident
  rows : ∀ row, db.findTable ident = some row →
    SameRows db db' row.tableUuid

/- All reads of a table return the same. -/
structure SameReads
    (ext : External)
    (db db' : Database)
    (ident : TableIdent) : Prop where
  current :
    (currentTransactionId ident).exec db' =
      (currentTransactionId ident).exec db
  read : ∀ catalog t,
    (readTable ext catalog ident t).exec db' =
      (readTable ext catalog ident t).exec db
  list : ∀ catalog cursor,
    (listTransactionEvents ext catalog ident cursor).exec
        db' =
      (listTransactionEvents ext catalog ident cursor).exec
        db
  diff : ∀ catalog s t,
    (diffTable ext catalog ident s t).exec db' =
      (diffTable ext catalog ident s t).exec db

------------------------------------------------------------
-- Reads of the Same Rows
------------------------------------------------------------

namespace SameRows

variable
  {ext : External}
  {kind : DbKind}
  {db db' : Database}
  {ident : TableIdent}
  {tableUuid : Uuid}

theorem findTransaction
    (hSame : SameRows db db' tableUuid)
    (t : TxnId) :
    db'.findTransaction tableUuid t =
      db.findTransaction tableUuid t := by
  rw [Database.findTransaction_find?,
    Database.findTransaction_find?, hSame.transactions]

theorem exec_walkHistory
    (hSame : SameRows db db' tableUuid)
    (target : TxnId)
    (fuel : Nat)
    (visited : List TxnId)
    (cursor : TxnId) :
    (walkHistory tableUuid target fuel visited cursor).exec
        db' =
      (walkHistory tableUuid target fuel visited
        cursor).exec db := by
  induction fuel generalizing visited cursor with
  | zero => rfl
  | succ fuel ih =>
      simp only [walkHistory]
      split
      · rfl
      split
      · rfl
      apply Query.exec_bind_congr
      · simp [hSame.findTransaction]
      · rintro (_ | row) _
        · rfl
        · cases hParent : row.parentTransactionId with
          | none => simp [hParent]
          | some parent =>
              simp only [hParent]
              exact ih _ _

theorem exec_checkInHistory
    (hSame : SameRows db db' tableUuid)
    (current target : TxnId) :
    (checkInHistory tableUuid current target).exec db' =
      (checkInHistory tableUuid current target).exec
        db := by
  unfold checkInHistory
  split
  · rfl
  apply Query.exec_bind_congr
  · exact hSame.exec_walkHistory ..
  · rintro (_ | _) _ <;> rfl

theorem exec_fetchColumns
    {row : SchemaRow}
    (hSame : SameRows db db' tableUuid)
    (hRow : row ∈ db.schemasOf tableUuid)
    (what : String) :
    (fetchColumns ext what row.schemaUuid).exec db' =
      (fetchColumns ext what row.schemaUuid).exec db := by
  exact exec_fetchColumns_congr (hSame.columns row hRow)
    what

theorem exec_fetchSchema
    (hSame : SameRows db db' tableUuid)
    (t : TxnId) :
    (fetchSchema ext kind ident tableUuid t).exec db' =
      (fetchSchema ext kind ident tableUuid t).exec db := by
  apply Query.exec_bind_congr
  · simp [selectSchema, hSame.schemas]
  · rintro (_ | row) hFound
    · rfl
    · have hRow : row ∈ db.schemasOf tableUuid := by
        rw [Query.exec_fetch, Except.ok.injEq] at hFound
        exact (mem_selectSchema hFound).1
      apply Query.exec_bind_congr
      · exact hSame.exec_fetchColumns hRow _
      · intro columns _
        rfl

theorem exec_fetchFiles
    (hSame : SameRows db db' tableUuid)
    (t : TxnId) :
    (fetchFiles ext tableUuid t).exec db' =
      (fetchFiles ext tableUuid t).exec db := by
  apply Query.exec_bind_congr
  · simp [selectVisible, hSame.files]
  · intro rows _
    split <;> rfl

theorem exec_readRow
    {row : TableRow}
    (hSame : SameRows db db' row.tableUuid)
    (catalog : SqlCatalog)
    (t : Option TxnId) :
    (readRow ext catalog ident t row).exec db' =
      (readRow ext catalog ident t row).exec db := by
  apply Query.exec_lift_bind_congr
  intro properties _
  apply Query.exec_lift_bind_congr
  intro _ _
  apply Query.exec_lift_bind_congr
  intro current _
  apply Query.exec_bind_congr (hSame.exec_checkInHistory ..)
  intro _ _
  apply Query.exec_bind_congr (hSame.exec_fetchSchema _)
  intro schema _
  apply Query.exec_bind_congr (hSame.exec_fetchFiles _)
  intro files _
  apply Query.exec_bind_congr
  · apply Query.exec_bind_congr
    · simp [hSame.stats]
    · intro stats _
      rfl
  · intro stats _
    rfl

theorem exec_collectPath
    (hSame : SameRows db db' tableUuid)
    (fromExclusive : Option TxnId)
    (remaining : Nat)
    (path : List TxnId)
    (cursor : TxnId) :
    (collectPath tableUuid fromExclusive remaining path
        cursor).exec db' =
      (collectPath tableUuid fromExclusive remaining path
        cursor).exec db := by
  induction remaining generalizing path cursor with
  | zero =>
      unfold collectPath
      split
      · rfl
      apply Query.exec_bind_congr
      · simp [hSame.findTransaction]
      · rintro (_ | row) _ <;> rfl
  | succ remaining ih =>
      unfold collectPath
      split
      · rfl
      apply Query.exec_bind_congr
      · simp [hSame.findTransaction]
      · rintro (_ | row) _
        · rfl
        · cases hParent : row.parentTransactionId with
          | none => simp [hParent]
          | some parent =>
              simp only [hParent]
              split
              · rfl
              · exact ih _ _

theorem exec_checkEndExists
    (hSame : SameRows db db' tableUuid)
    (current toInclusive : TxnId) :
    (checkEndExists kind tableUuid current
        toInclusive).exec db' =
      (checkEndExists kind tableUuid current
        toInclusive).exec db := by
  unfold checkEndExists
  split
  · rfl
  apply Query.exec_bind_congr
  · simp [hSame.findTransaction]
  · intro found _
    apply Query.exec_lift_bind_congr
    rintro (_ | _) _ <;> rfl

theorem exec_transactionPath
    (hSame : SameRows db db' tableUuid)
    (cursor : TxnRangeCursor) :
    (transactionPath tableUuid cursor).exec db' =
      (transactionPath tableUuid cursor).exec db := by
  apply Query.exec_bind_congr (hSame.exec_collectPath ..)
  rintro ⟨path, _ | _⟩ _ <;> rfl

theorem exec_schemaChange
    {rows : List SchemaRow}
    (hSame : SameRows db db' tableUuid)
    (hRows : ∀ row ∈ rows, row ∈ db.schemasOf tableUuid)
    (count : Nat) :
    (schemaChange ext kind count rows).exec db' =
      (schemaChange ext kind count rows).exec db := by
  match rows with
  | [] => rfl
  | [row] =>
      by_cases hLimit : count + 1 > maxSchemaChangesPerScan
      · simp [schemaChange, hLimit]
      · simp only [schemaChange, hLimit, if_false]
        apply Query.exec_bind_congr
        · exact hSame.exec_fetchColumns
            (hRows row List.mem_cons_self) _
        · intro columns _
          exact Query.exec_lift_bind_congr fun _ _ => rfl
  | _ :: _ :: _ => rfl

theorem exec_readEvent
    (hSame : SameRows db db' tableUuid)
    (counts : EventCounts)
    (t : TxnId) :
    (readEvent ext kind tableUuid counts t).exec db' =
      (readEvent ext kind tableUuid counts t).exec db := by
  apply Query.exec_bind_congr
  · simp [selectChanged, hSame.files]
  intro addedRows _
  apply Query.exec_lift_bind_congr
  rintro ⟨added, addedCount⟩ _
  apply Query.exec_bind_congr
  · simp [selectChanged, hSame.files]
  intro removedRows _
  apply Query.exec_lift_bind_congr
  rintro ⟨removed, removedCount⟩ _
  apply Query.exec_bind_congr
  · simp [selectSchemas, hSame.schemas]
  intro schemaRows hFetched
  apply Query.exec_bind_congr
  · apply hSame.exec_schemaChange
    intro row hRow
    rw [Query.exec_fetch, Except.ok.injEq] at hFetched
    subst hFetched
    exact List.mem_of_mem_filter (List.mem_of_mem_take hRow)
  · rintro ⟨change, schemaCount⟩ _
    rfl

theorem exec_readEvents
    (hSame : SameRows db db' tableUuid)
    (counts : EventCounts)
    (path : List TxnId) :
    (readEvents ext kind tableUuid counts path).exec db' =
      (readEvents ext kind tableUuid counts path).exec
        db := by
  induction path generalizing counts with
  | nil => rfl
  | cons t rest ih =>
      apply Query.exec_bind_congr (hSame.exec_readEvent ..)
      rintro ⟨event, counts'⟩ _
      apply Query.exec_bind_congr (ih counts')
      intro events _
      rfl

end SameRows

------------------------------------------------------------
-- Reads of the Same Table
------------------------------------------------------------

namespace SameTable

variable
  {ext : External}
  {db db' : Database}
  {ident : TableIdent}

theorem exec_readTable
    (hSame : SameTable db db' ident)
    (catalog : SqlCatalog)
    (t : Option TxnId) :
    (readTable ext catalog ident t).exec db' =
      (readTable ext catalog ident t).exec db := by
  apply Query.exec_bind_congr
  · simp [hSame.row]
  · rintro (_ | row) hFound
    · rfl
    · exact (hSame.rows row (Except.ok.inj
        hFound)).exec_readRow ..

theorem exec_listTransactionEvents
    (hSame : SameTable db db' ident)
    (catalog : SqlCatalog)
    (cursor : TxnRangeCursor) :
    (listTransactionEvents ext catalog ident cursor).exec
        db' =
      (listTransactionEvents ext catalog ident cursor).exec
        db := by
  apply Query.exec_bind_congr
  · simp [hSame.row]
  · rintro (_ | row) hFound
    · rfl
    · have hRows := hSame.rows row (Except.ok.inj hFound)
      dsimp only
      apply Query.exec_lift_bind_congr
      intro current _
      apply Query.exec_bind_congr
        (hRows.exec_checkEndExists ..)
      intro _ _
      apply Query.exec_bind_congr
        (hRows.exec_transactionPath ..)
      intro path _
      exact hRows.exec_readEvents ..

/- What agrees on a table is read alike. -/
theorem reads
    (hSame : SameTable db db' ident)
    (ext : External) :
    SameReads ext db db' ident where
  current := by
    apply Query.exec_bind_congr
    · simp [hSame.row]
    · rintro (_ | row) _ <;> rfl
  read := hSame.exec_readTable
  list := hSame.exec_listTransactionEvents
  diff catalog s t := by
    apply Query.exec_bind_congr
      (hSame.exec_listTransactionEvents ..)
    intro events _
    apply Query.exec_bind_congr (hSame.exec_readTable ..)
    intro fromView _
    apply Query.exec_bind_congr (hSame.exec_readTable ..)
    intro toView _
    rfl

end SameTable

------------------------------------------------------------
-- The Same Calls
------------------------------------------------------------

/- The same calls on a table have left the same rows. -/
theorem World.Reachable.sameTable
    {ext : External}
    {w w' : World}
    {ident : TableIdent}
    (hReach : w.Reachable ext)
    (hReach' : w'.Reachable ext)
    (hCalls : w'.callsOn ident = w.callsOn ident) :
    SameTable w.database w'.database ident where
  row := hReach.findTable_eq hReach' hCalls
  rows row hFind := by
    rcases Database.findTable_some hFind with
      ⟨hRow, hIdent⟩
    have hFind' := hReach.findTable_eq hReach' hCalls
    rw [hFind] at hFind'
    have hStored := (hReach.inv.tracked row hRow).toStored
    have hStored' := (hReach'.inv.tracked row
      (Database.findTable_some hFind').1).toStored
    rw [hIdent, World.history_eq] at hStored
    rw [hIdent, World.history_eq, hCalls] at hStored'
    constructor
    case transactions =>
      exact hStored'.transactions.trans
        hStored.transactions.symm
    case schemas =>
      exact hStored'.schemas.trans hStored.schemas.symm
    case columns =>
      intro s hSchema
      rw [hStored.schemas] at hSchema
      rcases exists_point_of_mem hSchema with
        ⟨p, hPoint, hEq⟩
      rw [← hEq]
      exact (hStored'.columns p hPoint).trans
        (hStored.columns p hPoint).symm
    case files =>
      exact hStored'.files.trans hStored.files.symm
    case stats =>
      exact hReach'.inv.stats.trans hReach.inv.stats.symm

end Planar
