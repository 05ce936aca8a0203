import Planar.Catalog.Handles
import Planar.Properties.Acceptance

/-
  What the catalog lists and loads: the tables whose
  creation was accepted, each of them once.

  Main declarations:
    * `createdTables`, `TableIdent.Listed`
    * `World.Reachable.idents`
    * `World.Reachable.listsTables`
    * `World.Reachable.lookups`
-/

------------------------------------------------------------
-- The Tables that Were Created
------------------------------------------------------------

namespace Planar

variable
  {ext : External}
  {w : World}

/- The table that a call has made. -/
def Call.created : Call → Option TableIdent
| .create call => some call.ident
| .commit _ => none

/- The tables that calls have made, in order. -/
def createdTables (calls : List Call) : List TableIdent :=
  calls.filterMap Call.created

theorem createdTables_concat
    (calls : List Call)
    (call : Call) :
    createdTables (calls ++ [call]) =
      createdTables calls ++ call.created.toList := by
  rw [createdTables, List.filterMap_append]
  cases call <;> rfl

/- The table is asked for, with or without a namespace. -/
def TableIdent.Listed
    (filter : Option String)
    (ident : TableIdent) : Prop :=
  ∀ tableNamespace ∈ filter,
    ident.tableNamespace = tableNamespace

instance
    (filter : Option String)
    (ident : TableIdent) :
    Decidable (ident.Listed filter) :=
  inferInstanceAs (Decidable
    (∀ tableNamespace ∈ filter,
      ident.tableNamespace = tableNamespace))

/- The rows are those of the accepted creations. -/
theorem World.Reachable.idents
    (hReach : w.Reachable ext) :
    w.database.tables.map TableRow.ident =
      createdTables w.calls := by
  induction hReach with
  | refl => rfl
  | @tail w w' hSteps hStep ih =>
      have hInv := Reachable.inv hSteps
      cases hInv.moves hStep with
      | stays => exact ih
      | @creates call db' hSound hCreates =>
          have hSound' := hSound hInv.sound
          rw [hCreates.effect] at hSound'
          have hFresh :=
            hSound'.fresh _ createStatements_keys.1
          rw [createdTables_concat, ← ih, hCreates.effect,
            tables_createStatements hFresh,
            List.map_append]
          rfl
      | @commits call db' row properties hSound hCommits =>
          have hSame :
              db'.tables.map TableRow.ident =
                w.database.tables.map TableRow.ident := by
            rw [hCommits.effect, tables_commitStatements,
              List.map_map]
            apply List.map_congr_left
            intro other _
            exact ident_advanceTo ..
          rw [createdTables_concat, ← ih, hSame]
          exact (List.append_nil _).symm

/- No table is made twice. -/
theorem World.Reachable.nodup_created
    (hReach : w.Reachable ext) :
    (createdTables w.calls).Nodup := by
  have hSublist (rows : List TableRow) :
      ((rows.map TableRow.ident).map
        Key.tableIdent).Sublist
          (rows.flatMap TableRow.keys) := by
    induction rows with
    | nil => exact .slnil
    | cons row rest ih => exact .cons _ (.cons_cons _ ih)
  have hKeys : (w.database.tables.flatMap
      TableRow.keys).Nodup :=
    hReach.inv.sound.keys.sublist
      (List.sublist_append_left _ _)
  rw [← hReach.idents]
  exact (hKeys.sublist (hSublist _)).of_map _

------------------------------------------------------------
-- Listing and Loading
------------------------------------------------------------

/- The rows that a listing selects, as identifiers. -/
theorem map_ident_filter
    (filter : Option String)
    (rows : List TableRow) :
    (rows.filter fun row =>
      match filter with
      | none => true
      | some tableNamespace =>
          row.tableNamespace = tableNamespace).map
            TableRow.ident =
      (rows.map TableRow.ident).filter
        fun ident => ident.Listed filter := by
  rw [List.filter_map]
  apply congrArg
  apply List.filter_congr
  intro row _
  cases filter with
  | none => simp [TableIdent.Listed]
  | some tableNamespace =>
      apply decide_eq_decide.mpr
      simp [TableIdent.Listed, TableRow.ident]

/-
  A listing is every created table that was asked for, each
  of them once, or the limit error when they are too many.
-/
theorem World.Reachable.listsTables
    {filter : Option String}
    {created : List TableIdent}
    (hReach : w.Reachable ext)
    (hCreated : created = (createdTables w.calls).filter
      fun ident => ident.Listed filter) :
    (created.length ≤ maxTablesPerList →
        ∃ tables,
          (listTables ext filter).exec w.database =
              .ok tables ∧
            tables.Perm created) ∧
      (maxTablesPerList < created.length →
        (listTables ext filter).exec w.database =
          fault (.limitExceeded
            s!"table count exceeds limit of {
              maxTablesPerList}")) := by
  subst hCreated
  rw [← hReach.idents, ← map_ident_filter, List.length_map]
  unfold listTables
  rw [Query.exec_bind, Query.exec_fetch]
  dsimp only [bind, Except.bind]
  generalize w.database.tables.filter _ = rows
  have hLength := ext.orders.tables.perm rows |>.length_eq
  constructor
  · intro hFew
    rw [List.take_of_length_le (by omega),
      if_neg (by omega)]
    exact ⟨_, rfl, (ext.orders.tables.perm rows).map _⟩
  · intro hMany
    have hLong : maxTablesPerList <
        ((ext.orders.tables.arrange rows).take
          (maxTablesPerList + 1)).length := by
      rw [List.length_take]
      omega
    rw [if_pos hLong]
    rfl

/- A table is found when it was created. -/
theorem World.Reachable.isSome_findTable
    {ident : TableIdent}
    (hReach : w.Reachable ext) :
    (w.database.findTable ident).isSome ↔
      ident ∈ createdTables w.calls := by
  rw [← hReach.idents, Database.findTable,
    List.find?_isSome, List.mem_map]
  apply exists_congr
  intro row
  rw [decide_eq_true_iff]

/-
  The lookups answer from the calls that were accepted: a
  listing holds every created table that it asks for, once
  each, unless they are more than the limit; a table is
  loaded on SQLite when it was created, and then fails to
  load on PostgreSQL; and its head is the last transaction
  of its history.
-/
theorem World.Reachable.lookups
    (hReach : w.Reachable ext) :
    (∀ filter,
      let created := (createdTables w.calls).filter
        fun ident => ident.Listed filter
      (created.length ≤ maxTablesPerList →
        ∃ tables,
          (listTables ext filter).exec w.database =
              .ok tables ∧
            tables.Perm created ∧ tables.Nodup) ∧
        (maxTablesPerList < created.length →
          (listTables ext filter).exec w.database =
            fault (.limitExceeded
              s!"table count exceeds limit of {
                maxTablesPerList}"))) ∧
      (∀ ident,
        (loadTable .sqlite ident).exec w.database =
          .ok (if ident ∈ createdTables w.calls then
            some ident else none)) ∧
      (∀ ident,
        (loadTable .postgres ident).exec w.database =
          if ident ∈ createdTables w.calls then
            fault (.storage (.columnDecode "0"))
          else .ok none) ∧
      ∀ ident,
        (ident ∉ createdTables w.calls →
          (currentTransactionId ident).exec w.database =
            fault (.notFound ident.toText)) ∧
          (ident ∈ createdTables w.calls →
            ∃ transactionId,
              (currentTransactionId ident).exec
                  w.database = .ok transactionId ∧
                (tableHistory w.calls ident).ids.getLast? =
                  some transactionId) := by
  refine ⟨?_, ?_, ?_, ?_⟩
  · intro filter created
    rcases hReach.listsTables rfl with ⟨hFew, hMany⟩
    refine ⟨?_, hMany⟩
    intro hLength
    rcases hFew hLength with ⟨tables, hOk, hPerm⟩
    exact ⟨tables, hOk, hPerm,
      hPerm.nodup_iff.mpr (hReach.nodup_created.filter _)⟩
  · intro ident
    unfold loadTable
    rw [Query.exec_bind, Query.exec_fetch, bind_ok]
    refine ⟨_, rfl, ?_⟩
    rw [Query.exec_bind, Query.exec_lift, bind_ok]
    refine ⟨_, rfl, ?_⟩
    rw [Query.exec_pure]
    simp only [hReach.isSome_findTable]
  · intro ident
    have hFound :=
      @World.Reachable.isSome_findTable _ _ ident hReach
    unfold loadTable
    rw [Query.exec_bind_of_ok (Query.exec_fetch ..)]
    cases hSome : (w.database.findTable ident).isSome with
    | true =>
        rw [if_pos (hFound.mp hSome)]
        rfl
    | false =>
        rw [if_neg (mt hFound.mpr (by simp [hSome]))]
        rfl
  · intro ident
    rw [← hReach.isSome_findTable]
    constructor
    · intro hNone
      rw [Bool.not_eq_true, Option.isSome_eq_false_iff,
        Option.isNone_iff_eq_none] at hNone
      unfold currentTransactionId
      rw [Query.exec_bind, Query.exec_fetch, hNone]
      rfl
    · intro hSome
      rcases Option.isSome_iff_exists.mp hSome with
        ⟨row, hFound⟩
      rcases hReach.of_findTable hFound with
        ⟨hTracked, hLawful, _⟩
      cases hLast :
          (tableHistory w.calls ident).ids.getLast? with
      | none =>
          exfalso
          rw [List.getLast?_eq_none_iff, History.ids,
            List.map_eq_nil_iff] at hLast
          exact hLawful.nonempty hLast
      | some transactionId =>
          refine ⟨transactionId, ?_, rfl⟩
          rw [exec_currentTransactionId]
          exact ⟨row, hFound, hTracked.head.trans hLast⟩

theorem lookups_sample :
    (listTables sampleExternal (some "n")).exec
        sampleWorld.database = .ok [sampleIdent] := by
  have hLists := ((World.reachable_run sampleExternal
    sampleCalls).lookups.1 (some "n")).1 (by decide +kernel)
  rcases hLists with ⟨tables, hOk, hPerm, _⟩
  have hOne :
      ((createdTables sampleWorld.calls).filter
        fun ident => ident.Listed (some "n")) =
          [sampleIdent] := by
    decide +kernel
  have hTables : tables = [sampleIdent] :=
    List.perm_singleton.mp (hOne ▸ hPerm)
  exact hTables ▸ hOk

end Planar
