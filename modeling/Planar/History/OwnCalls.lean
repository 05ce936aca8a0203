import Planar.History.Progress

/-
  What the database holds of a table is determined by the
  calls on that table alone.

  Main declarations:
    * `World.callsOn`
    * `TableRow.fixed`, `World.Reachable.created`
    * `World.rowOf`, `World.Reachable.findTable`
-/

------------------------------------------------------------
-- The Calls on One Table
------------------------------------------------------------

namespace Planar

/- The successful calls on a table, in order. -/
def World.callsOn
    (w : World)
    (ident : TableIdent) : List Call :=
  w.calls.filter fun call => call.ident = ident

theorem World.history_eq
    (w : World)
    (ident : TableIdent) :
    w.history ident = (w.callsOn ident).map Call.entry :=
  rfl

theorem World.callsOn_concat
    (w : World)
    (db : Database)
    (call : Call)
    (ident : TableIdent) :
    callsOn ⟨db, w.calls ++ [call]⟩ ident =
      w.callsOn ident ++
        if call.ident = ident then [call] else [] := by
  unfold callsOn
  rw [List.filter_append, List.filter_singleton]
  simp

/- The columns of a row of `tables` that never change. -/
def TableRow.fixed (row : TableRow) : TableRow :=
  { row with
    currentSchemaUuid := none
    currentTransactionId := none
    properties := none }

theorem TableRow.fixed_advanceTo
    (ext : External)
    (row : TableRow)
    (properties : TableProperties)
    (e : Entry)
    (other : TableRow) :
    (advanceTo ext row properties e other).fixed =
      other.fixed := by
  unfold advanceTo TableRow.advanceHead
  split <;> rfl

/- What a creation puts there for good. -/
def CreateCall.fixedRow (call : CreateCall) : TableRow :=
  (newTableRow call.catalog call.ident call.location ""
    call.draws).fixed

/- The first call on a table made its row. -/
structure CreatedBy
    (calls : List Call)
    (row : TableRow) : Prop where
  first : ∃ call, calls.head? = some (.create call) ∧
    row.fixed = call.fixedRow

theorem CreatedBy.append
    {calls : List Call}
    {row : TableRow}
    (hCreated : CreatedBy calls row)
    (more : List Call) :
    CreatedBy (calls ++ more) row := by
  rcases hCreated.first with ⟨call, hHead, hFixed⟩
  refine ⟨call, ?_, hFixed⟩
  rw [List.head?_append, hHead]
  rfl

------------------------------------------------------------
-- Every Table Was Created
------------------------------------------------------------

namespace World

variable
  {ext : External}
  {w w' : World}

/- One step keeps what the first calls have made. -/
theorem Moves.created
    (hInv : w.Inv ext)
    (hMoves : Moves ext w w')
    (hCreated : ∀ row ∈ w.database.tables,
      CreatedBy (w.callsOn row.ident) row) :
    ∀ row ∈ w'.database.tables,
      CreatedBy (w'.callsOn row.ident) row := by
  cases hMoves with
  | stays => exact hCreated
  | @creates call db' hSound hCreates =>
      have hSound' := hSound hInv.sound
      rw [hCreates.effect] at hSound'
      have hFresh :=
        hSound'.fresh _ createStatements_keys.1
      intro row hRow
      rw [hCreates.effect,
        tables_createStatements hFresh] at hRow
      rw [callsOn_concat]
      rcases List.mem_append.mp hRow with hOld | hNew
      · exact (hCreated row hOld).append _
      · rw [List.mem_singleton] at hNew
        subst hNew
        have hNone : w.callsOn call.ident = [] := by
          have hHistory :=
            hInv.history_of_absent hCreates.absent
          rw [history_eq, List.map_eq_nil_iff] at hHistory
          exact hHistory
        refine ⟨call, ?_, rfl⟩
        have hIdent :
            (createdRow ext call.catalog call.ident
              call.location (call.properties.getD {})
              call.draws).ident = call.ident := rfl
        rw [hIdent, hNone]
        simp [Call.ident]
  | @commits call db' head properties hSound hCommits =>
      intro row hRow
      rw [hCommits.effect, tables_commitStatements] at hRow
      rcases List.mem_map.mp hRow with ⟨old, hOld, rfl⟩
      rw [ident_advanceTo, callsOn_concat]
      rcases ((hCreated old hOld).append _).first with
        ⟨first, hHead, hFixed⟩
      refine ⟨first, hHead, ?_⟩
      rw [TableRow.fixed_advanceTo, hFixed]

/- The first successful call on a table is its creation. -/
theorem Reachable.created
    (hReach : w.Reachable ext) :
    ∀ row ∈ w.database.tables,
      CreatedBy (w.callsOn row.ident) row := by
  induction hReach with
  | refl =>
      intro row hRow
      cases hRow
  | @tail a b hSteps hStep ih =>
      have hInv := Reachable.inv hSteps
      exact (hInv.moves hStep).created hInv ih

------------------------------------------------------------
-- The Row of a Table
------------------------------------------------------------

/- A table with successful calls has a row. -/
theorem Inv.findTable_of_calls
    {ident : TableIdent}
    (hInv : w.Inv ext)
    (hCalls : w.callsOn ident ≠ []) :
    ∃ row, w.database.findTable ident = some row := by
  rcases List.exists_mem_of_ne_nil _ hCalls with
    ⟨call, hCall⟩
  rcases List.mem_filter.mp hCall with ⟨hCall, hIdent⟩
  rcases hInv.known call hCall with ⟨row, hRow, hEq⟩
  rw [of_decide_eq_true hIdent] at hEq
  rw [← Option.isSome_iff_exists]
  exact List.find?_isSome.mpr
    ⟨row, hRow, decide_eq_true hEq⟩

/- A row is made of its fixed columns and the others. -/
theorem row_ext
    {a b : TableRow}
    (hFixed : a.fixed = b.fixed)
    (hSchema : a.currentSchemaUuid = b.currentSchemaUuid)
    (hHead :
      a.currentTransactionId = b.currentTransactionId)
    (hProperties : a.properties = b.properties) :
    a = b := by
  cases a
  cases b
  simp only [TableRow.fixed, TableRow.mk.injEq] at *
  grind

/- The row that the successful calls on a table leave. -/
def rowOf
    (ext : External)
    (calls : List Call) : Option TableRow :=
  match calls with
  | .create call :: _ =>
      let h : History := calls.map Call.entry
      some
        { call.fixedRow with
          currentSchemaUuid :=
            h.schema.map SchemaContents.schemaUuid
          currentTransactionId := h.ids.getLast?
          properties :=
            some (ext.jsonToString
              (storedProperties ext h).toJson) }
  | _ => none

theorem rowOf_create
    (ext : External)
    (call : CreateCall)
    (rest : List Call) :
    ∃ row,
      rowOf ext (.create call :: rest) = some row ∧
        row.fixed = call.fixedRow :=
  ⟨_, rfl, rfl⟩

/- The calls on a table determine its row. -/
theorem Reachable.findTable
    (hReach : w.Reachable ext)
    (ident : TableIdent) :
    w.database.findTable ident =
      rowOf ext (w.callsOn ident) := by
  have hInv := hReach.inv
  cases hFind : w.database.findTable ident with
  | none =>
      have hNone : w.callsOn ident = [] := by
        by_contra hSome
        rcases hInv.findTable_of_calls hSome with
          ⟨row, hRow⟩
        rw [hFind] at hRow
        cases hRow
      rw [hNone]
      rfl
  | some row =>
      rcases Database.findTable_some hFind with
        ⟨hRow, hIdent⟩
      rcases (hReach.created row hRow).first with
        ⟨call, hHead, hFixed⟩
      have hTracked := hInv.tracked row hRow
      rw [hIdent] at hHead hTracked
      rw [history_eq] at hTracked
      rcases List.head?_eq_some_iff.mp hHead with
        ⟨rest, hCalls⟩
      rw [hCalls] at hTracked ⊢
      exact congrArg some (row_ext hFixed
        hTracked.schemaHead hTracked.head
        hTracked.properties)

/- The same calls on a table have made the same row. -/
theorem Reachable.findTable_eq
    {ident : TableIdent}
    (hReach : w.Reachable ext)
    (hReach' : w'.Reachable ext)
    (hCalls : w'.callsOn ident = w.callsOn ident) :
    w'.database.findTable ident =
      w.database.findTable ident := by
  rw [hReach'.findTable, hReach.findTable, hCalls]

end World

end Planar
