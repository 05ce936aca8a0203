import Planar.History.Effects

/-
  What the schema checks of a commit accept.

  Main declarations:
    * `currentColumns_ok`
    * `Evolves`
    * `checkAgainstCurrent_ok`
-/

------------------------------------------------------------
-- The Map of Current Columns
------------------------------------------------------------

namespace Planar

/- Names that no row has keep what the map had. -/
theorem currentColumns_of_notMem
    {ext : External}
    {columns columns' : ColumnMap}
    {rows : List ColumnRow}
    {name : String}
    (hOk : currentColumns ext columns rows = .ok columns')
    (hName : name ∉ rows.map ColumnRow.columnName) :
    columns'.lookup name = columns.lookup name := by
  induction rows generalizing columns with
  | nil =>
      rcases Except.ok.inj hOk with rfl
      rfl
  | cons row rest ih =>
      rcases bind_ok.mp hOk with ⟨columnType, _, hRest⟩
      rw [List.map_cons, List.mem_cons, not_or] at hName
      rw [ih hRest hName.2,
        AList.lookup_insert_ne hName.1]

/- Among distinct names every row is in the map, decoded. -/
theorem currentColumns_ok
    {ext : External}
    {columns columns' : ColumnMap}
    {rows : List ColumnRow}
    (hOk : currentColumns ext columns rows = .ok columns')
    (hNames : (rows.map ColumnRow.columnName).Nodup) :
    ∀ row ∈ rows, ∃ columnType,
      decodeDataType ext row.columnType = .ok columnType ∧
        columns'.lookup row.columnName =
          some (columnType, row.isNullable) := by
  induction rows generalizing columns with
  | nil => simp
  | cons first rest ih =>
      rcases bind_ok.mp hOk with
        ⟨columnType, hDecode, hRest⟩
      rw [List.map_cons, List.nodup_cons] at hNames
      intro row hRow
      rcases List.mem_cons.mp hRow with rfl | hRow
      · refine ⟨columnType, hDecode, ?_⟩
        rw [currentColumns_of_notMem hRest hNames.1,
          AList.lookup_insert]
      · exact ih hRest hNames.2 row hRow

------------------------------------------------------------
-- The Checks
------------------------------------------------------------

theorem checkNoneDropped_ok
    {newNames existing : List String}
    (hOk : checkNoneDropped newNames existing = .ok ()) :
    ∀ name ∈ existing, name ∈ newNames := by
  induction existing with
  | nil => simp
  | cons first rest ih =>
      unfold checkNoneDropped at hOk
      split at hOk
      · rename_i hFirst
        intro name hName
        rcases List.mem_cons.mp hName with rfl | hName
        · exact hFirst
        · exact ih hOk name hName
      · cases hOk

theorem checkEvolution_ok
    {ext : External}
    {columns : ColumnMap}
    {newColumns : List ColumnSpec}
    (hOk : checkEvolution ext columns newColumns = .ok ()) :
    ∀ column ∈ newColumns,
      checkColumnEvolution ext columns column = .ok () := by
  induction newColumns with
  | nil => simp
  | cons first rest ih =>
      rcases bind_ok.mp hOk with ⟨u, hFirst, hRest⟩
      intro column hColumn
      rcases List.mem_cons.mp hColumn with rfl | hColumn
      · exact hFirst
      · exact ih hRest column hColumn

theorem checkColumnEvolution_ok
    {ext : External}
    {columns : ColumnMap}
    {newColumn : ColumnSpec}
    {oldType : DataType}
    {oldNullable : Bool}
    (hOk :
      checkColumnEvolution ext columns newColumn = .ok ())
    (hLookup :
      columns.lookup newColumn.name =
        some (oldType, oldNullable)) :
    canEvolveTo oldType newColumn.columnType = true ∧
      (oldNullable = true →
        newColumn.isNullable = true) := by
  simp only [checkColumnEvolution, hLookup] at hOk
  split at hOk
  · cases hOk
  rename_i hType
  split at hOk
  · cases hOk
  rename_i hNullable
  refine ⟨by simpa using hType, ?_⟩
  intro hOld
  by_contra hNew
  exact hNullable ⟨hOld, hNew⟩

/-
  A stored column of the current schema has its successor
  among the new columns.
-/
def Evolves
    (ext : External)
    (row : ColumnRow)
    (newColumns : List ColumnSpec) : Prop :=
  ∃ oldType,
    decodeDataType ext row.columnType = .ok oldType ∧
      ∃ column ∈ newColumns,
        column.name = row.columnName ∧
          canEvolveTo oldType column.columnType = true ∧
          (row.isNullable = true →
            column.isNullable = true)

/- The validation makes every stored column evolve. -/
theorem checkAgainstCurrent_ok
    {ext : External}
    {rows : List ColumnRow}
    {spec : SchemaSpec}
    (hOk : checkAgainstCurrent ext rows spec = .ok ())
    (hNames : (rows.map ColumnRow.columnName).Nodup) :
    ∀ row ∈ rows, Evolves ext row spec.columns := by
  rcases bind_ok.mp hOk with ⟨columns, hColumns, hRest⟩
  rcases bind_ok.mp hRest with ⟨u, hDropped, hEvolution⟩
  intro row hRow
  rcases currentColumns_ok hColumns hNames row hRow with
    ⟨oldType, hDecode, hLookup⟩
  have hKey : row.columnName ∈ columns.keys := by
    rw [← AList.mem_keys, ← AList.lookup_isSome, hLookup]
    rfl
  have hNew :=
    checkNoneDropped_ok hDropped row.columnName hKey
  rcases List.mem_map.mp hNew with
    ⟨column, hColumn, hName⟩
  have hCheck := checkEvolution_ok hEvolution column hColumn
  rw [← hName] at hLookup
  rcases checkColumnEvolution_ok hCheck hLookup with
    ⟨hType, hNullable⟩
  exact ⟨oldType, hDecode, column, hColumn, hName, hType,
    hNullable⟩

end Planar
