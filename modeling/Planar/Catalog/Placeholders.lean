import Planar.Catalog.Limits
import Planar.Database.Rows

/-
  The placeholders that the catalog writes into its chunked
  statements, and the values that it binds to them.

  Main declarations:
    * `Placeholder`, `insertPlaceholders`, `inPlaceholders`
    * `valuesText`, `inText`
    * `FileRow.binds`, `ColumnRow.binds`, `deleteBinds`
    * `parameterNumbers`, `Bound`
    * `bound_insert_iff`, `bound_delete`
-/

------------------------------------------------------------
-- Placeholders
------------------------------------------------------------

namespace Planar

/- A `?` without a number, or a `?n` or `$n`. -/
inductive Placeholder where
  | anonymous
  | numbered (n : Nat)
  deriving DecidableEq

def Placeholder.text
    (kind : DbKind) : Placeholder → String
| .anonymous => "?"
| .numbered n =>
    match kind with
    | .sqlite => s!"?{n}"
    | .postgres => s!"${n}"

/- The rows of a `VALUES` list, with the `u32` counter. -/
def dollarRows
    (paramsPerRow : Nat) :
    Nat → Nat → List (List Placeholder)
| _, 0 => []
| param, rows + 1 =>
    ((List.range paramsPerRow).map fun i =>
      .numbered (asU32 (param + i))) ::
        dollarRows paramsPerRow
          (asU32 (param + paramsPerRow)) rows

/- The placeholders of a multi-row insert. -/
def insertPlaceholders
    (kind : DbKind)
    (paramsPerRow rows : Nat) : List (List Placeholder) :=
  match kind with
  | .sqlite =>
      List.replicate rows
        (List.replicate paramsPerRow .anonymous)
  | .postgres => dollarRows paramsPerRow 1 rows

/- The placeholders of `IN (..)`, after two fixed ones. -/
def inPlaceholders
    (kind : DbKind)
    (count : Nat) : List Placeholder :=
  match kind with
  | .sqlite =>
      (List.range count).map fun i => .numbered (i + 3)
  | .postgres =>
      (List.range' 1 count).map fun i => .numbered (i + 2)

/- The placeholders of a statement that removes files. -/
def deletePlaceholders
    (kind : DbKind)
    (count : Nat) : List Placeholder :=
  .numbered 1 :: .numbered 2 :: inPlaceholders kind count

/- The text after `VALUES`. -/
def valuesText
    (kind : DbKind)
    (paramsPerRow rows : Nat) : String :=
  ", ".intercalate
    ((insertPlaceholders kind paramsPerRow rows).map
      fun row =>
        "(" ++
          ", ".intercalate
            (row.map (Placeholder.text kind)) ++ ")")

/- The text in the parentheses of `IN (..)`. -/
def inText (kind : DbKind) (count : Nat) : String :=
  ", ".intercalate
    ((inPlaceholders kind count).map
      (Placeholder.text kind))

example :
    valuesText .sqlite 6 2 =
      "(?, ?, ?, ?, ?, ?), (?, ?, ?, ?, ?, ?)" := by
  decide +kernel

example :
    valuesText .postgres 3 2 = "($1, $2, $3), ($4, $5, $6)" ∧
      inText .sqlite 2 = "?3, ?4" ∧
      inText .postgres 2 = "$3, $4" := by
  decide +kernel

------------------------------------------------------------
-- Bound Values
------------------------------------------------------------

/- A value that is bound to a parameter. -/
inductive BindValue where
  | uuid (value : Uuid)
  | text (value : Option String)
  | bytes (value : List UInt8)
  | i64 (value : Int64)
  | i32 (value : Int)
  | bool (value : Bool)
  deriving DecidableEq

def fileInsertParamsPerRow : Nat := 9

def deleteFilesFixedParams : Nat := 2

/- Total bind parameters of an insert of columns. -/
def columnInsertBindCount (rows : Nat) : Nat :=
  rows * columnInsertParamsPerRow

/- Total bind parameters of an insert of files. -/
def fileInsertBindCount (rows : Nat) : Nat :=
  rows * fileInsertParamsPerRow

/- Total bind parameters of an update that removes files. -/
def deleteFilesBindCount (rows : Nat) : Nat :=
  deleteFilesFixedParams + rows

/- The values bound for one row of `files`. -/
def FileRow.binds (row : FileRow) : List BindValue :=
  [.uuid row.fileUuid,
    .uuid row.tableUuid,
    .text (some row.fileFormat),
    .text (some row.filePath),
    .i64 row.recordCount,
    .i64 row.fileSizeBytes,
    .uuid row.addedInTransactionId,
    .text row.partitionValues,
    .text row.formatOptions]

/- The values bound for one row of `columns`. -/
def ColumnRow.binds (row : ColumnRow) : List BindValue :=
  [.uuid row.columnUuid,
    .uuid row.schemaUuid,
    .text (some row.columnName),
    .bytes row.columnType,
    .i32 row.ordinalPosition,
    .bool row.isNullable]

theorem FileRow.length_binds
    (row : FileRow) :
    row.binds.length = fileInsertParamsPerRow :=
  rfl

theorem ColumnRow.length_binds
    (row : ColumnRow) :
    row.binds.length = columnInsertParamsPerRow :=
  rfl

/- The values bound for an update that removes files. -/
def deleteBinds
    (transactionId : TxnId)
    (tableUuid : Uuid)
    (fileUuids : List Uuid) : List BindValue :=
  .uuid transactionId :: .uuid tableUuid ::
    fileUuids.map .uuid

/- The chunks of the catalog respect the bind limits. -/
theorem bindCounts_le
    (kind : DbKind) :
    fileInsertBindCount batchInsertFilesChunk ≤
        dbBindLimit kind ∧
      deleteFilesBindCount batchDeleteFilesChunk ≤
        dbBindLimit kind ∧
      columnInsertBindCount (batchInsertColumnsChunk kind) ≤
        dbBindLimit kind := by
  cases kind <;> decide

------------------------------------------------------------
-- Numbers of Parameters
------------------------------------------------------------

/-
  The parameters that placeholders stand for, when the
  largest number so far is given: a `?` takes the next one.
-/
def parameterNumbers :
    Nat → List Placeholder → List Nat
| _, [] => []
| largest, .anonymous :: rest =>
    (largest + 1) :: parameterNumbers (largest + 1) rest
| largest, .numbered n :: rest =>
    n :: parameterNumbers (max largest n) rest

/-
  The placeholders of a statement stand for the bound values
  one by one, and group by group.
-/
def Bound
    (placeholders : List (List Placeholder))
    (values : List (List BindValue)) : Prop :=
  parameterNumbers 0 placeholders.flatten =
      List.range' 1 values.flatten.length ∧
    placeholders.map List.length = values.map List.length

theorem parameterNumbers_anonymous
    (largest count : Nat) :
    parameterNumbers largest
        (List.replicate count .anonymous) =
      List.range' (largest + 1) count := by
  induction count generalizing largest with
  | zero => rfl
  | succ count ih =>
      rw [List.replicate_succ, parameterNumbers, ih,
        List.range'_succ]

/- Explicit numbers stand for themselves. -/
theorem parameterNumbers_numbered
    (largest : Nat)
    (numbers : List Nat) :
    parameterNumbers largest
        (numbers.map .numbered) = numbers := by
  induction numbers generalizing largest with
  | nil => rfl
  | cons n rest ih =>
      rw [List.map_cons, parameterNumbers, ih]

theorem inPlaceholders_eq
    (kind : DbKind)
    (count : Nat) :
    inPlaceholders kind count =
      (List.range' 3 count).map .numbered := by
  unfold inPlaceholders
  cases kind with
  | sqlite =>
      have hShift :
          (List.range' 0 count).map (3 + ·) =
            List.range' 3 count :=
        List.map_add_range' 0 count 1
      rw [← hShift, List.map_map, List.range_eq_range']
      simp only [Function.comp_def, Nat.add_comm 3]
  | postgres =>
      have hShift :
          (List.range' 1 count).map (2 + ·) =
            List.range' 3 count :=
        List.map_add_range' 1 count 1
      rw [← hShift, List.map_map]
      simp only [Function.comp_def, Nat.add_comm 2]

/- An update binds its parameters on both backends. -/
theorem bound_delete
    (kind : DbKind)
    (transactionId : TxnId)
    (tableUuid : Uuid)
    (fileUuids : List Uuid) :
    Bound [deletePlaceholders kind fileUuids.length]
      [deleteBinds transactionId tableUuid fileUuids] := by
  have hAll :
      deletePlaceholders kind fileUuids.length =
        (List.range' 1 (fileUuids.length + 2)).map
          .numbered := by
    rw [deletePlaceholders, inPlaceholders_eq]
    rfl
  constructor
  · simp only [List.flatten_cons, List.flatten_nil,
      List.append_nil]
    rw [hAll, parameterNumbers_numbered]
    simp [deleteBinds]
  · simp [hAll, deleteBinds]

/- The `u32` counter passes through all numbers. -/
theorem flatten_dollarRows
    (paramsPerRow param rows : Nat) :
    (dollarRows paramsPerRow (asU32 param) rows).flatten =
      (List.range' param (rows * paramsPerRow)).map
        fun n => .numbered (asU32 n) := by
  induction rows generalizing param with
  | zero => simp [dollarRows]
  | succ rows ih =>
      have hCast (i : Nat) :
          asU32 (asU32 param + i) = asU32 (param + i) :=
        Nat.mod_add_mod ..
      have hSplit :
          (rows + 1) * paramsPerRow =
            paramsPerRow + rows * paramsPerRow := by
        rw [Nat.add_mul, Nat.one_mul, Nat.add_comm]
      rw [dollarRows, List.flatten_cons, hCast, ih, hSplit,
        ← List.range'_append_1, List.map_append]
      have hShift :
          (List.range' 0 paramsPerRow).map (param + ·) =
            List.range' param paramsPerRow :=
        List.map_add_range' 0 paramsPerRow 1
      rw [← hShift, List.map_map, List.range_eq_range']
      simp only [hCast, Function.comp_def]

theorem lengths_dollarRows
    (paramsPerRow param rows : Nat) :
    (dollarRows paramsPerRow param rows).map List.length =
      List.replicate rows paramsPerRow := by
  induction rows generalizing param with
  | zero => rfl
  | succ rows ih =>
      rw [dollarRows, List.map_cons, ih, List.length_map,
        List.length_range, List.replicate_succ]

/- The numbers come out when the counter does not wrap. -/
theorem map_asU32_range'_iff
    (count : Nat) :
    (List.range' 1 count).map asU32 =
        List.range' 1 count ↔
      count < 2 ^ 32 := by
  constructor
  · intro hEq
    by_cases hEmpty : count = 0
    · rw [hEmpty]
      decide
    · have hLast : count - 1 < count := by
        omega
      have hAt := congrArg (·[count - 1]?) hEq
      simp only [List.getElem?_map] at hAt
      rw [List.getElem?_range' hLast] at hAt
      have hNumber : asU32 (1 + 1 * (count - 1)) =
          1 + 1 * (count - 1) :=
        Option.some.inj hAt
      unfold asU32 at hNumber
      omega
  · intro hFits
    have hSame : ∀ n ∈ List.range' 1 count,
        asU32 n = id n := by
      intro n hMem
      have hLess := (List.mem_range'_1.mp hMem).2
      exact asU32_of_lt (by omega)
    rw [List.map_congr_left hSame, List.map_id]

/-
  An insert binds its parameters, as long as the counter of
  the numbered placeholders does not wrap.
-/
theorem bound_insert_iff
    {kind : DbKind}
    {paramsPerRow : Nat}
    {values : List (List BindValue)}
    (hWidth : ∀ row ∈ values, row.length = paramsPerRow) :
    Bound
        (insertPlaceholders kind paramsPerRow values.length)
        values ↔
      (kind = .postgres →
        values.length * paramsPerRow < 2 ^ 32) := by
  have hLengths :
      values.map List.length =
        List.replicate values.length paramsPerRow := by
    rw [List.eq_replicate_iff]
    refine ⟨List.length_map _, ?_⟩
    intro n hMem
    rcases List.mem_map.mp hMem with ⟨row, hRow, rfl⟩
    exact hWidth row hRow
  have hTotal :
      values.flatten.length =
        values.length * paramsPerRow := by
    rw [List.length_flatten, hLengths,
      List.sum_replicate_nat]
  unfold Bound insertPlaceholders
  rw [hTotal, hLengths]
  cases kind with
  | sqlite =>
      refine iff_of_true ⟨?_, ?_⟩ nofun
      · rw [List.flatten_replicate_replicate,
          parameterNumbers_anonymous]
      · rw [List.map_replicate, List.length_replicate]
  | postgres =>
      have hFirst : asU32 1 = 1 := by
        decide
      have hFlat := flatten_dollarRows paramsPerRow 1
        values.length
      rw [hFirst] at hFlat
      have hNumbers :
          (dollarRows paramsPerRow 1
              values.length).flatten =
            ((List.range' 1
              (values.length * paramsPerRow)).map
                asU32).map .numbered := by
        rw [hFlat, List.map_map]
        rfl
      dsimp only
      rw [lengths_dollarRows, and_iff_left rfl, hNumbers,
        parameterNumbers_numbered, map_asU32_range'_iff]
      exact ⟨fun h _ => h, fun h => h rfl⟩

end Planar
