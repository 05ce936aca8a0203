import Mathlib.Data.List.Infix
import Planar.Catalog.ReadTable
import Planar.History.World

/-
  What is decoded from the rows of a history.

  Main declarations:
    * `ListedFile`, `FileContents.listed`, `File.listed`
    * `ReadsBack`
    * `FilesOf`, `filesOf_perm`
    * `decodeFiles_stampedRows`
    * `decodeColumns_encodes`
    * `selectColumns_eq`
-/

------------------------------------------------------------
-- Files Without Their Stamps
------------------------------------------------------------

namespace Planar

/- All that a listing shows of a file but its stamps. -/
structure ListedFile where
  fileUuid : Uuid
  fileFormat : String
  filePath : String
  recordCount : Int64
  fileSizeBytes : Int64
  partitionValues : Option Json
  formatOptions : Option Json
  deriving DecidableEq

def FileContents.listed (f : FileContents) : ListedFile :=
  { fileUuid := f.fileUuid
    fileFormat := f.fileFormat.asStr
    filePath := f.filePath
    recordCount := f.recordCount
    fileSizeBytes := f.fileSizeBytes
    partitionValues := f.partitionValues
    formatOptions := f.formatOptions }

def File.listed (f : File) : ListedFile :=
  { fileUuid := f.fileUuid
    fileFormat := f.fileFormat
    filePath := f.filePath
    recordCount := f.recordCount
    fileSizeBytes := f.fileSizeBytes
    partitionValues := f.partitionValues
    formatOptions := f.formatOptions }

/- A column without its place and its UUIDs. -/
def Column.spec (c : Column) : ColumnSpec :=
  ⟨c.columnName, c.columnType, c.isNullable⟩

------------------------------------------------------------
-- Values That Are Read Back
------------------------------------------------------------

/- The text of a value is parsed into the value. -/
def External.ReadsJson
    (ext : External)
    (value : Json) : Prop :=
  ext.jsonFromStr (ext.jsonToString value) = .ok value

/- An encoded schema of one field is decoded into it. -/
def External.ReadsType
    (ext : External)
    (dataType : DataType) : Prop :=
  ext.fbToSchema
      (ext.schemaToFb [.mk "_" dataType true []]) =
    .ok [.mk "_" dataType true []]

/- The JSON values that are stored with a file. -/
def FileContents.jsonValues
    (f : FileContents) : List Json :=
  f.partitionValues.toList ++ f.formatOptions.toList

/-
  All values of a history are read back as they were given:
  types of columns, JSON values of files, and properties
  after every entry.
-/
structure ReadsBack
    (ext : External)
    (h : History) : Prop where
  types : ∀ p ∈ h.schemaPoints, ∀ c ∈ p.2.specs,
    ext.ReadsType c.columnType
  files : ∀ e ∈ h, ∀ f ∈ insertedBy e.edits,
    ∀ value ∈ f.jsonValues, ext.ReadsJson value
  properties : ∀ past later, h = past ++ later →
    ext.ReadsJson (History.properties past).toJson

instance
    (ext : External)
    (h : History) : Decidable (ReadsBack ext h) :=
  decidable_of_iff
    ((∀ p ∈ h.schemaPoints, ∀ c ∈ p.2.specs,
        ext.fbToSchema
            (ext.schemaToFb [.mk "_" c.columnType true []]) =
          .ok [.mk "_" c.columnType true []]) ∧
      (∀ e ∈ h, ∀ f ∈ insertedBy e.edits,
        ∀ value ∈ f.jsonValues,
          ext.jsonFromStr (ext.jsonToString value) =
            .ok value) ∧
      ∀ past ∈ h.inits,
        ext.jsonFromStr
            (ext.jsonToString
              (History.properties past).toJson) =
          .ok (History.properties past).toJson)
    ⟨fun hAll =>
        ⟨hAll.1, hAll.2.1, fun past later hSplit =>
          hAll.2.2 past
            ((List.mem_inits past h).mpr
              ⟨later, hSplit.symm⟩)⟩,
      fun hReads =>
        ⟨hReads.types, hReads.files, fun past hPast => by
          rcases (List.mem_inits past h).mp hPast with
            ⟨later, hSplit⟩
          exact hReads.properties past later hSplit.symm⟩⟩

theorem ReadsBack.past
    {ext : External}
    {past later : History}
    (hReads : ReadsBack ext (past ++ later)) :
    ReadsBack ext past where
  types p hPoint := hReads.types p (by simp [hPoint])
  files e hEntry := hReads.files e (by simp [hEntry])
  properties first second hSplit :=
    hReads.properties first (second ++ later)
      (by rw [hSplit, List.append_assoc])

variable {ext : External}

theorem decodeDataType_encodeDataType
    {dataType : DataType}
    (hReads : ext.ReadsType dataType) :
    decodeDataType ext (encodeDataType ext dataType) =
      .ok dataType := by
  unfold External.ReadsType at hReads
  unfold decodeDataType encodeDataType
  rw [hReads]
  rfl

/- The text of the value is within the size limit. -/
def External.FitsJson
    (ext : External)
    (value : Json) : Prop :=
  checkJsonSize (ext.jsonToString value) = .ok ()

theorem parseJsonText_of_reads
    {value : Json}
    (hSize : ext.FitsJson value)
    (hReads : ext.ReadsJson value) :
    parseJsonText ext (ext.jsonToString value) =
      .ok value := by
  unfold parseJsonText
  rw [hSize, hReads]
  rfl

theorem parseJsonText_ok
    {text : String}
    {value : Json}
    (hOk : parseJsonText ext text = .ok value) :
    ext.jsonFromStr text = .ok value := by
  rcases bind_ok.mp hOk with ⟨u, _, hParse⟩
  cases hValue : ext.jsonFromStr text with
  | error e =>
      rw [hValue] at hParse
      cases hParse
  | ok v =>
      rw [hValue] at hParse
      rw [← Except.ok.inj hParse]

theorem parseJsonOptional_stored
    {value parsed : Option Json}
    (hReads : ∀ v ∈ value, ext.ReadsJson v)
    (hOk :
      parseJsonOptional ext
        (value.map ext.jsonToString) = .ok parsed) :
    parsed = value := by
  cases value with
  | none => exact (Except.ok.inj hOk).symm
  | some v =>
      rcases bind_ok.mp hOk with ⟨v', hText, hSome⟩
      have hSame := (hReads v rfl).symm.trans
        (parseJsonText_ok hText)
      rw [← Except.ok.inj hSome, Except.ok.inj hSame]

------------------------------------------------------------
-- Decoded Files
------------------------------------------------------------

/- The file of a stamped item. -/
def stampedFile
    (tableUuid : Uuid)
    (s : Stamped FileContents TxnId) : File :=
  { fileUuid := s.item.fileUuid
    tableUuid := tableUuid
    fileFormat := s.item.fileFormat.asStr
    filePath := s.item.filePath
    recordCount := s.item.recordCount
    fileSizeBytes := s.item.fileSizeBytes
    addedInTransactionId := s.opened
    removedInTransactionId := s.closed
    partitionValues := s.item.partitionValues
    formatOptions := s.item.formatOptions }

theorem decodeFile_stampedRow
    {tableUuid : Uuid}
    {s : Stamped FileContents TxnId}
    {file : File}
    (hReads : ∀ v ∈ s.item.jsonValues, ext.ReadsJson v)
    (hOk :
      decodeFile ext (stampedRow ext tableUuid s) =
        .ok file) :
    file = stampedFile tableUuid s := by
  rcases bind_ok.mp hOk with ⟨partition, hPartition, hRest⟩
  rcases bind_ok.mp hRest with ⟨format, hFormat, hFile⟩
  have hPartitionEq :=
    parseJsonOptional_stored
      (fun v hv => hReads v
        (List.mem_append_left _ (by simpa using hv)))
      hPartition
  have hFormatEq :=
    parseJsonOptional_stored
      (fun v hv => hReads v
        (List.mem_append_right _ (by simpa using hv)))
      hFormat
  rw [← Except.ok.inj hFile, hPartitionEq, hFormatEq]
  rfl

/- A list of rows is decoded row by row. -/
theorem decodeFiles_ok
    {rows : List FileRow}
    {files : List File}
    (hOk : decodeFiles ext rows = .ok files) :
    List.Forall₂
      (fun row file => decodeFile ext row = .ok file)
      rows files := by
  induction rows generalizing files with
  | nil =>
      rw [← Except.ok.inj hOk]
      exact .nil
  | cons row rest ih =>
      rcases bind_ok.mp hOk with ⟨file, hFile, hRest⟩
      rcases bind_ok.mp hRest with ⟨files', hFiles, hCons⟩
      rw [← Except.ok.inj hCons]
      exact .cons hFile (ih hFiles)

theorem decodeFiles_of_forall₂
    {rows : List FileRow}
    {files : List File}
    (hRows :
      List.Forall₂
        (fun row file => decodeFile ext row = .ok file)
        rows files) :
    decodeFiles ext rows = .ok files := by
  induction hRows with
  | nil => rfl
  | cons hRow _ ih =>
      exact bind_ok.mpr ⟨_, hRow, bind_ok.mpr ⟨_, ih, rfl⟩⟩

theorem decodeFiles_take
    {rows : List FileRow}
    {files : List File}
    (hOk : decodeFiles ext rows = .ok files)
    (n : Nat) :
    ∃ files', decodeFiles ext (rows.take n) =
      .ok files' := by
  induction rows generalizing n files with
  | nil =>
      rw [List.take_nil]
      exact ⟨files, hOk⟩
  | cons row rest ih =>
      cases n with
      | zero => exact ⟨[], rfl⟩
      | succ n =>
          rcases bind_ok.mp hOk with ⟨file, hFile, hTail⟩
          rcases bind_ok.mp hTail with ⟨rest', hRest, _⟩
          rcases ih hRest n with ⟨files', hFiles⟩
          exact ⟨_, bind_ok.mpr ⟨file, hFile,
            bind_ok.mpr ⟨files', hFiles, rfl⟩⟩⟩

/- The files of the rows, in some order. -/
def FilesOf
    (ext : External)
    (rows : List FileRow)
    (files : List File) : Prop :=
  ∃ decoded,
    decodeFiles ext rows = .ok decoded ∧
      files.Perm decoded

/- Rows in another order have the same files. -/
theorem filesOf_perm
    {rows rows' : List FileRow}
    {files : List File}
    (hPerm : rows.Perm rows')
    (hOk : decodeFiles ext rows = .ok files) :
    FilesOf ext rows' files := by
  rcases List.perm_comp_forall₂ hPerm.symm
    (decodeFiles_ok hOk) with ⟨decoded, hRows, hFiles⟩
  exact ⟨decoded, decodeFiles_of_forall₂ hRows, hFiles.symm⟩

theorem decodeFiles_stampedRows
    {tableUuid : Uuid}
    {items : List (Stamped FileContents TxnId)}
    {files : List File}
    (hReads : ∀ s ∈ items,
      ∀ v ∈ s.item.jsonValues, ext.ReadsJson v)
    (hOk :
      decodeFiles ext
        (items.map (stampedRow ext tableUuid)) =
          .ok files) :
    files = items.map (stampedFile tableUuid) := by
  induction items generalizing files with
  | nil => exact (Except.ok.inj hOk).symm
  | cons s rest ih =>
      rcases bind_ok.mp hOk with ⟨file, hFile, hRest⟩
      rcases bind_ok.mp hRest with ⟨files', hFiles, hCons⟩
      rw [← Except.ok.inj hCons, List.map_cons,
        decodeFile_stampedRow
          (hReads s List.mem_cons_self) hFile,
        ih (fun s' hs' => hReads s'
          (List.mem_cons_of_mem _ hs')) hFiles]

------------------------------------------------------------
-- Decoded Columns
------------------------------------------------------------

/- A row stores what a specification says of a column. -/
structure ColumnRow.Encodes
    (ext : External)
    (row : ColumnRow)
    (c : ColumnSpec) : Prop where
  columnName : row.columnName = c.name
  columnType :
    row.columnType = encodeDataType ext c.columnType
  isNullable : row.isNullable = c.isNullable

theorem encodes_columnRows
    (ext : External)
    (s : SchemaContents) :
    List.Forall₂ (ColumnRow.Encodes ext)
      (s.columnRows ext) s.specs := by
  rw [List.forall₂_iff_get]
  constructor
  · simp [SchemaContents.columnRows, SchemaContents.specs]
  · intro i hRow hSpec
    constructor <;>
      simp [SchemaContents.columnRows, SchemaContents.specs]

theorem decodeColumn_encodes
    {row : ColumnRow}
    {c : ColumnSpec}
    {column : Column}
    (hRow : row.Encodes ext c)
    (hReads : ext.ReadsType c.columnType)
    (hOk : decodeColumn ext row = .ok column) :
    column.spec = c := by
  rcases bind_ok.mp hOk with ⟨columnType, hType, hColumn⟩
  rw [hRow.columnType,
    decodeDataType_encodeDataType hReads] at hType
  rw [← Except.ok.inj hColumn, Column.spec,
    ← Except.ok.inj hType, hRow.columnName,
    hRow.isNullable]

/- The columns of a schema are decoded to its columns. -/
theorem decodeColumns_encodes
    {rows : List ColumnRow}
    {specs : List ColumnSpec}
    {columns : List Column}
    (hRows : List.Forall₂ (ColumnRow.Encodes ext) rows specs)
    (hReads : ∀ c ∈ specs, ext.ReadsType c.columnType)
    (hOk : decodeColumns ext rows = .ok columns) :
    columns.map Column.spec = specs := by
  induction hRows generalizing columns with
  | nil =>
      rw [← Except.ok.inj hOk]
      rfl
  | cons hRow _ ih =>
      rcases bind_ok.mp hOk with ⟨column, hColumn, hRest⟩
      rcases bind_ok.mp hRest with
        ⟨columns', hColumns, hCons⟩
      rw [← Except.ok.inj hCons, List.map_cons,
        decodeColumn_encodes hRow
          (hReads _ List.mem_cons_self) hColumn,
        ih (fun c hc => hReads c
          (List.mem_cons_of_mem _ hc)) hColumns]

------------------------------------------------------------
-- The Columns of a Schema
------------------------------------------------------------

/- Columns are fetched alike where they are the same. -/
theorem exec_fetchColumns_congr
    {db db' : Database}
    {schemaUuid : Uuid}
    (hColumns :
      db'.columnsOf schemaUuid = db.columnsOf schemaUuid)
    (what : String) :
    (fetchColumns ext what schemaUuid).exec db' =
      (fetchColumns ext what schemaUuid).exec db := by
  apply Query.exec_bind_congr
  · simp [selectColumns, hColumns]
  · intro rows _
    split <;> rfl

/-
  Within the limit, the columns of a schema are selected in
  the order of its specification.
-/
theorem selectColumns_eq
    {db : Database}
    {s : SchemaContents}
    (hColumns :
      db.columnsOf s.schemaUuid = s.columnRows ext)
    (hLimit :
      (selectColumns s.schemaUuid db).length ≤
        maxColumnsPerSchema) :
    selectColumns s.schemaUuid db = s.columnRows ext := by
  have hLength : s.columns.length ≤ maxColumnsPerSchema := by
    simp only [selectColumns, hColumns, List.length_take,
      List.length_insertionSort] at hLimit
    simp only [SchemaContents.columnRows,
      List.length_mapIdx] at hLimit
    omega
  have hSorted :
      (s.columnRows ext).Pairwise fun a b =>
        a.ordinalPosition ≤ b.ordinalPosition := by
    rw [List.pairwise_iff_getElem]
    intro i j hi hj hLess
    simp only [SchemaContents.columnRows,
      List.length_mapIdx] at hi hj
    simp only [SchemaContents.columnRows,
      List.getElem_mapIdx]
    unfold maxColumnsPerSchema at hLength
    rw [asI32_of_lt (by omega), asI32_of_lt (by omega)]
    omega
  unfold selectColumns
  rw [hColumns, hSorted.insertionSort_eq,
    List.take_of_length_le]
  simp only [SchemaContents.columnRows,
    List.length_mapIdx]
  omega

end Planar
