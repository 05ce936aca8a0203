import Planar.Catalog.Limits
import Planar.Storage.FormatOptions

/-
  The arguments of catalog calls and their validation.

  Main declarations:
    * `TableIdent`, `TableProperties`, `PropertyKey`
    * `ColumnSpec`, `SchemaSpec`, `SchemaSpec.validate`
    * `FileSpec`, `FileSpec.validate`
    * `MutationOp`, `Mutation`, `Mutation.validate`
    * `SqlCatalog` and its protocol checks
-/

------------------------------------------------------------
-- Identifiers and Properties
------------------------------------------------------------

namespace Planar

/- Logical table identifier, shown as `{namespace}.{name}`. -/
structure TableIdent where
  tableNamespace : String
  name : String
  deriving DecidableEq

def TableIdent.toText (ident : TableIdent) : String :=
  s!"{ident.tableNamespace}.{ident.name}"

/-
  Table properties: the entries of a JSON object, with
  distinct keys in their order.
-/
structure TableProperties where
  values : List (String × Json) := []
  deriving DecidableEq

namespace TableProperties

/- Parse table properties from JSON, requiring an object. -/
def fromJson : Json → Result TableProperties
| .object entries => .ok ⟨entries.toList⟩
| _ =>
    fault (.invalidArgument
      "table properties must be a JSON object")

/- The properties as a JSON object value. -/
def toJson (properties : TableProperties) : Json :=
  .object (JsonEntries.ofList properties.values)

/- Remove a property key if present. -/
def remove
    (properties : TableProperties)
    (key : String) : TableProperties :=
  ⟨properties.values.filter fun entry => entry.1 ≠ key⟩

@[simp] theorem fromJson_toJson
    (properties : TableProperties) :
    fromJson properties.toJson = .ok properties := by
  simp [fromJson, toJson]

end TableProperties

/- A property key is not blank. -/
structure PropertyKey where
  key : String
  nonblank : isBlank key = false
  deriving DecidableEq

/- Create a validated property key. -/
def PropertyKey.new (key : String) : Result PropertyKey :=
  if hBlank : isBlank key = true then
    fault (.invalidArgument "property key cannot be empty")
  else
    .ok ⟨key, by simpa using hBlank⟩

------------------------------------------------------------
-- Schema Specifications
------------------------------------------------------------

/- Column specification for schema creation. -/
structure ColumnSpec where
  name : String
  columnType : DataType
  isNullable : Bool
  deriving DecidableEq

/- A column is non-nullable by default. -/
def ColumnSpec.new
    (name : String)
    (columnType : DataType) : ColumnSpec :=
  ⟨name, columnType, false⟩

/- Mark the column as nullable. -/
def ColumnSpec.nullable (column : ColumnSpec) : ColumnSpec :=
  { column with isNullable := true }

/- Schema specification of a created or evolved table. -/
structure SchemaSpec where
  columns : List ColumnSpec := []
  deriving DecidableEq

namespace SchemaSpec

/-
  The loop over the columns, with the set of names seen so
  far.
-/
def validateColumns
    (seen : List String) :
    List ColumnSpec → Result Unit
| [] => .ok ()
| column :: rest =>
    if isBlank column.name then
      fault (.invalidArgument "column name cannot be empty")
    else if column.name ∈ seen then
      fault (.invalidArgument
        s!"duplicate column name: '{column.name}'")
    else
      validateColumns (column.name :: seen) rest

/- Validate schema shape and column naming constraints. -/
def validate (spec : SchemaSpec) : Result Unit :=
  if spec.columns.isEmpty then
    fault (.invalidArgument
      "schema must include at least one column")
  else if
      asU32 spec.columns.length > maxColumnsPerSchema then
    fault (.limitExceeded
      (s!"schema has {spec.columns.length} columns, " ++
        s!"exceeds limit of {maxColumnsPerSchema}"))
  else
    validateColumns [] spec.columns

/- What the loop over the columns accepts. -/
theorem validateColumns_ok
    {seen : List String}
    {columns : List ColumnSpec}
    (hOk : validateColumns seen columns = .ok ()) :
    (columns.map ColumnSpec.name).Nodup ∧
      ∀ column ∈ columns, column.name ∉ seen := by
  induction columns generalizing seen with
  | nil => simp
  | cons column rest ih =>
      unfold validateColumns at hOk
      split at hOk
      · cases hOk
      split at hOk
      · cases hOk
      rename_i hSeen
      rcases ih hOk with ⟨hNodup, hRest⟩
      refine ⟨?_, ?_⟩
      · rw [List.map_cons, List.nodup_cons]
        refine ⟨?_, hNodup⟩
        intro hMember
        rcases List.mem_map.mp hMember with
          ⟨other, hOther, hName⟩
        exact hRest other hOther (by simp [hName])
      · intro other hOther
        rcases List.mem_cons.mp hOther with rfl | hOther
        · exact hSeen
        · intro hName
          exact hRest other hOther
            (List.mem_cons_of_mem _ hName)

/-
  An accepted specification has columns of distinct names,
  and their number is at most the limit after the cast.
-/
theorem validate_ok
    {spec : SchemaSpec}
    (hOk : spec.validate = .ok ()) :
    spec.columns ≠ [] ∧
      asU32 spec.columns.length ≤ maxColumnsPerSchema ∧
      (spec.columns.map ColumnSpec.name).Nodup := by
  unfold validate at hOk
  split at hOk
  · cases hOk
  rename_i hNonempty
  split at hOk
  · cases hOk
  rename_i hLimit
  exact ⟨by simpa using hNonempty, by omega,
    (validateColumns_ok hOk).1⟩

end SchemaSpec

------------------------------------------------------------
-- File Specifications
------------------------------------------------------------

/- File metadata supplied by mutation operations. -/
structure FileSpec where
  fileUuid : Option Uuid
  fileFormat : Format
  filePath : String
  recordCount : Int64
  fileSizeBytes : Int64
  partitionValues : Option Json
  formatOptions : Option Json
  deriving DecidableEq

/- An option fault seen by the catalog. -/
def StorageFault.asInvalidArgument : StorageFault → Fault
| .unsupported message =>
    .returned (.invalidArgument (unsupportedText message))
| .panicked message => .panicked message

namespace FileSpec

/- The partition values, when given, are an object. -/
def validatePartitionValues : Option Json → Result Unit
| none => .ok ()
| some partitionValues =>
    if partitionValues.isObject then .ok ()
    else
      fault (.invalidArgument
        "partition_values must be a JSON object")

/- The options, when given, are an object of known options. -/
def validateOptions
    (ext : External)
    (fileFormat : Format) :
    Option Json → Result Unit
| none => .ok ()
| some formatOptions =>
    if formatOptions.isObject then
      (validateFormatOptions ext fileFormat.asStr
        formatOptions).mapError
          StorageFault.asInvalidArgument
    else
      fault (.invalidArgument
        "format_options must be a JSON object")

/- Validate file metadata shape and bounds. -/
def validate
    (ext : External)
    (spec : FileSpec) : Result Unit := do
  if isBlank spec.filePath then
    fault (.invalidArgument "file path cannot be empty")
  if spec.recordCount < 0 then
    fault (.invalidArgument
      "record_count cannot be negative")
  if spec.fileSizeBytes < 0 then
    fault (.invalidArgument
      "file_size_bytes cannot be negative")
  validatePartitionValues spec.partitionValues
  validateOptions ext spec.fileFormat spec.formatOptions

end FileSpec

------------------------------------------------------------
-- Mutations
------------------------------------------------------------

/- Atomic table mutation operation. -/
inductive MutationOp where
  | appendFiles (files : List FileSpec)
  | deleteFiles (fileUuids : List Uuid)
  | updateSchema (schema : SchemaSpec)
  | setProperties (properties : TableProperties)
  | removeProperties (keys : List PropertyKey)
  deriving DecidableEq

/- Operations applied atomically in one commit. -/
structure Mutation where
  operations : List MutationOp := []
  deriving DecidableEq

/-
  A loop that collects values in a set and fails at the
  first one that it has seen.
-/
def rejectDuplicates
    {α : Type}
    [DecidableEq α]
    (message : α → String)
    (seen : List α) : List α → Result Unit
| [] => .ok ()
| value :: rest =>
    if value ∈ seen then
      fault (.invalidArgument (message value))
    else
      rejectDuplicates message (value :: seen) rest

namespace Mutation

/- The loop over the operations, with its two counters. -/
def validateOps
    (updateSchemaOps setPropertiesOps : Nat) :
    List MutationOp → Result Unit
| [] => .ok ()
| .updateSchema _ :: rest =>
    if updateSchemaOps + 1 > 1 then
      fault (.invalidArgument
        ("mutation can include at most one " ++
          "UpdateSchema operation"))
    else
      validateOps (updateSchemaOps + 1)
        setPropertiesOps rest
| .setProperties _ :: rest =>
    if setPropertiesOps + 1 > 1 then
      fault (.invalidArgument
        ("mutation can include at most one " ++
          "SetProperties operation"))
    else
      validateOps updateSchemaOps
        (setPropertiesOps + 1) rest
| .deleteFiles fileUuids :: rest => do
    rejectDuplicates
      (fun fileUuid =>
        "duplicate file UUID in DeleteFiles: " ++
          hyphenated fileUuid)
      [] fileUuids
    validateOps updateSchemaOps setPropertiesOps rest
| .removeProperties keys :: rest => do
    rejectDuplicates
      (fun key =>
        "duplicate property key in RemoveProperties: " ++
          key)
      [] (keys.map PropertyKey.key)
    validateOps updateSchemaOps setPropertiesOps rest
| .appendFiles _ :: rest =>
    validateOps updateSchemaOps setPropertiesOps rest

/- Validate mutation semantics before persistence. -/
def validate (mutation : Mutation) : Result Unit :=
  validateOps 0 0 mutation.operations

end Mutation

/- The operation replaces the schema. -/
def MutationOp.isUpdateSchema : MutationOp → Bool
| .updateSchema _ => true
| _ => false

/-
  The validation lets at most one schema update through,
  together with those counted before.
-/
theorem Mutation.validateOps_updates
    {updates sets : Nat}
    {operations : List MutationOp}
    (hCount : updates ≤ 1)
    (hOk :
      Mutation.validateOps updates sets operations =
        .ok ()) :
    updates +
      (operations.filter
        MutationOp.isUpdateSchema).length ≤ 1 := by
  induction operations generalizing updates sets with
  | nil => simpa using hCount
  | cons op rest ih =>
      cases op with
      | updateSchema schema =>
          unfold Mutation.validateOps at hOk
          split at hOk
          · cases hOk
          have hRest := ih (by omega) hOk
          simp only [List.filter_cons,
            MutationOp.isUpdateSchema, if_true,
            List.length_cons]
          omega
      | setProperties properties =>
          unfold Mutation.validateOps at hOk
          split at hOk
          · cases hOk
          simpa [MutationOp.isUpdateSchema] using
            ih hCount hOk
      | deleteFiles fileUuids =>
          unfold Mutation.validateOps at hOk
          rcases hFirst : rejectDuplicates _ [] fileUuids
            with fault | u <;> rw [hFirst] at hOk
          · cases hOk
          · simpa [MutationOp.isUpdateSchema] using
              ih hCount hOk
      | removeProperties keys =>
          unfold Mutation.validateOps at hOk
          rcases hFirst : rejectDuplicates _ []
            (keys.map PropertyKey.key)
            with fault | u <;> rw [hFirst] at hOk
          · cases hOk
          · simpa [MutationOp.isUpdateSchema] using
              ih hCount hOk
      | appendFiles files =>
          unfold Mutation.validateOps at hOk
          simpa [MutationOp.isUpdateSchema] using
            ih hCount hOk

theorem Mutation.validate_updates
    {mutation : Mutation}
    (hOk : mutation.validate = .ok ()) :
    (mutation.operations.filter
      MutationOp.isUpdateSchema).length ≤ 1 := by
  simpa using
    Mutation.validateOps_updates (Nat.zero_le 1) hOk

------------------------------------------------------------
-- Catalog Instances
------------------------------------------------------------

/- Client protocol versions of a catalog instance. -/
structure ProtocolVersions where
  reader : Int := 1
  writer : Int := 1
  deriving DecidableEq

/- A catalog instance: its backend and its client versions. -/
structure SqlCatalog where
  kind : DbKind
  clientProtocol : ProtocolVersions := {}
  deriving DecidableEq

namespace SqlCatalog

def readerVersion (catalog : SqlCatalog) : Int :=
  catalog.clientProtocol.reader

def writerVersion (catalog : SqlCatalog) : Int :=
  catalog.clientProtocol.writer

def ensureReaderProtocolCompatible
    (catalog : SqlCatalog)
    (ident : TableIdent)
    (requiredMinVersion : Int) : Result Unit :=
  if catalog.readerVersion < requiredMinVersion then
    fault (.protocolVersionIncompatible "read"
      ident.toText catalog.readerVersion requiredMinVersion)
  else .ok ()

def ensureWriterProtocolCompatible
    (catalog : SqlCatalog)
    (ident : TableIdent)
    (requiredMinVersion : Int) : Result Unit :=
  if catalog.writerVersion < requiredMinVersion then
    fault (.protocolVersionIncompatible "write"
      ident.toText catalog.writerVersion requiredMinVersion)
  else .ok ()

theorem ensureReaderProtocolCompatible_ok
    {catalog : SqlCatalog}
    {ident : TableIdent}
    {requiredMinVersion : Int}
    {u : Unit} :
    catalog.ensureReaderProtocolCompatible ident
        requiredMinVersion = .ok u ↔
      requiredMinVersion ≤ catalog.readerVersion := by
  unfold ensureReaderProtocolCompatible
  by_cases hOld : catalog.readerVersion < requiredMinVersion
  · simp [hOld, fault]
  · simp only [hOld, ↓reduceIte, true_iff]
    omega

end SqlCatalog

end Planar
