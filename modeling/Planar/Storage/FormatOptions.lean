import Planar.Catalog.Error
import Planar.Values.External
import Planar.Values.Scalars

/-
  File formats and the options that a writer accepts.

  Main declarations:
    * `Format`, `Format.asStr`
    * `StorageFault`
    * `parquetParseWriteOptions`, `lanceParseWriteOptions`,
      `vortexParseWriteOptions`
    * `validateFormatOptions`
-/

------------------------------------------------------------
-- Formats and Storage Errors
------------------------------------------------------------

namespace Planar

/- Supported on-disk file formats. -/
inductive Format where
  | parquet
  | lance
  | vortex
  deriving DecidableEq

/- The canonical lowercase format name. -/
def Format.asStr : Format → String
| .parquet => "parquet"
| .lance => "lance"
| .vortex => "vortex"

/-
  The storage error that parsing options can return, or the
  panic of an assertion in an option builder.
-/
inductive StorageFault where
  | unsupported (message : String)
  | panicked (message : String)
  deriving DecidableEq

abbrev StorageResult (α : Type) := Except StorageFault α

/- Fail because something is not supported. -/
def unsupported
    {α : Type}
    (message : String) : StorageResult α :=
  .error (.unsupported message)

/- The displayed form of `StorageError::Unsupported`. -/
def unsupportedText (message : String) : String :=
  "Unsupported operation: " ++ message

/- Parse a JSON value as a `usize` for an option key. -/
def parseUsize
    (key : String)
    (value : Json) : StorageResult UInt64 :=
  match value.asU64 with
  | some v => .ok v
  | none => unsupported s!"{key} must be an integer"

/- Parse a JSON value as a string for an option key. -/
def parseString
    (key : String)
    (value : Json) : StorageResult String :=
  match value.asStr with
  | some v => .ok v
  | none => unsupported s!"{key} must be a string"

/- Parse a JSON value as a bool for an option key. -/
def parseBool
    (key : String)
    (value : Json) : StorageResult Bool :=
  match value.asBool with
  | some v => .ok v
  | none => unsupported s!"{key} must be a bool"

/- The entries of an options object. -/
def optionEntries
    (options : Json) :
    StorageResult (List (String × Json)) :=
  match options.asObject with
  | some entries => .ok entries
  | none =>
      unsupported "format_options must be a JSON object"

------------------------------------------------------------
-- Parquet
------------------------------------------------------------

inductive Compression where
  | uncompressed
  | snappy
  | gzip
  | brotli
  | lz4
  | zstd
  deriving DecidableEq

inductive BloomFilterPosition where
  | afterRowGroup
  | end
  deriving DecidableEq

/- The writer properties that options can set. -/
structure WriterProperties where
  compression : Option Compression := none
  maxRowGroupSize : Option UInt64 := none
  dataPageSizeLimit : Option UInt64 := none
  dataPageRowCountLimit : Option UInt64 := none
  writeBatchSize : Option UInt64 := none
  writerVersion : Option WriterVersion := none
  bloomFilterPosition : Option BloomFilterPosition := none
  createdBy : Option String := none
  offsetIndexDisabled : Option Bool := none
  deriving DecidableEq

/- The setter asserts that the size is not zero. -/
def setMaxRowGroupSize
    (builder : WriterProperties)
    (size : UInt64) : StorageResult WriterProperties :=
  if 0 < size then
    .ok { builder with maxRowGroupSize := some size }
  else
    .error (.panicked
      "Cannot have a 0 max row group size")

def parseCompression
    (value : String) : StorageResult Compression :=
  let lower := toLowercase value
  if lower = "uncompressed" ∨ lower = "none" then
    .ok .uncompressed
  else if lower = "snappy" then .ok .snappy
  else if lower = "gzip" then .ok .gzip
  else if lower = "brotli" then .ok .brotli
  else if lower = "lz4" then .ok .lz4
  else if lower = "zstd" then .ok .zstd
  else unsupported s!"Unsupported compression: {lower}"

def parseWriterVersion
    (ext : External)
    (value : String) : StorageResult WriterVersion :=
  match ext.writerVersionFromStr value with
  | .ok version => .ok version
  | .error message => unsupported message

def parseBloomFilterPosition
    (value : String) : StorageResult BloomFilterPosition :=
  let lower := toLowercase value
  if lower = "afterrowgroup" ∨
      lower = "after_row_group" then
    .ok .afterRowGroup
  else if lower = "end" then .ok .end
  else
    unsupported
      s!"Unsupported bloom_filter_position: {lower}"

/- One option of a Parquet writer. -/
def parquetParseOption
    (ext : External)
    (builder : WriterProperties)
    (entry : String × Json) :
    StorageResult WriterProperties :=
  let (key, value) := entry
  match key with
  | "compression" => do
      let val ← parseString key value
      let compression ← parseCompression val
      pure { builder with compression := some compression }
  | "max_row_group_size" => do
      let size ← parseUsize key value
      setMaxRowGroupSize builder size
  | "data_page_size_limit" => do
      let size ← parseUsize key value
      pure { builder with dataPageSizeLimit := some size }
  | "data_page_row_count_limit" => do
      let count ← parseUsize key value
      pure
        { builder with dataPageRowCountLimit := some count }
  | "write_batch_size" => do
      let size ← parseUsize key value
      pure { builder with writeBatchSize := some size }
  | "writer_version" => do
      let val ← parseString key value
      let version ← parseWriterVersion ext val
      pure { builder with writerVersion := some version }
  | "bloom_filter_position" => do
      let val ← parseString key value
      let position ← parseBloomFilterPosition val
      pure
        { builder with bloomFilterPosition := some position }
  | "created_by" => do
      let val ← parseString key value
      pure { builder with createdBy := some val }
  | "offset_index_disabled" => do
      let val ← parseBool key value
      pure { builder with offsetIndexDisabled := some val }
  | _ =>
      unsupported
        s!"Unsupported option '{key}' for format 'parquet'"

/- Parse Parquet writer options from JSON. -/
def parquetParseWriteOptions
    (ext : External) :
    Option Json → StorageResult WriterProperties
| none => .ok {}
| some options => do
    let object ← optionEntries options
    object.foldlM (parquetParseOption ext) {}

------------------------------------------------------------
-- Lance
------------------------------------------------------------

/- The write parameters that options can set. -/
structure WriteParams where
  maxRowsPerFile : Option UInt64 := none
  maxRowsPerGroup : Option UInt64 := none
  maxBytesPerFile : Option UInt64 := none
  mode : Option WriteMode := none
  enableStableRowIds : Option Bool := none
  enableV2ManifestPaths : Option Bool := none
  deriving DecidableEq

def parseWriteMode
    (ext : External)
    (value : String) : StorageResult WriteMode :=
  match ext.writeModeTryFrom value with
  | some mode => .ok mode
  | none => unsupported s!"Unsupported write mode: {value}"

/- One option of a Lance writer. -/
def lanceParseOption
    (ext : External)
    (params : WriteParams)
    (entry : String × Json) : StorageResult WriteParams :=
  let (key, value) := entry
  match key with
  | "max_rows_per_file" => do
      let rows ← parseUsize key value
      pure { params with maxRowsPerFile := some rows }
  | "max_rows_per_group" => do
      let rows ← parseUsize key value
      pure { params with maxRowsPerGroup := some rows }
  | "max_bytes_per_file" => do
      let bytes ← parseUsize key value
      pure { params with maxBytesPerFile := some bytes }
  | "mode" => do
      let val ← parseString key value
      let mode ← parseWriteMode ext val
      pure { params with mode := some mode }
  | "enable_stable_row_ids" => do
      let val ← parseBool key value
      pure { params with enableStableRowIds := some val }
  | "enable_v2_manifest_paths" => do
      let val ← parseBool key value
      pure { params with enableV2ManifestPaths := some val }
  | _ =>
      unsupported
        s!"Unsupported option '{key}' for format 'lance'"

/- Parse Lance write parameters from JSON. -/
def lanceParseWriteOptions
    (ext : External) :
    Option Json → StorageResult WriteParams
| none => .ok {}
| some options => do
    let object ← optionEntries options
    object.foldlM (lanceParseOption ext) {}

------------------------------------------------------------
-- Vortex
------------------------------------------------------------

/- Whether the options leave the dtype out of the file. -/
structure VortexWriteOptions where
  excludeDtype : Bool := false
  deriving DecidableEq

/- One option of a Vortex writer. -/
def vortexParseOption
    (parsed : VortexWriteOptions)
    (entry : String × Json) :
    StorageResult VortexWriteOptions :=
  let (key, value) := entry
  match key with
  | "exclude_dtype" => do
      let val ← parseBool key value
      if val then pure { parsed with excludeDtype := true }
      else pure parsed
  | _ =>
      unsupported
        s!"Unsupported option '{key}' for format 'vortex'"

/- Parse Vortex write options from JSON. -/
def vortexParseWriteOptions :
    Option Json → StorageResult VortexWriteOptions
| none => .ok {}
| some options => do
    let object ← optionEntries options
    object.foldlM vortexParseOption {}

------------------------------------------------------------
-- Validation
------------------------------------------------------------

/-
  Validate the options of a file with the parser that its
  writer uses.
-/
def validateFormatOptions
    (ext : External)
    (fileFormat : String)
    (options : Json) : StorageResult Unit :=
  match toLowercase fileFormat with
  | "parquet" => do
      let _ ← parquetParseWriteOptions ext (some options)
      pure ()
  | "lance" => do
      let _ ← lanceParseWriteOptions ext (some options)
      pure ()
  | "vortex" => do
      let _ ← vortexParseWriteOptions (some options)
      pure ()
  | other =>
      unsupported s!"Unsupported file format: {other}"

end Planar
