import Planar.Storage.FormatOptions
import Planar.Storage.StreamWriters

/-
  Dispatch over the three file formats: names of formats,
  readers and writers, and the calls of a writer.

  Main declarations:
    * `Format.fromStr`, `ReaderEnum.fromStr`,
      `WriterEnum.fromStr`
    * `FormatWriteOptions`, `Format.parseWriteOptions`
    * `FormatLibraries`, `Written`
    * `WriterEnum.write`, `WriterEnum.writeWithOptions`,
      `WriterEnum.WriteStream`
-/

------------------------------------------------------------
-- Names of Formats
------------------------------------------------------------

namespace Planar

section Names

variable {χ : Type}

/- The format with a name, in any case. -/
def Format.fromStr
    (s : String) : Except (StorageError χ) Format :=
  let lower := toLowercase s
  if lower = "parquet" then .ok .parquet
  else if lower = "lance" then .ok .lance
  else if lower = "vortex" then .ok .vortex
  else
    .error (.unsupported
      (s!"File format '{s}' is not supported. " ++
        "Supported formats: parquet, lance, vortex"))

/- Reader dispatch over supported formats. -/
inductive ReaderEnum where
  | parquet
  | lance
  | vortex
  deriving DecidableEq

def ReaderEnum.new : Format → ReaderEnum
| .parquet => .parquet
| .lance => .lance
| .vortex => .vortex

def ReaderEnum.fromStr
    (formatStr : String) :
    Except (StorageError χ) ReaderEnum := do
  let format ← Format.fromStr formatStr
  pure (.new format)

/- Writer dispatch over supported formats. -/
inductive WriterEnum where
  | parquet
  | lance
  | vortex
  deriving DecidableEq

def WriterEnum.new : Format → WriterEnum
| .parquet => .parquet
| .lance => .lance
| .vortex => .vortex

def WriterEnum.fromStr
    (formatStr : String) :
    Except (StorageError χ) WriterEnum := do
  let format ← Format.fromStr formatStr
  pure (.new format)

end Names

------------------------------------------------------------
-- Write Options
------------------------------------------------------------

/- Format-specific write options. -/
inductive FormatWriteOptions where
  | parquet (options : WriterProperties)
  | lance (options : WriteParams)
  | vortex (options : VortexWriteOptions)
  deriving DecidableEq

/- What the parser of a format makes of its options. -/
def Format.parseWriteOptions
    (ext : External)
    (format : Format)
    (options : Option Json) :
    StorageResult FormatWriteOptions :=
  match format with
  | .parquet =>
      (parquetParseWriteOptions ext options).map .parquet
  | .lance =>
      (lanceParseWriteOptions ext options).map .lance
  | .vortex =>
      (vortexParseWriteOptions options).map .vortex

/- The options are for the format of the writer. -/
def WriterEnum.takes :
    WriterEnum → FormatWriteOptions → Bool
| .parquet, .parquet _ => true
| .lance, .lance _ => true
| .vortex, .vortex _ => true
| _, _ => false

------------------------------------------------------------
-- Calls of a Writer
------------------------------------------------------------

variable {σ ρ α δ η χ : Type}

/- The writers of the libraries, by their options. -/
structure FormatLibraries (σ ρ α χ : Type) where
  parquet :
    WriterProperties →
      FormatWriter Empty (RecordBatch σ ρ) χ
  lance :
    WriteParams →
      FormatWriter (ArrowError χ) (RecordBatch σ ρ) χ
  vortex :
    VortexWriteOptions → FormatWriter (IoError χ) α χ

/- What a call returns, and what is at the path then. -/
structure Written (χ : Type) where
  result : Except (StorageError χ) Unit
  content : Content

def Outcome.written (o : Outcome η α χ) : Written χ :=
  ⟨o.result, o.content⟩

/- The options are for another format. -/
def optionsMismatch (prior : Content) : Written χ :=
  ⟨.error (.unsupported
    "write options do not match writer format"), prior⟩

/- The file is created, and the one batch is written. -/
def parquetWriteWithOptions
    (writer : FormatWriter Empty (RecordBatch σ ρ) χ)
    (batch : RecordBatch σ ρ)
    (prior : Content) :
    Outcome Empty (RecordBatch σ ρ) χ :=
  let file := createFile prior
  let handed := [.ok batch]
  ⟨handed, .ok (), writer.leaves handed (.ok ()) file⟩

/- The dataset is written from an iterator of one batch. -/
def lanceWriteWithOptions
    (writer :
      FormatWriter (ArrowError χ) (RecordBatch σ ρ) χ)
    (batch : RecordBatch σ ρ)
    (prior : Content) :
    Outcome (ArrowError χ) (RecordBatch σ ρ) χ :=
  let (handed, result) := writer.pull [.ok batch]
  ⟨handed, result, writer.leaves handed result prior⟩

/- The file is created, and the array is its own stream. -/
def vortexWriteWithOptions
    (fromArrow : RecordBatch σ ρ → α)
    (writer : FormatWriter (IoError χ) α χ)
    (batch : RecordBatch σ ρ)
    (prior : Content) : Outcome (IoError χ) α χ :=
  let vortexArray := fromArrow batch
  let (handed, result) := writer.pull [.ok vortexArray]
  ⟨handed, result,
    writer.leaves handed result (createFile prior)⟩

namespace WriterEnum

section Calls

variable
  (libraries : FormatLibraries σ ρ α χ)
  (fromArrow : RecordBatch σ ρ → α)

/- Write one batch with options of the active format. -/
def writeWithOptions
    (self : WriterEnum)
    (batch : RecordBatch σ ρ)
    (options : FormatWriteOptions)
    (prior : Content) : Written χ :=
  match self, options with
  | .parquet, .parquet options =>
      (parquetWriteWithOptions (libraries.parquet options)
        batch prior).written
  | .lance, .lance options =>
      (lanceWriteWithOptions (libraries.lance options)
        batch prior).written
  | .vortex, .vortex options =>
      (vortexWriteWithOptions fromArrow
        (libraries.vortex options) batch prior).written
  | _, _ => optionsMismatch prior

/- Write one batch with the default options. -/
def write
    (self : WriterEnum)
    (batch : RecordBatch σ ρ)
    (prior : Content) : Written χ :=
  match self with
  | .parquet =>
      (parquetWriteWithOptions (libraries.parquet {}) batch
        prior).written
  | .lance =>
      (lanceWriteWithOptions (libraries.lance {}) batch
        prior).written
  | .vortex =>
      (vortexWriteWithOptions fromArrow
        (libraries.vortex {}) batch prior).written

variable
  [DecidableEq σ] [ToString σ]
  [DecidableEq δ] [ToString δ]
  (dtype : α → δ)

/-
  Write a stream with options of the active format.  A call
  of the Lance writer runs two tasks, so that a call has the
  ends that some order of their steps leads to.
-/
inductive WriteStream
    (stream : RecordBatchStream σ ρ χ)
    (prior : Content) :
    WriterEnum → FormatWriteOptions → Written χ → Prop
  | parquet {options : WriterProperties} :
      WriteStream stream prior .parquet (.parquet options)
        (parquetWriteStream (libraries.parquet options)
          stream prior).written
  | lance {options : WriteParams}
      {o : Outcome (ArrowError χ) (RecordBatch σ ρ) χ}
      (hReturns :
        LanceWriteStream (libraries.lance options) prior
          stream o) :
      WriteStream stream prior .lance (.lance options)
        o.written
  | vortex {options : VortexWriteOptions} :
      WriteStream stream prior .vortex (.vortex options)
        (vortexWriteStream fromArrow dtype
          (libraries.vortex options) stream prior).written
  | mismatch {self : WriterEnum}
      {options : FormatWriteOptions}
      (hOther : self.takes options = false) :
      WriteStream stream prior self options
        (optionsMismatch prior)

end Calls

end WriterEnum

end Planar
