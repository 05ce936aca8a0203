import Planar.Foundations.Channel

/-
  The stream writers of the three file formats.

  A stream is finite, its items are record batches or
  errors. The writers of the format libraries stand outside:
  they pull until the end of what they are given or until an
  error, on which they fail.

  Main declarations:
    * `RecordBatch`, `StorageError`, `Outcome`
    * `FormatWriter`, `FormatWriter.pull`
    * `parquetWriteStream`
    * `Pump`, `DatasetWrite`, `LanceWriteStream`
    * `vortexWriteStream`
-/

------------------------------------------------------------
-- Batches and Errors
------------------------------------------------------------

namespace Planar

/- A schema and the columns that have it. -/
structure RecordBatch (σ ρ : Type) where
  schema : σ
  columns : ρ
  deriving DecidableEq

/- The errors of storage, the ones of libraries included. -/
inductive StorageError (χ : Type) where
  | library (error : χ)
  | invalidInput (message : String)
  | unsupported (message : String)
  deriving DecidableEq

variable {σ ρ α δ η χ : Type}

abbrev RecordBatchStream (σ ρ χ : Type) :=
  List (Except (StorageError χ) (RecordBatch σ ρ))

/- What the file at a path holds, if there is a file. -/
abbrev Content := Option (List UInt8)

/- An existing file is truncated. -/
def createFile (_prior : Content) : Content := some []

/-
  What a call has handed to the writer of the format, what
  it returns, and what is at the path afterwards.
-/
structure Outcome (η α χ : Type) where
  handed : List (Except η α)
  result : Except (StorageError χ) Unit
  content : Content

def noBatches : StorageError χ :=
  .invalidInput
    "write_stream requires at least one RecordBatch"

def schemaMismatch
    [ToString σ]
    (expected actual : σ) : String :=
  s!"Schema mismatch in stream: expected {expected}, got " ++
    toString actual

/-
  The writer of a format: the error it fails with on an
  error item, and what it leaves at a path.
-/
structure FormatWriter (η α χ : Type) where
  fails : η → χ
  leaves :
    List (Except η α) → Except (StorageError χ) Unit →
      Content → Content

/- What the writer pulls, and how it ends. -/
def FormatWriter.pull
    (writer : FormatWriter η α χ) :
    List (Except η α) →
      List (Except η α) × Except (StorageError χ) Unit
| [] => ([], .ok ())
| .error e :: _ =>
    ([.error e], .error (.library (writer.fails e)))
| .ok a :: rest =>
    let (handed, result) := writer.pull rest
    (.ok a :: handed, result)

------------------------------------------------------------
-- Parquet
------------------------------------------------------------

/- Write the batches one by one, then close the writer. -/
def parquetLoop
    [DecidableEq σ] [ToString σ]
    (expectedSchema : σ) :
    RecordBatchStream σ ρ χ →
      List (RecordBatch σ ρ) × Except (StorageError χ) Unit
| [] => ([], .ok ())
| .error e :: _ => ([], .error e)
| .ok batch :: rest =>
    if batch.schema ≠ expectedSchema then
      ([], .error (.unsupported
        (schemaMismatch expectedSchema batch.schema)))
    else
      let (written, result) :=
        parquetLoop expectedSchema rest
      (batch :: written, result)

/- The file is created before the first item is pulled. -/
def parquetWriteStream
    [DecidableEq σ] [ToString σ]
    (writer : FormatWriter Empty (RecordBatch σ ρ) χ)
    (stream : RecordBatchStream σ ρ χ)
    (prior : Content) :
    Outcome Empty (RecordBatch σ ρ) χ :=
  let file := createFile prior
  match stream with
  | [] => ⟨[], .error noBatches, file⟩
  | .error e :: _ => ⟨[], .error e, file⟩
  | .ok first :: rest =>
      let (written, result) :=
        parquetLoop first.schema rest
      let handed := (first :: written).map .ok
      ⟨handed, result, writer.leaves handed result file⟩

------------------------------------------------------------
-- Lance
------------------------------------------------------------

inductive ArrowError (χ : Type) where
  | externalError (source : StorageError χ)
  deriving DecidableEq

abbrev LanceItem (σ ρ χ : Type) :=
  Except (ArrowError χ) (RecordBatch σ ρ)

/-
  The spawned task: at the head of its loop, waiting to send
  and then going on with the rest or returning, returning,
  or returned with its sender dropped.
-/
inductive Pump (σ ρ χ : Type) where
  | pulling (rest : RecordBatchStream σ ρ χ)
  | sending
      (item : LanceItem σ ρ χ)
      (rest : Option (RecordBatchStream σ ρ χ))
  | returning
  | returned

def Pump.next
    [DecidableEq σ] [ToString σ]
    (expectedSchema : σ) :
    Pump σ ρ χ → Sending (Pump σ ρ χ) (LanceItem σ ρ χ)
| .pulling [] => .work .returning
| .pulling (.ok batch :: rest) =>
    if batch.schema ≠ expectedSchema then
      .work (.sending
        (.error (.externalError (.invalidInput
          (schemaMismatch expectedSchema batch.schema))))
        none)
    else .work (.sending (.ok batch) (some rest))
| .pulling (.error e :: _) =>
    .work (.sending (.error (.externalError e)) none)
| .sending item (some rest) =>
    .send item (.pulling rest) .returning
| .sending item none => .send item .returning .returning
| .returning => .work .returned
| .returned => .gone

/- Besides these it holds the receiver of the channel. -/
structure StreamRecordBatchReader (σ ρ χ : Type) where
  schema : σ
  first : Option (LanceItem σ ρ χ)

def StreamRecordBatchReader.new
    (schema : σ)
    (first : RecordBatch σ ρ) :
    StreamRecordBatchReader σ ρ χ :=
  ⟨schema, some (.ok first)⟩

/- The blocking task that writes the dataset. -/
inductive DatasetWrite (σ ρ χ : Type) where
  | pulling
      (reader : StreamRecordBatchReader σ ρ χ)
      (handed : List (LanceItem σ ρ χ))
  | returning
      (handed : List (LanceItem σ ρ χ))
      (result : Except (StorageError χ) Unit)
  | returned
      (handed : List (LanceItem σ ρ χ))
      (result : Except (StorageError χ) Unit)

/- The writer goes on with what the reader yields. -/
def DatasetWrite.yielded
    (writer :
      FormatWriter (ArrowError χ) (RecordBatch σ ρ) χ)
    (reader : StreamRecordBatchReader σ ρ χ)
    (handed : List (LanceItem σ ρ χ)) :
    Option (LanceItem σ ρ χ) → DatasetWrite σ ρ χ
| none => .returning handed (.ok ())
| some (.ok batch) =>
    .pulling reader (handed ++ [.ok batch])
| some (.error e) =>
    .returning (handed ++ [.error e])
      (.error (.library (writer.fails e)))

/- The reader yields `first`, then what it receives. -/
def DatasetWrite.next
    (writer :
      FormatWriter (ArrowError χ) (RecordBatch σ ρ) χ) :
    DatasetWrite σ ρ χ →
      Receiving (DatasetWrite σ ρ χ) (LanceItem σ ρ χ)
| .pulling reader handed =>
    match reader.first with
    | some first =>
        .work (yielded writer { reader with first := none }
          handed (some first))
    | none => .receive (yielded writer reader handed)
| .returning handed result => .work (.returned handed result)
| .returned _ _ => .gone

/- Both tasks right after they have been spawned. -/
def lanceTasks
    (first : RecordBatch σ ρ)
    (rest : RecordBatchStream σ ρ χ) :
    Piped (Pump σ ρ χ) (DatasetWrite σ ρ χ)
      (LanceItem σ ρ χ) :=
  ⟨.pulling rest, [],
    .pulling (.new first.schema first) []⟩

/- The slots of the channel. -/
def lanceSlots : Nat := 2

/-
  The outcomes of a call. It returns when both tasks have
  returned.
-/
inductive LanceWriteStream
    [DecidableEq σ] [ToString σ]
    (writer :
      FormatWriter (ArrowError χ) (RecordBatch σ ρ) χ)
    (prior : Content) :
    RecordBatchStream σ ρ χ →
      Outcome (ArrowError χ) (RecordBatch σ ρ) χ → Prop
  | empty :
      LanceWriteStream writer prior []
        ⟨[], .error noBatches, prior⟩
  | failed
      {e : StorageError χ}
      {rest : RecordBatchStream σ ρ χ} :
      LanceWriteStream writer prior (.error e :: rest)
        ⟨[], .error e, prior⟩
  | returned
      {first : RecordBatch σ ρ}
      {rest : RecordBatchStream σ ρ χ}
      {steps : Nat}
      {queue handed : List (LanceItem σ ρ χ)}
      {result : Except (StorageError χ) Unit}
      (hRun :
        Piped.Run (Pump.next first.schema)
          (DatasetWrite.next writer) lanceSlots
          (lanceTasks first rest) steps
          ⟨.returned, queue, .returned handed result⟩) :
      LanceWriteStream writer prior (.ok first :: rest)
        ⟨handed, result,
          writer.leaves handed result prior⟩

------------------------------------------------------------
-- Vortex
------------------------------------------------------------

/- The errors of input and output that a stream turns to. -/
inductive IoError (χ : Type) where
  | invalidInput (message : String)
  | other (source : StorageError χ)
  deriving DecidableEq

section

variable
  [DecidableEq δ] [ToString δ]
  (fromArrow : RecordBatch σ ρ → α)
  (dtype : α → δ)

/- The item for each item behind the first one. -/
def vortexItem
    (expectedDtype : δ) :
    Except (StorageError χ) (RecordBatch σ ρ) →
      Except (IoError χ) α
| .ok batch =>
    let array := fromArrow batch
    if dtype array ≠ expectedDtype then
      .error (.invalidInput
        (s!"dtype mismatch in stream: expected " ++
          toString expectedDtype ++ ", got " ++
          toString (dtype array)))
    else .ok array
| .error e => .error (.other e)

/- The file is created when the stream is set up. -/
def vortexWriteStream
    (writer : FormatWriter (IoError χ) α χ)
    (stream : RecordBatchStream σ ρ χ)
    (prior : Content) :
    Outcome (IoError χ) α χ :=
  match stream with
  | [] => ⟨[], .error noBatches, prior⟩
  | .error e :: _ => ⟨[], .error e, prior⟩
  | .ok first :: rest =>
      let firstArray := fromArrow first
      let items := .ok firstArray ::
        rest.map
          (vortexItem fromArrow dtype (dtype firstArray))
      let (handed, result) := writer.pull items
      ⟨handed, result,
        writer.leaves handed result (createFile prior)⟩

end

end Planar
