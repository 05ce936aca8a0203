import Planar.Storage.FormatOptions
import Planar.Storage.StreamWriters

/-
  What the stream writers hand over, and what they leave at
  the path when they hand over nothing.

  Main declarations:
    * `longestPrefix`, `behindPrefix`, `DeliversOnce`
    * `pull_map`, `lance_pending`
    * `writeStreams_deliver_once`
    * `Rejects`, `leavesPrior_iff`
-/

------------------------------------------------------------
-- The Longest Prefix
------------------------------------------------------------

namespace Planar

section

variable {α β ε η κ χ : Type}
variable [DecidableEq κ]

/- The item is a batch with this key. -/
def hasKey (key : β → κ) (k : κ) : Except ε β → Bool
| .ok b => key b = k
| .error _ => false

/- The items before the first that fails or that differs. -/
def longestPrefix
    (key : β → κ)
    (stream : List (Except ε β)) : List (Except ε β) :=
  match stream with
  | .ok first :: _ =>
      stream.takeWhile (hasKey key (key first))
  | _ => []

def behindPrefix
    (key : β → κ)
    (stream : List (Except ε β)) : List (Except ε β) :=
  match stream with
  | .ok first :: _ =>
      stream.dropWhile (hasKey key (key first))
  | _ => stream

def batchesOf (items : List (Except ε β)) : List β :=
  items.filterMap Except.toOption

/-
  The batches of the prefix are handed over, converted, each
  once and in order. A writer that pulls its input is then
  handed an error if the stream continues, and the call
  succeeds when there was a batch and nothing else followed.
-/
structure DeliversOnce
    (pulls : Prop)
    (key : β → κ)
    (into : β → α)
    (stream : List (Except (StorageError χ) β))
    (o : Outcome η α χ) : Prop where
  handed : ∃ failure : Option η,
    o.handed =
        (batchesOf (longestPrefix key stream)).map
            (fun b => .ok (into b)) ++
          failure.toList.map .error ∧
      (failure.isSome = true ↔
        pulls ∧ longestPrefix key stream ≠ [] ∧
          behindPrefix key stream ≠ [])
  fails : behindPrefix key stream ≠ [] →
    ∃ e, o.result = .error e
  succeeds : o.result = .ok () ↔
    stream ≠ [] ∧ behindPrefix key stream = []

variable {key : β → κ}
variable {into : β → α}

theorem hasKey_first (first : β) :
    hasKey (ε := ε) key (key first) (.ok first) = true := by
  simp only [hasKey, decide_true]

theorem longestPrefix_ok
    (first : β)
    (rest : List (Except ε β)) :
    longestPrefix key (.ok first :: rest) =
      .ok first ::
        rest.takeWhile (hasKey key (key first)) := by
  simp only [longestPrefix, List.takeWhile_cons,
    hasKey_first, if_true]

theorem behindPrefix_ok
    (first : β)
    (rest : List (Except ε β)) :
    behindPrefix key (.ok first :: rest) =
      rest.dropWhile (hasKey key (key first)) := by
  simp only [behindPrefix, List.dropWhile_cons,
    hasKey_first, if_true]

/- What failed was no success. -/
theorem error_of_ne_ok
    {result : Except ε Unit}
    (hResult : result ≠ .ok ()) :
    ∃ e, result = .error e := by
  cases result with
  | error e => exact ⟨e, rfl⟩
  | ok u => exact absurd rfl hResult

/- A stream without a first batch hands nothing over. -/
theorem deliversOnce_nothing
    {pulls : Prop}
    {stream : List (Except (StorageError χ) β)}
    {e : StorageError χ}
    {content : Content}
    (hNone : longestPrefix key stream = [])
    (hStream : stream = [] ∨ behindPrefix key stream ≠ []) :
    DeliversOnce pulls key into stream
      (⟨[], .error e, content⟩ : Outcome η α χ) := by
  refine ⟨⟨none, ?_, ?_⟩, fun _ => ⟨e, rfl⟩, ?_⟩
  · rw [hNone]
    rfl
  · rw [hNone]
    simp
  · constructor
    · intro hOk
      cases hOk
    · intro hAll
      rcases hStream with hEmpty | hBehind
      · exact absurd hEmpty hAll.1
      · exact absurd hAll.2 hBehind

/-
  What follows on the first batch decides what the call
  hands over and how it ends.
-/
theorem deliversOnce_first
    {pulls : Prop}
    {first : β}
    {rest : List (Except (StorageError χ) β)}
    {handed : List (Except η α)}
    {result : Except (StorageError χ) Unit}
    {content : Content}
    {failure : Option η}
    (hHanded : handed =
      (batchesOf (rest.takeWhile
          (hasKey key (key first)))).map
          (fun b => .ok (into b)) ++
        failure.toList.map .error)
    (hFailure : failure.isSome = true ↔
      pulls ∧ rest.dropWhile (hasKey key (key first)) ≠ [])
    (hResult : result = .ok () ↔
      rest.dropWhile (hasKey key (key first)) = []) :
    DeliversOnce pulls key into (.ok first :: rest)
      (⟨.ok (into first) :: handed, result, content⟩ :
        Outcome η α χ) := by
  refine ⟨⟨failure, ?_, ?_⟩, ?_, ?_⟩
  · rw [longestPrefix_ok, hHanded]
    rfl
  · rw [longestPrefix_ok, behindPrefix_ok, hFailure]
    simp
  · rw [behindPrefix_ok]
    intro hBehind
    exact error_of_ne_ok (mt hResult.mp hBehind)
  · rw [behindPrefix_ok, hResult]
    simp

------------------------------------------------------------
-- Writers that Pull
------------------------------------------------------------

/-
  A writer pulls the converted batches up to the first item
  of another kind, for which it is handed an error.
-/
theorem pull_map
    {check : Except ε β → Except η α}
    {k : κ}
    (writer : FormatWriter η α χ)
    (hSame : ∀ b, key b = k →
      check (.ok b) = .ok (into b))
    (hOther : ∀ item, hasKey key k item = false →
      ∃ e, check item = .error e)
    (items : List (Except ε β)) :
    ∃ failure : Option η,
      (writer.pull (items.map check)).1 =
          (batchesOf (items.takeWhile (hasKey key k))).map
              (fun b => .ok (into b)) ++
            failure.toList.map .error ∧
        (failure.isSome = true ↔
          items.dropWhile (hasKey key k) ≠ []) ∧
        ((writer.pull (items.map check)).2 = .ok () ↔
          items.dropWhile (hasKey key k) = []) := by
  induction items with
  | nil =>
      exact ⟨none, rfl, by simp, by simp [FormatWriter.pull]⟩
  | cons item rest ih =>
      cases hKey : hasKey key k item with
      | false =>
          rcases hOther item hKey with ⟨e, hError⟩
          refine ⟨some e, ?_⟩
          simp [hKey, hError, FormatWriter.pull, batchesOf]
      | true =>
          rcases ih with ⟨failure, hHanded, hFailure, hResult⟩
          cases item with
          | error e => cases hKey
          | ok b =>
              have hEq : key b = k := of_decide_eq_true hKey
              refine ⟨failure, ?_, ?_, ?_⟩
              · rw [List.map_cons, hSame b hEq,
                  List.takeWhile_cons_of_pos hKey]
                show .ok (into b) ::
                  (writer.pull (rest.map check)).1 = _
                rw [hHanded]
                rfl
              · rw [List.dropWhile_cons_of_pos hKey]
                exact hFailure
              · rw [List.map_cons, hSame b hEq,
                  List.dropWhile_cons_of_pos hKey]
                exact hResult

end

------------------------------------------------------------
-- Parquet
------------------------------------------------------------

section

variable {σ ρ χ α δ : Type}

section

variable [DecidableEq σ] [ToString σ]

theorem parquetLoop_written
    (expected : σ)
    (rest : RecordBatchStream σ ρ χ) :
    (parquetLoop expected rest).1 =
        batchesOf (rest.takeWhile
          (hasKey RecordBatch.schema expected)) ∧
      ((parquetLoop expected rest).2 = .ok () ↔
        rest.dropWhile
          (hasKey RecordBatch.schema expected) = []) := by
  induction rest with
  | nil => exact ⟨rfl, by simp [parquetLoop]⟩
  | cons item rest ih =>
      cases item with
      | error e => exact ⟨rfl, by simp [parquetLoop, hasKey]⟩
      | ok batch =>
          by_cases hSchema : batch.schema = expected
          · have hKey : hasKey (ε := StorageError χ)
                RecordBatch.schema expected (.ok batch) =
                  true := decide_eq_true hSchema
            rw [parquetLoop, if_neg (not_not_intro hSchema),
              List.takeWhile_cons_of_pos hKey,
              List.dropWhile_cons_of_pos hKey]
            exact ⟨congrArg (batch :: ·) ih.1, ih.2⟩
          · have hKey : hasKey (ε := StorageError χ)
                RecordBatch.schema expected (.ok batch) =
                  false := decide_eq_false hSchema
            rw [parquetLoop, if_pos hSchema]
            simp [hKey, batchesOf]

theorem parquetWriteStream_delivers
    (writer : FormatWriter Empty (RecordBatch σ ρ) χ)
    (stream : RecordBatchStream σ ρ χ)
    (prior : Content) :
    DeliversOnce False RecordBatch.schema id stream
      (parquetWriteStream writer stream prior) := by
  cases stream with
  | nil => exact deliversOnce_nothing rfl (.inl rfl)
  | cons item rest =>
      cases item with
      | error e =>
          exact deliversOnce_nothing rfl
            (.inr (List.cons_ne_nil _ _))
      | ok first =>
          rcases parquetLoop_written first.schema rest with
            ⟨hWritten, hResult⟩
          have hHanded :
              (parquetLoop first.schema rest).1.map
                  (Except.ok (ε := Empty)) =
                (batchesOf (rest.takeWhile (hasKey
                    RecordBatch.schema first.schema))).map
                    (fun b => .ok (id b)) ++
                  Option.none.toList.map .error := by
            rw [hWritten]
            simp
          exact deliversOnce_first hHanded (by simp) hResult

end

------------------------------------------------------------
-- Vortex
------------------------------------------------------------

section

variable [DecidableEq δ] [ToString δ]
variable {fromArrow : RecordBatch σ ρ → α}
variable {dtype : α → δ}

theorem vortexItem_same
    {expected : δ}
    (batch : RecordBatch σ ρ)
    (hDtype : dtype (fromArrow batch) = expected) :
    vortexItem (χ := χ) fromArrow dtype expected
      (.ok batch) = .ok (fromArrow batch) := by
  simp only [vortexItem, hDtype, ne_eq, not_true_eq_false,
    if_false]

theorem vortexItem_other
    (expected : δ)
    (item : Except (StorageError χ) (RecordBatch σ ρ))
    (hKey :
      hasKey (fun b => dtype (fromArrow b)) expected item =
        false) :
    ∃ e, vortexItem fromArrow dtype expected item =
      .error e := by
  cases item with
  | error e => exact ⟨.other e, rfl⟩
  | ok batch =>
      have hDtype : dtype (fromArrow batch) ≠ expected :=
        of_decide_eq_false hKey
      exact ⟨_, if_pos hDtype⟩

theorem vortexWriteStream_delivers
    (writer : FormatWriter (IoError χ) α χ)
    (stream : RecordBatchStream σ ρ χ)
    (prior : Content) :
    DeliversOnce True (fun b => dtype (fromArrow b))
      fromArrow stream
      (vortexWriteStream fromArrow dtype writer stream
        prior) := by
  cases stream with
  | nil => exact deliversOnce_nothing rfl (.inl rfl)
  | cons item rest =>
      cases item with
      | error e =>
          exact deliversOnce_nothing rfl
            (.inr (List.cons_ne_nil _ _))
      | ok first =>
          rcases pull_map writer vortexItem_same
              (vortexItem_other (dtype (fromArrow first)))
              rest with
            ⟨failure, hHanded, hFailure, hResult⟩
          exact deliversOnce_first hHanded
            (by rw [hFailure, true_and]) hResult

end

------------------------------------------------------------
-- Lance
------------------------------------------------------------

section

variable [DecidableEq σ] [ToString σ]
variable {expected : σ}
variable {rest : RecordBatchStream σ ρ χ}

/- What the pump makes of an item. -/
def lanceItem
    (expected : σ) :
    Except (StorageError χ) (RecordBatch σ ρ) →
      LanceItem σ ρ χ
| .ok batch =>
    if batch.schema ≠ expected then
      .error (.externalError (.invalidInput
        (schemaMismatch expected batch.schema)))
    else .ok batch
| .error e => .error (.externalError e)

/- The messages of the pump, of which an error is the last. -/
def pumpMessages
    (expected : σ) :
    RecordBatchStream σ ρ χ → List (LanceItem σ ρ χ)
| [] => []
| item :: rest =>
    match lanceItem expected item with
    | .ok batch => .ok batch :: pumpMessages expected rest
    | .error e => [.error e]

theorem lanceItem_same
    (batch : RecordBatch σ ρ)
    (hSchema : batch.schema = expected) :
    lanceItem (χ := χ) expected (.ok batch) =
      .ok (id batch) := by
  simp only [lanceItem, hSchema, ne_eq, not_true_eq_false,
    if_false, id_eq]

theorem lanceItem_other
    (expected : σ)
    (item : Except (StorageError χ) (RecordBatch σ ρ))
    (hKey :
      hasKey RecordBatch.schema expected item = false) :
    ∃ e, lanceItem expected item = .error e := by
  cases item with
  | error e => exact ⟨.externalError e, rfl⟩
  | ok batch =>
      have hSchema : batch.schema ≠ expected :=
        of_decide_eq_false hKey
      exact ⟨_, if_pos hSchema⟩

/- The pump sends a good item and goes on. -/
theorem pump_ok
    {item : Except (StorageError χ) (RecordBatch σ ρ)}
    {batch : RecordBatch σ ρ}
    (hItem : lanceItem expected item = .ok batch) :
    Pump.next expected (.pulling (item :: rest)) =
      .work (.sending (.ok batch) (some rest)) := by
  cases item with
  | error e => cases hItem
  | ok b =>
      by_cases hSchema : b.schema = expected
      · rw [lanceItem_same b hSchema] at hItem
        cases hItem
        exact if_neg (not_not_intro hSchema)
      · rw [lanceItem, if_pos hSchema] at hItem
        cases hItem

/- The pump sends another item as an error and returns. -/
theorem pump_error
    {item : Except (StorageError χ) (RecordBatch σ ρ)}
    {e : ArrowError χ}
    (hItem : lanceItem expected item = .error e) :
    Pump.next expected (.pulling (item :: rest)) =
      .work (.sending (.error e) none) := by
  cases item with
  | error e' =>
      cases hItem
      rfl
  | ok b =>
      by_cases hSchema : b.schema = expected
      · rw [lanceItem_same b hSchema] at hItem
        cases hItem
      · rw [lanceItem, if_pos hSchema] at hItem
        cases hItem
        exact if_pos hSchema

theorem produces_pumpMessages
    (expected : σ)
    (rest : RecordBatchStream σ ρ χ) :
    ∃ steps, Produces (Pump.next expected) (.pulling rest)
      (pumpMessages expected rest) steps := by
  induction rest with
  | nil => exact ⟨_, .work rfl (.work rfl (.gone rfl))⟩
  | cons item rest ih =>
      cases hItem : lanceItem expected item with
      | error e =>
          simp only [pumpMessages, hItem]
          exact ⟨_, .work (pump_error hItem)
            (.send rfl (.work rfl (.gone rfl)))⟩
      | ok batch =>
          rcases ih with ⟨steps, hSteps⟩
          simp only [pumpMessages, hItem]
          exact ⟨_, .work (pump_ok hItem)
            (.send rfl hSteps)⟩

/- The messages are to the writer what the items are. -/
theorem consumes_pumpMessages
    (writer :
      FormatWriter (ArrowError χ) (RecordBatch σ ρ) χ)
    (expected : σ)
    (rest : RecordBatchStream σ ρ χ)
    (schema : σ)
    (handed : List (LanceItem σ ρ χ)) :
    ∃ steps,
      Consumes (DatasetWrite.next writer)
        (.pulling ⟨schema, none⟩ handed)
        (pumpMessages expected rest)
        (.returned
          (handed ++ (writer.pull
            (rest.map (lanceItem expected))).1)
          (writer.pull (rest.map (lanceItem expected))).2)
        steps := by
  induction rest generalizing handed with
  | nil =>
      simp only [pumpMessages, List.map_nil,
        FormatWriter.pull, List.append_nil]
      exact ⟨_, .ended rfl (.work rfl (.gone rfl))⟩
  | cons item rest ih =>
      cases hItem : lanceItem expected item with
      | error e =>
          simp only [pumpMessages, hItem, List.map_cons,
            FormatWriter.pull]
          exact ⟨_, .receive rfl (.work rfl (.gone rfl))⟩
      | ok batch =>
          rcases ih (handed ++ [.ok batch]) with
            ⟨steps, hSteps⟩
          simp only [pumpMessages, hItem, List.map_cons,
            FormatWriter.pull]
          rw [List.append_assoc] at hSteps
          exact ⟨_, .receive rfl hSteps⟩

/-
  The two tasks end with what the writer pulls when it is
  given the items one after the other.
-/
theorem lance_pending
    (writer :
      FormatWriter (ArrowError χ) (RecordBatch σ ρ) χ)
    (first : RecordBatch σ ρ)
    (rest : RecordBatchStream σ ρ χ) :
    ∃ total,
      Piped.Pending (Pump.next first.schema)
        (DatasetWrite.next writer)
        (.returned
          (.ok first :: (writer.pull
            (rest.map (lanceItem first.schema))).1)
          (writer.pull
            (rest.map (lanceItem first.schema))).2)
        total (lanceTasks first rest) := by
  rcases produces_pumpMessages first.schema rest with
    ⟨produced, hProduces⟩
  rcases consumes_pumpMessages writer first.schema rest
      first.schema [.ok first] with
    ⟨consumed, hConsumes⟩
  exact ⟨produced + (consumed + 1), _, produced,
    consumed + 1, hProduces, .work rfl hConsumes, rfl⟩

theorem lanceWriteStream_delivers
    {writer :
      FormatWriter (ArrowError χ) (RecordBatch σ ρ) χ}
    {stream : RecordBatchStream σ ρ χ}
    {prior : Content}
    {o : Outcome (ArrowError χ) (RecordBatch σ ρ) χ}
    (hReturns : LanceWriteStream writer prior stream o) :
    DeliversOnce True RecordBatch.schema id stream o := by
  cases hReturns with
  | empty => exact deliversOnce_nothing rfl (.inl rfl)
  | failed =>
      exact deliversOnce_nothing rfl
        (.inr (List.cons_ne_nil _ _))
  | @returned first rest _ _ handed result hRun =>
      rcases lance_pending writer first rest with
        ⟨total, hPending⟩
      have hLast :=
        hPending.receiver_of_ended hRun ⟨rfl, rfl⟩
      cases hLast
      rcases pull_map writer lanceItem_same
          (lanceItem_other first.schema) rest with
        ⟨failure, hHanded, hFailure, hResult⟩
      exact deliversOnce_first hHanded
        (by rw [hFailure, true_and]) hResult

theorem lanceSlots_pos : 0 < lanceSlots := by
  decide

theorem Pump.eq_returned
    {pump : Pump σ ρ χ}
    (hGone : Pump.next expected pump = .gone) :
    pump = .returned := by
  cases pump with
  | returned => rfl
  | returning => cases hGone
  | sending item after =>
      cases after <;> cases hGone
  | pulling rest =>
      cases rest with
      | nil => cases hGone
      | cons item rest =>
          cases hItem : lanceItem expected item with
          | ok batch => cases (pump_ok hItem).symm.trans hGone
          | error e =>
              cases (pump_error hItem).symm.trans hGone

/- A call returns in the end. -/
theorem exists_lanceWriteStream
    (writer :
      FormatWriter (ArrowError χ) (RecordBatch σ ρ) χ)
    (stream : RecordBatchStream σ ρ χ)
    (prior : Content) :
    ∃ o, LanceWriteStream writer prior stream o := by
  cases stream with
  | nil => exact ⟨_, .empty⟩
  | cons item rest =>
      cases item with
      | error e => exact ⟨_, .failed⟩
      | ok first =>
          rcases lance_pending writer first rest with
            ⟨total, hPending⟩
          rcases hPending.exists_run lanceSlots_pos with
            ⟨⟨pump, queue, write⟩, hRun, hEnded⟩
          have hPump := Pump.eq_returned hEnded.1
          have hWrite :=
            hPending.receiver_of_ended hRun hEnded
          dsimp only at hPump hWrite
          subst hPump hWrite
          exact ⟨_, .returned hRun⟩

/-
  Whatever the order of the steps of the two tasks: the call
  returns, no order goes on forever or comes to a halt, and
  each delivers the same.
-/
structure LanceDelivers
    (writer :
      FormatWriter (ArrowError χ) (RecordBatch σ ρ) χ)
    (stream : RecordBatchStream σ ρ χ)
    (prior : Content) : Prop where
  returns : ∃ o, LanceWriteStream writer prior stream o
  ends : ∀ first rest, stream = .ok first :: rest →
    ∃ total, ∀ count w,
      Piped.Run (Pump.next first.schema)
          (DatasetWrite.next writer) lanceSlots
          (lanceTasks first rest) count w →
        count ≤ total ∧
          ∃ w', Piped.Run (Pump.next first.schema)
              (DatasetWrite.next writer) lanceSlots
              w (total - count) w' ∧
            Piped.Ended (Pump.next first.schema)
              (DatasetWrite.next writer) w'
  delivers : ∀ o, LanceWriteStream writer prior stream o →
    DeliversOnce True RecordBatch.schema id stream o

theorem lance_delivers
    (writer :
      FormatWriter (ArrowError χ) (RecordBatch σ ρ) χ)
    (stream : RecordBatchStream σ ρ χ)
    (prior : Content) :
    LanceDelivers writer stream prior := by
  refine ⟨exists_lanceWriteStream writer stream prior, ?_,
    fun o hReturns => lanceWriteStream_delivers hReturns⟩
  intro first rest _
  rcases lance_pending writer first rest with
    ⟨total, hPending⟩
  exact ⟨total, fun count w hRun =>
    hPending.run_on hRun lanceSlots_pos⟩

end

------------------------------------------------------------
-- All Formats
------------------------------------------------------------

/- The writers of the three libraries. -/
structure FormatWriters (σ ρ α δ χ : Type) where
  parquet : FormatWriter Empty (RecordBatch σ ρ) χ
  lance : FormatWriter (ArrowError χ) (RecordBatch σ ρ) χ
  vortex : FormatWriter (IoError χ) α χ
  fromArrow : RecordBatch σ ρ → α
  dtype : α → δ

variable
  [DecidableEq σ] [ToString σ]
  [DecidableEq δ] [ToString δ]

/-
  Each of the writers hands over the longest prefix of the
  stream, and succeeds when that is the whole stream.
-/
theorem writeStreams_deliver_once
    (writers : FormatWriters σ ρ α δ χ)
    (stream : RecordBatchStream σ ρ χ)
    (prior : Content) :
    DeliversOnce False RecordBatch.schema id stream
        (parquetWriteStream writers.parquet stream
          prior) ∧
      LanceDelivers writers.lance stream prior ∧
      DeliversOnce True
        (fun b => writers.dtype (writers.fromArrow b))
        writers.fromArrow stream
        (vortexWriteStream writers.fromArrow writers.dtype
          writers.vortex stream prior) :=
  ⟨parquetWriteStream_delivers writers.parquet stream prior,
    lance_delivers writers.lance stream prior,
    vortexWriteStream_delivers writers.vortex stream prior⟩

------------------------------------------------------------
-- Rejected Streams
------------------------------------------------------------

/- No writer is handed a batch of such a stream. -/
inductive Rejects : RecordBatchStream σ ρ χ → Prop
  | empty : Rejects []
  | failed
      {e : StorageError χ}
      {rest : RecordBatchStream σ ρ χ} :
      Rejects (.error e :: rest)

/- A call for a format, and what is then at the path. -/
inductive WriteStream
    (writers : FormatWriters σ ρ α δ χ)
    (stream : RecordBatchStream σ ρ χ)
    (prior : Content) :
    Format → Except (StorageError χ) Unit → Content → Prop
  | parquet
      {o : Outcome Empty (RecordBatch σ ρ) χ}
      (hOutcome :
        parquetWriteStream writers.parquet stream prior =
          o) :
      WriteStream writers stream prior .parquet o.result
        o.content
  | lance
      {o : Outcome (ArrowError χ) (RecordBatch σ ρ) χ}
      (hOutcome :
        LanceWriteStream writers.lance prior stream o) :
      WriteStream writers stream prior .lance o.result
        o.content
  | vortex
      {o : Outcome (IoError χ) α χ}
      (hOutcome :
        vortexWriteStream writers.fromArrow writers.dtype
          writers.vortex stream prior = o) :
      WriteStream writers stream prior .vortex o.result
        o.content

/- The call fails and the path holds what it held before. -/
def LeavesPrior
    (writers : FormatWriters σ ρ α δ χ)
    (stream : RecordBatchStream σ ρ χ)
    (prior : Content)
    (format : Format) : Prop :=
  ∀ result after,
    WriteStream writers stream prior format result after →
      (∃ e, result = .error e) ∧ after = prior

/- What a rejected stream leaves at the path. -/
theorem content_of_rejects
    {writers : FormatWriters σ ρ α δ χ}
    {stream : RecordBatchStream σ ρ χ}
    {prior after : Content}
    {format : Format}
    {result : Except (StorageError χ) Unit}
    (hRejects : Rejects stream)
    (hCall :
      WriteStream writers stream prior format result
        after) :
    (∃ e, result = .error e) ∧
      after =
        if format = .parquet then some [] else prior := by
  cases hCall with
  | parquet hOutcome =>
      subst hOutcome
      cases hRejects <;> exact ⟨⟨_, rfl⟩, rfl⟩
  | lance hOutcome =>
      cases hRejects with
      | empty =>
          cases hOutcome
          exact ⟨⟨_, rfl⟩, rfl⟩
      | failed =>
          cases hOutcome
          exact ⟨⟨_, rfl⟩, rfl⟩
  | vortex hOutcome =>
      subst hOutcome
      cases hRejects <;> exact ⟨⟨_, rfl⟩, rfl⟩

/-
  A rejected stream leaves the path as it was, except that
  the Parquet writer has then emptied or created the file.
-/
theorem leavesPrior_iff
    (writers : FormatWriters σ ρ α δ χ)
    (stream : RecordBatchStream σ ρ χ)
    (prior : Content)
    (format : Format)
    (hRejects : Rejects stream) :
    LeavesPrior writers stream prior format ↔
      format ≠ .parquet ∨ prior = some [] := by
  by_cases hFormat : format = .parquet
  · subst hFormat
    constructor
    · intro hLeaves
      have hCall : WriteStream writers stream prior .parquet
          _ _ := .parquet rfl
      have hAfter := (content_of_rejects hRejects hCall).2
      have hSame := (hLeaves _ _ hCall).2
      exact .inr (hSame.symm.trans hAfter)
    · intro hPrior result after hCall
      rcases content_of_rejects hRejects hCall with
        ⟨hError, hAfter⟩
      rcases hPrior with hOther | hEmpty
      · exact absurd rfl hOther
      · exact ⟨hError, hAfter.trans hEmpty.symm⟩
  · constructor
    · intro _
      exact .inl hFormat
    · intro _ result after hCall
      rcases content_of_rejects hRejects hCall with
        ⟨hError, hAfter⟩
      rw [if_neg hFormat] at hAfter
      exact ⟨hError, hAfter⟩

/- Writers that keep the path as it is. -/
def sampleWriters : FormatWriters Nat Nat Nat Nat String where
  parquet := ⟨Empty.elim, fun _ _ prior => prior⟩
  lance := ⟨fun _ => "lance", fun _ _ prior => prior⟩
  vortex := ⟨fun _ => "vortex", fun _ _ prior => prior⟩
  fromArrow := RecordBatch.columns
  dtype := id

def sampleContent : Content := some [80]

theorem leavesPrior_iff_sample :
    LeavesPrior sampleWriters [] sampleContent .vortex ↔
      Format.vortex ≠ .parquet ∨ sampleContent = some [] :=
  leavesPrior_iff sampleWriters [] sampleContent .vortex
    .empty

/-
  An empty stream empties the Parquet file that was there,
  and creates one where there was none.
-/
theorem parquet_truncates :
    ¬ LeavesPrior sampleWriters [] sampleContent .parquet ∧
      ¬ LeavesPrior sampleWriters [] none .parquet := by
  constructor
  · intro hLeaves
    cases (hLeaves _ _ (.parquet rfl)).2
  · intro hLeaves
    cases (hLeaves _ _ (.parquet rfl)).2

end

end Planar
