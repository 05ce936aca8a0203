import Planar.Properties.Acceptance
import Planar.Properties.Streams
import Planar.Reading.SeenChanges
import Planar.Storage.Dispatch

/-
  What the storage layer makes of the files of the catalog,
  and of a stream of batches.

  Main declarations:
    * `Format.fromStr_iff`
    * `World.Reachable.storable`
    * `File.Dispatches`, `World.Reachable.filesDispatch`
    * `lanceWriteStream_iff`
    * `WriterEnum.writeStream_endsOnce`
-/

------------------------------------------------------------
-- Names of Formats
------------------------------------------------------------

namespace Planar

/- A name stands for the format that it lowers to. -/
theorem Format.fromStr_iff
    {χ : Type}
    {s : String}
    {format : Format} :
    (fromStr s : Except (StorageError χ) Format) =
        .ok format ↔
      toLowercase s = format.asStr := by
  unfold fromStr
  dsimp only
  split_ifs with hParquet hLance hVortex
  · rw [hParquet]
    cases format <;> simp [asStr]
  · rw [hLance]
    cases format <;> simp [asStr]
  · rw [hVortex]
    cases format <;> simp [asStr]
  · cases format <;>
      simp [asStr, hParquet, hLance, hVortex]

theorem Format.toLowercase_asStr
    (format : Format) :
    toLowercase format.asStr = format.asStr := by
  cases format <;> decide

/- Options that pass the validation can be parsed. -/
theorem Format.parses_of_valid
    {ext : External}
    {format : Format}
    {options : Json}
    (hValid :
      validateFormatOptions ext format.asStr options =
        .ok ()) :
    ∃ parsed, format.parseWriteOptions ext (some options) =
      .ok parsed := by
  unfold validateFormatOptions at hValid
  rw [format.toLowercase_asStr] at hValid
  cases format with
  | parquet =>
      rcases bind_ok.mp hValid with ⟨parsed, hParsed, _⟩
      exact ⟨.parquet parsed,
        congrArg (Except.map _) hParsed⟩
  | lance =>
      rcases bind_ok.mp hValid with ⟨parsed, hParsed, _⟩
      exact ⟨.lance parsed,
        congrArg (Except.map _) hParsed⟩
  | vortex =>
      rcases bind_ok.mp hValid with ⟨parsed, hParsed, _⟩
      exact ⟨.vortex parsed,
        congrArg (Except.map _) hParsed⟩

/- What a parser returns are options of its own format. -/
theorem Format.takes_parsed
    {ext : External}
    {format : Format}
    {options : Option Json}
    {parsed : FormatWriteOptions}
    (hParsed :
      format.parseWriteOptions ext options = .ok parsed) :
    (WriterEnum.new format).takes parsed = true := by
  cases format <;>
    rcases map_ok hParsed with ⟨_, _, rfl⟩ <;>
    rfl

------------------------------------------------------------
-- Files of Accepted Calls
------------------------------------------------------------

variable
  {ext : External}
  {catalog : SqlCatalog}
  {ident : TableIdent}
  {w w' : World}

/- The files that a call appends. -/
def Call.files : Call → List FileSpec
| .create _ => []
| .commit call =>
    call.mutation.operations.flatMap MutationOp.files

/- Every file of an accepted call could be stored. -/
theorem World.Reachable.storable
    (hReach : w.Reachable ext) :
    ∀ call ∈ w.calls, ∀ f ∈ call.files,
      f.Storable ext := by
  induction hReach with
  | refl => exact nofun
  | @tail w w' hSteps hStep ih =>
      have hReach : w.Reachable ext := hSteps
      rcases hStep with ⟨made, rfl⟩ | ⟨ident, rfl⟩
      · rcases @World.perform_cases ext w made with
          ⟨hOk, hCalls⟩ | ⟨_, hSame⟩
        · intro call hCall
          rw [hCalls, List.mem_append, List.mem_singleton]
            at hCall
          rcases hCall with hOld | rfl
          · exact ih call hOld
          cases call with
          | create call => exact nofun
          | commit call =>
              have hBase (row : TableRow)
                  (hFound : w.database.findTable
                    call.ident = some row)
                  (hHead : row.currentTransactionId =
                    some call.base) :
                  Key.transaction call.base ∈
                    w.database.keyList :=
                (hReach.of_findTable hFound).1.head_mem
                  hHead
              rcases (commit_admitted_iff hReach.inv.sound
                hBase).mp (Call.perform_commit_iff.mp hOk)
                with ⟨row, properties, hAdmitted⟩
              intro f hFile
              rcases List.mem_flatMap.mp hFile with
                ⟨operation, hOperation, hIn⟩
              exact (hAdmitted.admits operation
                hOperation).storable f hIn
        · rw [hSame]
          exact ih
      · rw [hReach.inv.drop_eq]
        exact ih

/- What an entry inserts are the files of its call. -/
theorem Call.exists_file
    {call : Call}
    {c : FileContents}
    (hInserted : c ∈ insertedBy call.entry.edits) :
    ∃ f ∈ call.files, ∃ fresh, c = f.contents fresh := by
  cases call with
  | create call => cases hInserted
  | commit call =>
      rcases List.mem_flatMap.mp hInserted with
        ⟨edit, hEdit, hItem⟩
      rcases List.mem_filterMap.mp hEdit with
        ⟨change, hChange, hSome⟩
      rcases mem_changesFrom.mp hChange with
        ⟨op, operation, hAt, rfl⟩
      cases operation with
      | appendFiles files =>
          cases hSome
          rcases List.mem_mapIdx.mp hItem with
            ⟨i, hBound, rfl⟩
          refine ⟨files[i], ?_, _, rfl⟩
          exact List.mem_flatMap.mpr
            ⟨_, List.mem_of_getElem? hAt,
              List.getElem_mem hBound⟩
      | deleteFiles fileUuids =>
          cases hSome
          cases hItem
      | updateSchema spec => cases hSome
      | setProperties properties => cases hSome
      | removeProperties keys => cases hSome

/- All files of a table were stored by accepted calls. -/
theorem World.Reachable.appended_storable
    {c : FileContents}
    (hReach : w.Reachable ext)
    (hAppended : c ∈ (w.history ident).appended) :
    ∃ f : FileSpec, f.Storable ext ∧
      ∃ fresh, c = f.contents fresh := by
  rcases List.mem_flatMap.mp hAppended with
    ⟨e, hEntry, hInserted⟩
  rcases List.mem_map.mp hEntry with ⟨call, hCall, rfl⟩
  rcases Call.exists_file hInserted with
    ⟨f, hFile, fresh, hContents⟩
  exact ⟨f, hReach.storable call
    (List.mem_of_mem_filter hCall) f hFile, fresh,
    hContents⟩

------------------------------------------------------------
-- Files That Are Read
------------------------------------------------------------

/-
  The format of the file names a reader and a writer, and
  its options are what the parser of that format takes, and
  then options of that writer.
-/
def File.Dispatches
    (ext : External)
    (file : File) : Prop :=
  ∃ format options,
    ReaderEnum.fromStr file.fileFormat =
        (.ok (.new format) :
          Except (StorageError Empty) ReaderEnum) ∧
      WriterEnum.fromStr file.fileFormat =
        (.ok (.new format) :
          Except (StorageError Empty) WriterEnum) ∧
      format.parseWriteOptions ext file.formatOptions =
        .ok options ∧
      (WriterEnum.new format).takes options = true

/- Files that were stored are dispatched. -/
theorem World.Reachable.dispatches_of_lists
    {file : File}
    (hReach : w.Reachable ext)
    (hLists : (w.history ident).Lists file) :
    file.Dispatches ext := by
  rcases List.mem_map.mp hLists with ⟨c, hAppended, hEq⟩
  rcases hReach.appended_storable hAppended with
    ⟨f, hStorable, fresh, rfl⟩
  have hFormat : file.fileFormat = f.fileFormat.asStr :=
    (congrArg ListedFile.fileFormat hEq).symm
  have hOptions : file.formatOptions = f.formatOptions :=
    (congrArg ListedFile.formatOptions hEq).symm
  have hName :
      (Format.fromStr file.fileFormat :
        Except (StorageError Empty) Format) =
          .ok f.fileFormat := by
    rw [Format.fromStr_iff, hFormat,
      Format.toLowercase_asStr]
  have hParsed : ∃ parsed,
      f.fileFormat.parseWriteOptions ext f.formatOptions =
        .ok parsed := by
    have hLegal := (FileSpec.validate_iff.mp
      hStorable.valid).formatOptions
    cases hGiven : f.formatOptions with
    | none => cases f.fileFormat <;> exact ⟨_, rfl⟩
    | some options =>
        exact Format.parses_of_valid
          ((validateFormatOptions_ok_iff ext f.fileFormat
            options).mpr (hLegal options hGiven))
  rcases hParsed with ⟨parsed, hParsed⟩
  refine ⟨f.fileFormat, parsed, ?_, ?_, hOptions ▸ hParsed,
    Format.takes_parsed hParsed⟩
  · exact bind_ok.mpr ⟨_, hName, rfl⟩
  · exact bind_ok.mpr ⟨_, hName, rfl⟩

/-
  Every file that the catalog returns, in a view, an event
  or a diff, can be opened and written again: its format is
  one of the three and its options are in order, whatever
  runs between the queries of the call.
-/
theorem World.Reachable.filesDispatch
    (hReach : w.Reachable ext)
    (hReads : ReadsBack ext (w'.history ident)) :
    (∀ t view,
      Query.Runs (World.Step ext) World.database w
        (readTable ext catalog ident t) w' (.ok view) →
      ∀ f ∈ view.files, f.Dispatches ext) ∧
    (∀ cursor events,
      Query.Runs (World.Step ext) World.database w
        (listTransactionEvents ext catalog ident cursor)
        w' (.ok events) →
      ∀ change ∈ events.flatMap TxnEvent.fileChanges,
        change.file.Dispatches ext) ∧
    ∀ s t delta,
      Query.Runs (World.Step ext) World.database w
        (diffTable ext catalog ident s t) w' (.ok delta) →
      ∀ f ∈ delta.addedFiles ++ delta.removedFiles,
        f.Dispatches ext := by
  have hInv := hReach.inv
  have hAfter {α : Type} {q : CatalogQuery α}
      {r : Result α}
      (hRuns :
        Query.Runs (World.Step ext) World.database w q w'
          r) :
      w'.Reachable ext :=
    hReach.trans hRuns.steps
  refine ⟨?_, ?_, ?_⟩
  · intro t view hRuns f hFile
    exact (hAfter hRuns).dispatches_of_lists
      (hInv.lists_of_readTable hReads hRuns f hFile)
  · intro cursor events hRuns change hChange
    exact (hAfter hRuns).dispatches_of_lists
      (hInv.lists_of_events hReads hRuns .refl change
        hChange)
  · intro s t delta hRuns f hFile
    exact (hAfter hRuns).dispatches_of_lists
      (hInv.lists_of_diff hReads hRuns f hFile)

/- The files of the sample table at its second state. -/
theorem filesDispatch_sample :
    ∃ view : TableView,
      view.files.length = 1 ∧
        ∀ f ∈ view.files, f.Dispatches sampleExternal := by
  have hRead :
      (readTable sampleExternal sampleCatalog sampleIdent
        (some 2)).exec sampleWorld.database =
          .ok sampleView := by
    decide +kernel
  refine ⟨sampleView, rfl, ?_⟩
  have hDispatch := @World.Reachable.filesDispatch
    sampleExternal sampleCatalog sampleIdent sampleWorld
    sampleWorld (World.reachable_run ..) (by decide +kernel)
  exact hDispatch.1 (some 2) sampleView
    (hRead ▸ Query.runs_exec sampleWorld _)

------------------------------------------------------------
-- Calls of a Writer
------------------------------------------------------------

section Streams

variable
  {σ ρ α δ χ : Type}
  [DecidableEq σ] [ToString σ]
  [DecidableEq δ] [ToString δ]

/- All orders of the steps of the two tasks end alike. -/
theorem lanceWriteStream_iff
    {writer :
      FormatWriter (ArrowError χ) (RecordBatch σ ρ) χ}
    {first : RecordBatch σ ρ}
    {rest : RecordBatchStream σ ρ χ}
    {prior : Content}
    {o : Outcome (ArrowError χ) (RecordBatch σ ρ) χ} :
    LanceWriteStream writer prior (.ok first :: rest) o ↔
      let pulled := writer.pull
        (.ok first :: rest.map (lanceItem first.schema))
      o = ⟨pulled.1, pulled.2,
        writer.leaves pulled.1 pulled.2 prior⟩ := by
  rcases lance_pending writer first rest with
    ⟨total, hPending⟩
  constructor
  · intro hReturns
    cases hReturns with
    | returned hRun =>
        have hLast :=
          hPending.receiver_of_ended hRun ⟨rfl, rfl⟩
        cases hLast
        rfl
  · rintro rfl
    rcases exists_lanceWriteStream writer
      (.ok first :: rest) prior with ⟨o, hReturns⟩
    cases hReturns with
    | returned hRun =>
        have hLast :=
          hPending.receiver_of_ended hRun ⟨rfl, rfl⟩
        cases hLast
        exact .returned hRun

theorem lanceWriteStream_unique
    (writer :
      FormatWriter (ArrowError χ) (RecordBatch σ ρ) χ)
    (stream : RecordBatchStream σ ρ χ)
    (prior : Content) :
    ∃! o, LanceWriteStream writer prior stream o := by
  cases stream with
  | nil =>
      refine ⟨_, .empty, ?_⟩
      intro o hReturns
      cases hReturns
      rfl
  | cons item rest =>
      cases item with
      | error e =>
          refine ⟨_, .failed, ?_⟩
          intro o hReturns
          cases hReturns
          rfl
      | ok first =>
          exact ⟨_, lanceWriteStream_iff.mpr rfl,
            fun o hReturns =>
              lanceWriteStream_iff.mp hReturns⟩

variable
  (libraries : FormatLibraries σ ρ α χ)
  (fromArrow : RecordBatch σ ρ → α)
  (dtype : α → δ)

namespace WriterEnum

/- Options that a writer takes are of its own format. -/
theorem takes_cases
    {self : WriterEnum}
    {options : FormatWriteOptions}
    (hTakes : self.takes options = true) :
    (∃ o, self = .parquet ∧ options = .parquet o) ∨
    (∃ o, self = .lance ∧ options = .lance o) ∨
    ∃ o, self = .vortex ∧ options = .vortex o := by
  cases self <;> cases options <;> simp [takes] at hTakes ⊢

theorem writeStream_unique
    (stream : RecordBatchStream σ ρ χ)
    (prior : Content)
    (self : WriterEnum)
    (options : FormatWriteOptions) :
    ∃! written,
      WriteStream libraries fromArrow dtype stream prior
        self options written := by
  cases hTakes : self.takes options with
  | false =>
      refine ⟨_, .mismatch hTakes, ?_⟩
      intro written hCall
      cases hCall with
      | mismatch _ => rfl
      | _ => cases hTakes
  | true =>
      rcases takes_cases hTakes with
        ⟨o, rfl, rfl⟩ | ⟨o, rfl, rfl⟩ | ⟨o, rfl, rfl⟩
      · refine ⟨_, .parquet, ?_⟩
        intro written hCall
        cases hCall with
        | parquet => rfl
        | mismatch hOther => cases hOther
      · rcases lanceWriteStream_unique (libraries.lance o)
          stream prior with ⟨outcome, hReturns, hOnly⟩
        refine ⟨_, .lance hReturns, ?_⟩
        intro written hCall
        cases hCall with
        | lance hOther => rw [hOnly _ hOther]
        | mismatch hOther => cases hOther
      · refine ⟨_, .vortex, ?_⟩
        intro written hCall
        cases hCall with
        | vortex => rfl
        | mismatch hOther => cases hOther

/- Writing one batch is a call with a stream of it. -/
theorem writeStream_one
    (self : WriterEnum)
    (batch : RecordBatch σ ρ)
    (options : FormatWriteOptions)
    (prior : Content) :
    WriteStream libraries fromArrow dtype [.ok batch] prior
      self options
      (self.writeWithOptions libraries fromArrow batch
        options prior) := by
  cases hTakes : self.takes options with
  | false =>
      have hRejects :
          self.writeWithOptions libraries fromArrow batch
            options prior = optionsMismatch prior := by
        cases self <;> cases options <;>
          first | rfl | cases hTakes
      rw [hRejects]
      exact .mismatch hTakes
  | true =>
      rcases takes_cases hTakes with
        ⟨o, rfl, rfl⟩ | ⟨o, rfl, rfl⟩ | ⟨o, rfl, rfl⟩
      · exact .parquet
      · exact .lance (lanceWriteStream_iff.mpr rfl)
      · exact .vortex

/-
  A call with any stream and any options ends in exactly one
  way, and a stream of one batch ends as writing that batch
  does.
-/
theorem writeStream_endsOnce
    (self : WriterEnum)
    (options : FormatWriteOptions)
    (prior : Content) :
    (∀ stream : RecordBatchStream σ ρ χ, ∃! written,
      WriteStream libraries fromArrow dtype stream prior
        self options written) ∧
    ∀ batch written,
      WriteStream libraries fromArrow dtype [.ok batch]
          prior self options written ↔
        written = self.writeWithOptions libraries fromArrow
          batch options prior := by
  refine ⟨fun stream => writeStream_unique libraries
    fromArrow dtype stream prior self options, ?_⟩
  intro batch written
  rcases writeStream_unique libraries fromArrow dtype
    [.ok batch] prior self options with
    ⟨only, _, hOnly⟩
  have hOne := writeStream_one libraries fromArrow dtype
    self batch options prior
  constructor
  · intro hCall
    rw [hOnly _ hCall, hOnly _ hOne]
  · rintro rfl
    exact hOne

end WriterEnum

end Streams

end Planar
