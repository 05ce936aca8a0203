import Planar.Foundations.Lists
import Planar.Properties.TimeTravel

/-
  What the validation of format options accepts, and where
  it panics.

  Main declarations:
    * `OptionKind`, `formatOption`
    * `LegalEntry`, `LegalOptions`
    * `ZeroReached`
    * `Validates`, `validates_iff`
-/

------------------------------------------------------------
-- The Options of Each Format
------------------------------------------------------------

namespace Planar

/- What the value of an option has to be. -/
inductive OptionKind where
  | count
  | positive
  | flag
  | text (Known : String → Prop)

def OptionKind.Accepts : OptionKind → Json → Prop
| .count, value => ∃ n, value.asU64 = some n
| .positive, value => ∃ n, value.asU64 = some n ∧ 0 < n
| .flag, value => ∃ b, value.asBool = some b
| .text Known, value => ∃ s, value.asStr = some s ∧ Known s

def compressionNames : List String :=
  ["uncompressed", "none", "snappy", "gzip", "brotli",
    "lz4", "zstd"]

def bloomFilterPositionNames : List String :=
  ["afterrowgroup", "after_row_group", "end"]

/- The options of a Parquet writer. -/
def parquetOption
    (ext : External) : String → Option OptionKind
| "compression" =>
    some (.text (toLowercase · ∈ compressionNames))
| "max_row_group_size" => some .positive
| "data_page_size_limit" => some .count
| "data_page_row_count_limit" => some .count
| "write_batch_size" => some .count
| "writer_version" =>
    some (.text fun s =>
      ∃ version, ext.writerVersionFromStr s = .ok version)
| "bloom_filter_position" =>
    some (.text (toLowercase · ∈ bloomFilterPositionNames))
| "created_by" => some (.text fun _ => True)
| "offset_index_disabled" => some .flag
| _ => none

/- The options of a Lance writer. -/
def lanceOption
    (ext : External) : String → Option OptionKind
| "max_rows_per_file" => some .count
| "max_rows_per_group" => some .count
| "max_bytes_per_file" => some .count
| "mode" =>
    some (.text fun s =>
      ∃ mode, ext.writeModeTryFrom s = some mode)
| "enable_stable_row_ids" => some .flag
| "enable_v2_manifest_paths" => some .flag
| _ => none

/- The options of a Vortex writer. -/
def vortexOption : String → Option OptionKind
| "exclude_dtype" => some .flag
| _ => none

/- The options of a format and the kinds of their values. -/
def formatOption
    (ext : External) :
    Format → String → Option OptionKind
| .parquet, key => parquetOption ext key
| .lance, key => lanceOption ext key
| .vortex, key => vortexOption key

/- A known key with a value of its kind. -/
def LegalEntry
    (ext : External)
    (format : Format)
    (entry : String × Json) : Prop :=
  ∃ kind,
    formatOption ext format entry.1 = some kind ∧
      kind.Accepts entry.2

/- An object whose entries are all legal. -/
def LegalOptions
    (ext : External)
    (format : Format)
    (options : Json) : Prop :=
  ∃ entries,
    options.asObject = some entries ∧
      ∀ entry ∈ entries, LegalEntry ext format entry

/- The one value that an option builder asserts against. -/
def ZeroRowGroup
    (format : Format)
    (entry : String × Json) : Prop :=
  format = .parquet ∧
    entry.1 = "max_row_group_size" ∧
    entry.2.asU64 = some 0

/- All entries before a zero row group size are legal. -/
def ZeroReached
    (ext : External)
    (format : Format)
    (options : Json) : Prop :=
  ∃ entries earlier entry later,
    options.asObject = some entries ∧
      entries = earlier ++ entry :: later ∧
      (∀ entry' ∈ earlier,
        LegalEntry ext format entry') ∧
      ZeroRowGroup format entry

------------------------------------------------------------
-- One Option
------------------------------------------------------------

variable {β γ : Type}

theorem unsupported_bind
    (message : String)
    (f : β → StorageResult γ) :
    (unsupported message >>= f) = unsupported message :=
  rfl

theorem ok_bind
    (b : β)
    (f : β → StorageResult γ) :
    ((Except.ok b : StorageResult β) >>= f) = f b :=
  rfl

/- When a parser returns, and when it panics. -/
structure Parses
    (result : StorageResult β)
    (good bad : Prop) : Prop where
  ok_iff : (∃ b, result = .ok b) ↔ good
  panicked_iff :
    (∃ message, result = .error (.panicked message)) ↔ bad

namespace Parses

variable {good bad : Prop}

theorem of_ok
    (b : β)
    (hGood : good)
    (hBad : ¬ bad) :
    Parses (.ok b) good bad :=
  ⟨iff_of_true ⟨b, rfl⟩ hGood, iff_of_false nofun hBad⟩

theorem of_unsupported
    (message : String)
    (hGood : ¬ good)
    (hBad : ¬ bad) :
    Parses (unsupported message : StorageResult β)
      good bad :=
  ⟨iff_of_false nofun hGood, iff_of_false nofun hBad⟩

theorem of_panicked
    (message : String)
    (hGood : ¬ good)
    (hBad : bad) :
    Parses (.error (.panicked message) : StorageResult β)
      good bad :=
  ⟨iff_of_false nofun hGood,
    iff_of_true ⟨message, rfl⟩ hBad⟩

/- One more text that a parser knows. -/
theorem ite_ok
    {P : Prop}
    [Decidable P]
    {b : β}
    {rest : StorageResult β}
    (hRest : Parses rest good False) :
    Parses (if P then .ok b else rest)
      (P ∨ good) False := by
  by_cases hHere : P
  · rw [if_pos hHere]
    exact .of_ok b (.inl hHere) id
  · rw [if_neg hHere, or_iff_right hHere]
    exact hRest

/- What follows a parser cannot fail. -/
theorem bind_total
    {result : StorageResult β}
    {store : β → StorageResult γ}
    (hParses : Parses result good bad)
    (hTotal : ∀ b, ∃ c, store b = .ok c) :
    Parses (result >>= store) good bad := by
  cases result with
  | ok b =>
      have hGood : good := hParses.ok_iff.mp ⟨b, rfl⟩
      have hBad : ¬ bad :=
        fun h => nomatch hParses.panicked_iff.mpr h
      rcases hTotal b with ⟨c, hStore⟩
      rw [ok_bind, hStore]
      exact .of_ok c hGood hBad
  | error e =>
      have hGood : ¬ good :=
        fun h => nomatch hParses.ok_iff.mpr h
      refine ⟨iff_of_false nofun hGood, ?_⟩
      rw [← hParses.panicked_iff]
      constructor
      · rintro ⟨message, hEq⟩
        cases hEq
        exact ⟨message, rfl⟩
      · rintro ⟨message, hEq⟩
        cases hEq
        exact ⟨message, rfl⟩

/- A value that is parsed and then stored. -/
theorem map_ok
    {result : StorageResult β}
    (hParses : Parses result good False)
    (store : β → γ) :
    Parses (result >>= fun b => pure (store b))
      good False :=
  hParses.bind_total fun b => ⟨store b, rfl⟩

/- A text that is parsed further. -/
theorem bind_text
    {Known : String → Prop}
    {parse : String → StorageResult β}
    (hParse : ∀ s, Parses (parse s) (Known s) False)
    (key : String)
    (value : Json) :
    Parses (parseString key value >>= parse)
      ((OptionKind.text Known).Accepts value) False := by
  simp only [parseString, OptionKind.Accepts]
  cases hStr : value.asStr with
  | none =>
      rw [unsupported_bind]
      exact .of_unsupported _ (by simp) id
  | some s =>
      have hAccepts :
          (∃ s', some s = some s' ∧ Known s') ↔
            Known s := by
        simp
      rw [hAccepts, ok_bind]
      exact hParse s

theorem count
    (key : String)
    (value : Json) :
    Parses (parseUsize key value)
      (OptionKind.count.Accepts value) False := by
  simp only [parseUsize, OptionKind.Accepts]
  cases value.asU64 with
  | none => exact .of_unsupported _ (by simp) id
  | some n => exact .of_ok n ⟨n, rfl⟩ id

theorem flag
    (key : String)
    (value : Json) :
    Parses (parseBool key value)
      (OptionKind.flag.Accepts value) False := by
  simp only [parseBool, OptionKind.Accepts]
  cases value.asBool with
  | none => exact .of_unsupported _ (by simp) id
  | some b => exact .of_ok b ⟨b, rfl⟩ id

/- The assertion of the row group setter. -/
theorem setMaxRowGroupSize
    (builder : WriterProperties)
    (size : UInt64) :
    Parses (Planar.setMaxRowGroupSize builder size)
      (0 < size) (size = 0) := by
  unfold Planar.setMaxRowGroupSize
  by_cases hPos : 0 < size
  · rw [if_pos hPos]
    exact .of_ok _ hPos (UInt64.pos_iff_ne_zero.mp hPos)
  · rw [if_neg hPos]
    have hZero : size = 0 :=
      not_not.mp (mt UInt64.pos_iff_ne_zero.mpr hPos)
    exact .of_panicked _ hPos hZero

theorem positive
    (builder : WriterProperties)
    (key : String)
    (value : Json) :
    Parses
      (parseUsize key value >>=
        Planar.setMaxRowGroupSize builder)
      (OptionKind.positive.Accepts value)
      (value.asU64 = some 0) := by
  simp only [parseUsize, OptionKind.Accepts]
  cases value.asU64 with
  | none =>
      rw [unsupported_bind]
      exact .of_unsupported _ (by simp) (by simp)
  | some n =>
      have hAccepts :
          (∃ n', some n = some n' ∧ 0 < n') ↔ 0 < n := by
        simp
      rw [hAccepts, ok_bind, Option.some.injEq]
      exact setMaxRowGroupSize builder n

end Parses

------------------------------------------------------------
-- One Entry of Each Format
------------------------------------------------------------

theorem parseCompression_parses
    (s : String) :
    Parses (parseCompression s)
      (toLowercase s ∈ compressionNames) False := by
  unfold parseCompression
  simp only [compressionNames, List.mem_cons,
    List.not_mem_nil]
  rw [← or_assoc]
  iterate 6 apply Parses.ite_ok
  exact .of_unsupported _ id id

theorem parseBloomFilterPosition_parses
    (s : String) :
    Parses (parseBloomFilterPosition s)
      (toLowercase s ∈ bloomFilterPositionNames) False := by
  unfold parseBloomFilterPosition
  simp only [bloomFilterPositionNames, List.mem_cons,
    List.not_mem_nil]
  rw [← or_assoc]
  iterate 2 apply Parses.ite_ok
  exact .of_unsupported _ id id

theorem parseWriterVersion_parses
    (ext : External)
    (s : String) :
    Parses (parseWriterVersion ext s)
      (∃ version, ext.writerVersionFromStr s = .ok version)
      False := by
  unfold parseWriterVersion
  cases ext.writerVersionFromStr s with
  | ok version => exact .of_ok _ ⟨version, rfl⟩ id
  | error message =>
      exact .of_unsupported _ nofun id

theorem parseWriteMode_parses
    (ext : External)
    (s : String) :
    Parses (parseWriteMode ext s)
      (∃ mode, ext.writeModeTryFrom s = some mode)
      False := by
  unfold parseWriteMode
  cases ext.writeModeTryFrom s with
  | some mode => exact .of_ok _ ⟨mode, rfl⟩ id
  | none => exact .of_unsupported _ nofun id

section

variable {ext : External}
variable {format : Format}
variable {key : String}
variable {value : Json}
variable {kind : OptionKind}
variable {result : StorageResult β}

theorem legalEntry_iff
    (hKind : formatOption ext format key = some kind) :
    LegalEntry ext format (key, value) ↔
      kind.Accepts value := by
  unfold LegalEntry
  rw [hKind]
  simp

/- A known key that no setter asserts anything of. -/
theorem Parses.known
    (hKind : formatOption ext format key = some kind)
    (hKey : key ≠ "max_row_group_size")
    (hParses : Parses result (kind.Accepts value) False) :
    Parses result (LegalEntry ext format (key, value))
      (ZeroRowGroup format (key, value)) := by
  rw [legalEntry_iff hKind]
  have hZero : ¬ ZeroRowGroup format (key, value) :=
    fun h => hKey h.2.1
  rwa [iff_false_intro hZero]

/- A key that the format does not know. -/
theorem Parses.unknown
    (message : String)
    (hKind : formatOption ext format key = none)
    (hKey : format = .parquet → key ≠ "max_row_group_size") :
    Parses (unsupported message : StorageResult β)
      (LegalEntry ext format (key, value))
      (ZeroRowGroup format (key, value)) := by
  apply Parses.of_unsupported
  · rintro ⟨kind, hSome, -⟩
    rw [hKind] at hSome
    cases hSome
  · rintro ⟨hFormat, hEq, -⟩
    exact hKey hFormat hEq

end

theorem parquetParseOption_parses
    (ext : External)
    (builder : WriterProperties)
    (entry : String × Json) :
    Parses (parquetParseOption ext builder entry)
      (LegalEntry ext .parquet entry)
      (ZeroRowGroup .parquet entry) := by
  rcases entry with ⟨key, value⟩
  unfold parquetParseOption
  dsimp only
  split
  case h_1 =>
    apply Parses.known rfl (by decide)
    apply Parses.bind_text
    intro s
    exact (parseCompression_parses s).map_ok _
  case h_2 =>
    rw [legalEntry_iff rfl]
    have hZero :
        ZeroRowGroup .parquet
            ("max_row_group_size", value) ↔
          value.asU64 = some 0 := by
      simp [ZeroRowGroup]
    rw [hZero]
    exact .positive builder _ value
  case h_6 =>
    apply Parses.known rfl (by decide)
    apply Parses.bind_text
    intro s
    exact (parseWriterVersion_parses ext s).map_ok _
  case h_7 =>
    apply Parses.known rfl (by decide)
    apply Parses.bind_text
    intro s
    exact (parseBloomFilterPosition_parses s).map_ok _
  case h_8 =>
    apply Parses.known rfl (by decide)
    apply Parses.bind_text
    intro s
    exact .of_ok _ trivial id
  case h_9 =>
    exact ((Parses.flag _ _).map_ok _).known rfl
      (by decide)
  case h_10 =>
    apply Parses.unknown
    · simp only [formatOption]
      unfold parquetOption
      split <;> simp_all
    · intro _
      assumption
  all_goals
    exact ((Parses.count _ _).map_ok _).known rfl
      (by decide)

theorem lanceParseOption_parses
    (ext : External)
    (params : WriteParams)
    (entry : String × Json) :
    Parses (lanceParseOption ext params entry)
      (LegalEntry ext .lance entry)
      (ZeroRowGroup .lance entry) := by
  rcases entry with ⟨key, value⟩
  unfold lanceParseOption
  dsimp only
  split
  case h_4 =>
    apply Parses.known rfl (by decide)
    apply Parses.bind_text
    intro s
    exact (parseWriteMode_parses ext s).map_ok _
  case h_7 =>
    apply Parses.unknown
    · simp only [formatOption]
      unfold lanceOption
      split <;> simp_all
    · intro hFormat
      cases hFormat
  case h_5 | h_6 =>
    exact ((Parses.flag _ _).map_ok _).known rfl
      (by decide)
  all_goals
    exact ((Parses.count _ _).map_ok _).known rfl
      (by decide)

theorem vortexParseOption_parses
    (ext : External)
    (parsed : VortexWriteOptions)
    (entry : String × Json) :
    Parses (vortexParseOption parsed entry)
      (LegalEntry ext .vortex entry)
      (ZeroRowGroup .vortex entry) := by
  rcases entry with ⟨key, value⟩
  unfold vortexParseOption
  dsimp only
  split
  case h_1 =>
    apply Parses.known rfl (by decide)
    apply (Parses.flag _ _).bind_total
    intro val
    cases val with
    | false => exact ⟨_, rfl⟩
    | true => exact ⟨_, rfl⟩
  case h_2 =>
    apply Parses.unknown
    · simp only [formatOption]
      unfold vortexOption
      split <;> simp_all
    · intro hFormat
      cases hFormat

------------------------------------------------------------
-- All Entries
------------------------------------------------------------

/- The loop over the entries of an object. -/
theorem foldlM_parses
    {ext : External}
    {format : Format}
    {step : β → String × Json → StorageResult β}
    (hStep : ∀ b entry,
      Parses (step b entry) (LegalEntry ext format entry)
        (ZeroRowGroup format entry))
    (options : Json)
    (b : β) :
    Parses
      (optionEntries options >>= fun entries =>
        entries.foldlM step b)
      (LegalOptions ext format options)
      (ZeroReached ext format options) := by
  unfold optionEntries LegalOptions ZeroReached
  cases options.asObject with
  | none =>
      rw [unsupported_bind]
      exact .of_unsupported _ (by simp) (by simp)
  | some entries =>
      rw [ok_bind]
      have hOk := foldlM_ok_iff
        (fun b entry => (hStep b entry).ok_iff) entries b
      have hPanic := foldlM_error_iff
        (fun b entry => (hStep b entry).ok_iff)
        (fun b entry => (hStep b entry).panicked_iff)
        entries b
      constructor
      · rw [hOk]
        simp
      · rw [hPanic]
        simp

/- Validation parses and then forgets what it has parsed. -/
theorem validateFormatOptions_parses
    (ext : External)
    (format : Format)
    (options : Json) :
    Parses (validateFormatOptions ext format.asStr options)
      (LegalOptions ext format options)
      (ZeroReached ext format options) := by
  cases format with
  | parquet =>
      exact (foldlM_parses
        (parquetParseOption_parses ext) options {}).bind_total
          fun _ => ⟨(), rfl⟩
  | lance =>
      exact (foldlM_parses
        (lanceParseOption_parses ext) options {}).bind_total
          fun _ => ⟨(), rfl⟩
  | vortex =>
      exact (foldlM_parses
        (vortexParseOption_parses ext) options {}).bind_total
          fun _ => ⟨(), rfl⟩

/- The order of the entries does not matter to legality. -/
theorem LegalOptions.perm_iff
    {ext : External}
    {format : Format}
    {entries entries' : List (String × Json)}
    (hPerm : entries.Perm entries') :
    LegalOptions ext format
        (.object (.ofList entries)) ↔
      LegalOptions ext format
        (.object (.ofList entries')) := by
  unfold LegalOptions
  simp only [Json.asObject, JsonEntries.toList_ofList,
    Option.some.injEq, exists_eq_left']
  constructor
  · intro hAll entry hMem
    exact hAll entry (hPerm.mem_iff.mpr hMem)
  · intro hAll entry hMem
    exact hAll entry (hPerm.mem_iff.mp hMem)

------------------------------------------------------------
-- Validation
------------------------------------------------------------

/-
  Validation returns, accepts exactly the legal options, and
  decides the same for every order of the entries.
-/
structure Validates
    (ext : External)
    (format : Format)
    (options : Json) : Prop where
  returns : ∀ message,
    validateFormatOptions ext format.asStr options ≠
      .error (.panicked message)
  ok_iff :
    validateFormatOptions ext format.asStr options =
        .ok () ↔
      LegalOptions ext format options
  reordered : ∀ entries entries',
    options = .object (.ofList entries) →
    entries.Perm entries' →
      (validateFormatOptions ext format.asStr options =
          .ok () ↔
        validateFormatOptions ext format.asStr
          (.object (.ofList entries')) = .ok ())

theorem validateFormatOptions_ok_iff
    (ext : External)
    (format : Format)
    (options : Json) :
    validateFormatOptions ext format.asStr options =
        .ok () ↔
      LegalOptions ext format options := by
  rw [← (validateFormatOptions_parses ext format
    options).ok_iff]
  constructor
  · intro hOk
    exact ⟨(), hOk⟩
  · rintro ⟨_, hOk⟩
    exact hOk

/-
  Validation is exact and never panics, but for a Parquet
  row group size of zero that the loop gets to.
-/
theorem validates_iff
    (ext : External)
    (format : Format)
    (options : Json) :
    Validates ext format options ↔
      ¬ ZeroReached ext format options := by
  rw [← (validateFormatOptions_parses ext format
    options).panicked_iff]
  constructor
  · rintro hValidates ⟨message, hPanic⟩
    exact hValidates.returns message hPanic
  · intro hReturns
    refine ⟨fun message hPanic => hReturns ⟨message, hPanic⟩,
      validateFormatOptions_ok_iff ext format options, ?_⟩
    rintro entries entries' rfl hPerm
    rw [validateFormatOptions_ok_iff,
      validateFormatOptions_ok_iff]
    exact LegalOptions.perm_iff hPerm

/- A row group size of zero reaches the assertion. -/
theorem validateFormatOptions_panics :
    let options : Json :=
      .object (.ofList
        [("max_row_group_size", .number (.posInt 0))])
    validateFormatOptions sampleExternal "parquet" options =
        .error (.panicked
          "Cannot have a 0 max row group size") ∧
      ¬ Validates sampleExternal .parquet options := by
  have hPanic :
      validateFormatOptions sampleExternal "parquet"
          (.object (.ofList
            [("max_row_group_size",
              .number (.posInt 0))])) =
        .error (.panicked
          "Cannot have a 0 max row group size") := by
    decide +kernel
  refine ⟨hPanic, ?_⟩
  intro hValidates
  exact hValidates.returns _ hPanic

end Planar
