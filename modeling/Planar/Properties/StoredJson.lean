import Planar.History.StoredTexts
import Planar.Properties.TimeTravel

/-
  Which of the stored JSON values read back.

  Main declarations:
    * `External.SerdeJson`
    * `ReadsBackFrom`
    * `World.Reachable.jsonReadsBack`
-/

------------------------------------------------------------
-- Reading Stored Values Back
------------------------------------------------------------

namespace Planar

/-
  What serde_json documents of a value: the text of a value
  without floats is parsed into the value, unless it is
  nested deeper than the parser goes.  The parser counts
  down from 128 and stops at zero, so by default it reads
  127 levels and rejects the next one.
-/
structure External.SerdeJson
    (ext : External)
    (recursionLimit : Nat)
    (value : Json) : Prop where
  inverts : value.floatFree = true →
    value.depth ≤ recursionLimit → ext.ReadsJson value
  rejects : recursionLimit < value.depth →
    ∃ e, ext.jsonFromStr (ext.jsonToString value) = .error e

/- A stored text is small and gives its value back. -/
structure ReadsBackFrom
    (ext : External)
    (text : String)
    (value : Json) : Prop where
  size : text.utf8ByteSize ≤ maxJsonSizeBytes
  json : parseJson ext (some text) = .ok value
  optional :
    parseJsonOptional ext (some text) = .ok (some value)
  properties : ∀ p : TableProperties, value = p.toJson →
    parseTableProperties ext (some text) = .ok p

variable
  {ext : External}
  {text : String}
  {value : Json}

theorem checkJsonSize_ok
    (hOk : checkJsonSize text = .ok ()) :
    asU32 text.utf8ByteSize ≤ maxJsonSizeBytes := by
  unfold checkJsonSize at hOk
  split at hOk
  · cases hOk
  · omega

/- The size that is checked is the size below 2^32. -/
theorem size_of_checkJsonSize
    (hOk : checkJsonSize text = .ok ())
    (hShort : text.utf8ByteSize < 2 ^ 32) :
    text.utf8ByteSize ≤ maxJsonSizeBytes := by
  have hSize := checkJsonSize_ok hOk
  rwa [asU32_of_lt hShort] at hSize

/- A stored value reads back if it is shallow and short. -/
theorem readsBackFrom_iff
    {recursionLimit : Nat}
    (hSerde : ext.SerdeJson recursionLimit value)
    (hFloats : value.floatFree = true)
    (hStored : serializeJson ext value = .ok text) :
    ReadsBackFrom ext text value ↔
      value.depth ≤ recursionLimit ∧
        text.utf8ByteSize < 2 ^ 32 := by
  rcases serializeJson_ok hStored with ⟨rfl, hSize⟩
  constructor
  · intro hReads
    constructor
    · by_contra hDeep
      rcases hSerde.rejects (Nat.lt_of_not_le hDeep) with
        ⟨e, hError⟩
      have hParse := parseJsonText_ok hReads.json
      rw [hError] at hParse
      cases hParse
    · have hLimit := hReads.size
      unfold maxJsonSizeBytes at hLimit
      omega
  · rintro ⟨hShallow, hShort⟩
    have hParse := parseJsonText_of_reads hSize
      (hSerde.inverts hFloats hShallow)
    constructor
    case size => exact size_of_checkJsonSize hSize hShort
    case json => exact hParse
    case optional =>
      exact bind_ok.mpr ⟨value, hParse, rfl⟩
    case properties =>
      rintro p rfl
      exact bind_ok.mpr ⟨_, hParse, p.fromJson_toJson⟩

/-
  Every JSON text in a reachable state is that of a value
  that a call serialized, and it gives the value back, within
  the size limit, exactly when the value is not nested deeper
  than the parser goes and its text has less than 2^32
  bytes.
-/
theorem World.Reachable.jsonReadsBack
    {w : World}
    (hReach : w.Reachable ext)
    (hText : text ∈ w.database.jsonTexts) :
    (∃ value, serializeJson ext value = .ok text) ∧
    ∀ value recursionLimit,
      serializeJson ext value = .ok text →
      ext.SerdeJson recursionLimit value →
      value.floatFree = true →
      (ReadsBackFrom ext text value ↔
        value.depth ≤ recursionLimit ∧
          text.utf8ByteSize < 2 ^ 32) :=
  ⟨hReach.serialized text hText,
    fun _ _ hStored hSerde hFloats =>
      readsBackFrom_iff hSerde hFloats hStored⟩

theorem jsonReadsBack_sample :
    (∃ value, serializeJson sampleExternal value =
        .ok "\x7b\"k\":\"v\"\x7d") ∧
    ∀ value recursionLimit,
      serializeJson sampleExternal value =
        .ok "\x7b\"k\":\"v\"\x7d" →
      sampleExternal.SerdeJson recursionLimit value →
      value.floatFree = true →
      (ReadsBackFrom sampleExternal "\x7b\"k\":\"v\"\x7d"
          value ↔
        value.depth ≤ recursionLimit ∧
          "\x7b\"k\":\"v\"\x7d".utf8ByteSize < 2 ^ 32) :=
  (World.reachable_run sampleExternal
    sampleCalls).jsonReadsBack (by decide +kernel)

------------------------------------------------------------
-- A Value That Does Not Read Back
------------------------------------------------------------

/- Arrays inside each other. -/
def nestedArrays : Nat → Json
| 0 => .null
| n + 1 => .array (.cons (nestedArrays n) .nil)

theorem depth_nestedArrays
    (n : Nat) :
    (nestedArrays n).depth = n := by
  induction n with
  | zero => rfl
  | succ n ih =>
      simp [nestedArrays, Json.depth, JsonList.depth, ih]

/- The properties with one value of 129 arrays. -/
def deepProperties : TableProperties :=
  ⟨[("k", nestedArrays 129)]⟩

theorem depth_deepProperties :
    deepProperties.toJson.depth = 130 := by
  simp [deepProperties, TableProperties.toJson,
    JsonEntries.ofList, Json.depth, JsonEntries.depth,
    depth_nestedArrays]

/- Their text. -/
def deepText : String :=
  "\x7b\"k\":" ++ String.ofList (List.replicate 129 '[') ++
    "null" ++ String.ofList (List.replicate 129 ']') ++
      "\x7d"

/- The external functions with what they do to the value. -/
def deepExternal : External :=
  { sampleExternal with
    jsonToString := fun value =>
      if value = deepProperties.toJson then deepText
      else sampleExternal.jsonToString value
    jsonFromStr := fun text =>
      if text = deepText then
        .error "recursion limit exceeded"
      else sampleExternal.jsonFromStr text }

def deepCall : CreateCall :=
  { catalog := sampleCatalog
    ident := sampleIdent
    location := "l"
    schema := ⟨[⟨"a", .int32, false⟩]⟩
    properties := some deepProperties
    draws := sampleDraws 1 }

/- A table that was created with the value. -/
def deepWorld : World :=
  World.run deepExternal [.create deepCall]

/-
  The value is stored, and then the table can be neither read
  nor committed to.
-/
theorem deepProperties_lock :
    deepWorld.Reachable deepExternal ∧
    deepText ∈ deepWorld.database.jsonTexts ∧
    serializeJson deepExternal deepProperties.toJson =
      .ok deepText ∧
    deepExternal.SerdeJson 127 deepProperties.toJson ∧
    deepProperties.toJson.floatFree = true ∧
    ¬ ReadsBackFrom deepExternal deepText
      deepProperties.toJson ∧
    ((readTable deepExternal sampleCatalog sampleIdent
      none).exec deepWorld.database).isOk = false ∧
    (commit deepExternal sampleCatalog sampleIdent 1
      ⟨[.setProperties {}]⟩ (sampleDraws 2)
        deepWorld.database).1.isOk = false := by
  have hError :
      deepExternal.jsonFromStr
          (deepExternal.jsonToString
            deepProperties.toJson) =
        .error "recursion limit exceeded" := by
    decide +kernel
  have hSerde :
      deepExternal.SerdeJson 127 deepProperties.toJson := by
    constructor
    · intro _ hShallow
      rw [depth_deepProperties] at hShallow
      omega
    · intro _
      exact ⟨_, hError⟩
  have hFloats : deepProperties.toJson.floatFree = true := by
    decide +kernel
  have hStored :
      serializeJson deepExternal deepProperties.toJson =
        .ok deepText := by
    decide +kernel
  refine ⟨World.reachable_run .., by decide +kernel,
    hStored, hSerde, hFloats, ?_, by decide +kernel,
    by decide +kernel⟩
  intro hReads
  have hShallow :=
    ((readsBackFrom_iff hSerde hFloats hStored).mp hReads).1
  rw [depth_deepProperties] at hShallow
  omega

end Planar
