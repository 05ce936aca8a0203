import Planar.Catalog.Models

/-
  Conversions between stored texts and values, and the fresh
  values that a call draws.

  Main declarations:
    * `encodeDataType`, `decodeDataType`
    * `parseJson`, `parseTableProperties`,
      `parseJsonOptional`
    * `serializeJson`, `serializeJsonOptional`
    * `Draws`
-/

------------------------------------------------------------
-- Data Types
------------------------------------------------------------

namespace Planar

/-
  Encode a data type: the encoded schema of one nullable
  field named `_`.  Encoding never fails.
-/
def encodeDataType
    (ext : External)
    (dataType : DataType) : List UInt8 :=
  ext.schemaToFb [.mk "_" dataType true []]

/- Decode a data type: the type of the only field. -/
def decodeDataType
    (ext : External)
    (bytes : List UInt8) : Result DataType :=
  match ext.fbToSchema bytes with
  | .error e =>
      fault (.arrow s!"Invalid FlatBuffer schema: {e}")
  | .ok [] =>
      fault (.invalidArgument
        "Invalid encoded DataType: schema has no fields")
  | .ok [field] => .ok field.dataType
  | .ok fields =>
      fault (.invalidArgument
        ("Invalid encoded DataType: expected 1 field, " ++
          s!"found {fields.length}"))

------------------------------------------------------------
-- JSON Texts
------------------------------------------------------------

/- The check of a text against the size limit. -/
def checkJsonSize (text : String) : Result Unit :=
  if asU32 text.utf8ByteSize > maxJsonSizeBytes then
    fault (.limitExceeded
      (s!"JSON size {text.utf8ByteSize} bytes exceeds " ++
        s!"limit of {maxJsonSizeBytes} bytes"))
  else .ok ()

/- Parse a text within the size limit. -/
def parseJsonText
    (ext : External)
    (text : String) : Result Json := do
  checkJsonSize text
  match ext.jsonFromStr text with
  | .ok value => .ok value
  | .error e =>
      fault (.invalidArgument s!"invalid json: {e}")

/- Parse an optional text; nothing is the empty object. -/
def parseJson
    (ext : External) : Option String → Result Json
| some text => parseJsonText ext text
| none => .ok Json.emptyObject

/- Parse table properties from an optional text. -/
def parseTableProperties
    (ext : External)
    (value : Option String) : Result TableProperties := do
  TableProperties.fromJson (← parseJson ext value)

/- Parse an optional text into an optional value. -/
def parseJsonOptional
    (ext : External) :
    Option String → Result (Option Json)
| some text => do
    let value ← parseJsonText ext text
    pure (some value)
| none => .ok none

/- Serialize a value within the size limit. -/
def serializeJson
    (ext : External)
    (value : Json) : Result String := do
  let jsonStr := ext.jsonToString value
  checkJsonSize jsonStr
  pure jsonStr

/- Serialize an optional value. -/
def serializeJsonOptional
    (ext : External) :
    Option Json → Result (Option String)
| some value => do
    let text ← serializeJson ext value
    pure (some text)
| none => .ok none

theorem serializeJson_ok
    {ext : External}
    {value : Json}
    {text : String}
    (hOk : serializeJson ext value = .ok text) :
    text = ext.jsonToString value ∧
      checkJsonSize text = .ok () := by
  rcases bind_ok.mp hOk with ⟨u, hSize, hText⟩
  rcases Except.ok.inj hText with rfl
  exact ⟨rfl, hSize⟩

theorem serializeJsonOptional_ok
    {ext : External}
    {value : Option Json}
    {text : Option String}
    (hOk : serializeJsonOptional ext value = .ok text) :
    text = value.map ext.jsonToString := by
  cases value with
  | none =>
      rcases Except.ok.inj hOk with rfl
      rfl
  | some v =>
      rcases bind_ok.mp hOk with ⟨t, hText, hSome⟩
      rcases Except.ok.inj hSome with rfl
      rw [(serializeJson_ok hText).1]
      rfl

------------------------------------------------------------
-- Fresh Values
------------------------------------------------------------

/-
  The values that one call draws: the new transaction id,
  the clock reading and the random UUIDs.  Operations and
  their elements are numbered, so that every place in the
  code that draws has its own value.
-/
structure Draws where
  transactionId : TxnId
  now : Timestamp
  tableUuid : Uuid
  schemaUuid : Nat → Uuid
  columnUuid : Nat → Nat → Uuid
  fileUuid : Nat → Nat → Uuid

end Planar
