import Planar.Catalog.DataType
import Planar.Database.Records
import Planar.Values.Json

/-
  The third-party functions that the catalog calls, and the
  row orders of the database.

  Main declarations:
    * `WriterVersion`, `WriteMode`
    * `External`
-/

------------------------------------------------------------
-- External Functions
------------------------------------------------------------

namespace Planar

/- The Parquet format versions of the Parquet crate. -/
inductive WriterVersion where
  | parquet1
  | parquet2
  deriving DecidableEq

/- The write modes of the Lance crate. -/
inductive WriteMode where
  | create
  | append
  | overwrite
  deriving DecidableEq

/-
  The functions of serde_json, arrow-ipc, Parquet and Lance
  that the catalog relies on, the debug form of a type that
  appears in one error message, and the orders in which the
  database returns rows.
-/
structure External where
  jsonToString : Json → String
  jsonFromStr : String → Except String Json
  schemaToFb : List Field → List UInt8
  fbToSchema : List UInt8 → Except String (List Field)
  debugDataType : DataType → String
  writerVersionFromStr : String → Except String WriterVersion
  writeModeTryFrom : String → Option WriteMode
  orders : RowOrders

end Planar
