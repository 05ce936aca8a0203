import Mathlib.Tactic.Common

/-
  JSON values as the catalog holds them in memory.

  Main declarations:
    * `JsonNumber`, `Json`, `JsonList`, `JsonEntries`
    * `Json.floatFree`, `Json.depth`
    * `JsonEntries.toList`, `JsonEntries.ofList`
    * `Json.asStr`, `Json.asBool`, `Json.asU64`,
      `Json.asObject`
-/

------------------------------------------------------------
-- JSON Values
------------------------------------------------------------

namespace Planar

/-
  A number is a nonnegative or negative integer of 64 bits,
  or a float, kept here by its bits.
-/
inductive JsonNumber where
  | posInt (n : UInt64)
  | negInt (n : Int64)
  | float (bits : UInt64)
  deriving DecidableEq

mutual

/-
  A JSON value.  The entries of an object are those of an
  ordered map: distinct keys, in the order of the keys.
-/
inductive Json where
  | null
  | bool (b : Bool)
  | number (n : JsonNumber)
  | string (s : String)
  | array (items : JsonList)
  | object (entries : JsonEntries)
  deriving DecidableEq

inductive JsonList where
  | nil
  | cons (item : Json) (rest : JsonList)
  deriving DecidableEq

inductive JsonEntries where
  | nil
  | cons (key : String) (value : Json)
      (rest : JsonEntries)
  deriving DecidableEq

end

def JsonNumber.isInteger : JsonNumber → Bool
| .posInt _ => true
| .negInt _ => true
| .float _ => false

mutual

/- A value has no float anywhere. -/
def Json.floatFree : Json → Bool
| .null => true
| .bool _ => true
| .number n => n.isInteger
| .string _ => true
| .array items => items.floatFree
| .object entries => entries.floatFree

def JsonList.floatFree : JsonList → Bool
| .nil => true
| .cons item rest => item.floatFree && rest.floatFree

def JsonEntries.floatFree : JsonEntries → Bool
| .nil => true
| .cons _ value rest => value.floatFree && rest.floatFree

end

mutual

/- How many arrays and objects are inside each other. -/
def Json.depth : Json → Nat
| .null => 0
| .bool _ => 0
| .number _ => 0
| .string _ => 0
| .array items => items.depth + 1
| .object entries => entries.depth + 1

def JsonList.depth : JsonList → Nat
| .nil => 0
| .cons item rest => max item.depth rest.depth

def JsonEntries.depth : JsonEntries → Nat
| .nil => 0
| .cons _ value rest => max value.depth rest.depth

end

namespace JsonEntries

/- The entries of an object, in the order of the keys. -/
def toList : JsonEntries → List (String × Json)
| .nil => []
| .cons key value rest => (key, value) :: rest.toList

/- The object with the given entries. -/
def ofList : List (String × Json) → JsonEntries
| [] => .nil
| (key, value) :: rest => .cons key value (ofList rest)

@[simp] theorem toList_ofList
    (entries : List (String × Json)) :
    (ofList entries).toList = entries := by
  induction entries with
  | nil => rfl
  | cons entry rest ih =>
      simp [ofList, toList, ih]

end JsonEntries

namespace Json

/- The empty object `json!({})`. -/
def emptyObject : Json :=
  .object .nil

def asStr : Json → Option String
| .string s => some s
| _ => none

def asBool : Json → Option Bool
| .bool b => some b
| _ => none

def asU64 : Json → Option UInt64
| .number (.posInt n) => some n
| _ => none

def asObject : Json → Option (List (String × Json))
| .object entries => some entries.toList
| _ => none

def isObject (v : Json) : Bool :=
  v.asObject.isSome

end Json

end Planar
