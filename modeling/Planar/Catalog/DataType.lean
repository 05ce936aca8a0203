import Mathlib.Tactic.Common

/-
  Arrow data types and the rules by which the type of a
  column may change.

  Main declarations:
    * `TimeUnit`, `DataType`, `Field`
    * `canEvolveTo`
    * `Widens`, `canEvolveTo_iff`
    * `canEvolveTo_refl`, `canEvolveTo_trans`
-/

------------------------------------------------------------
-- Arrow Types
------------------------------------------------------------

namespace Planar

inductive TimeUnit where
  | second
  | millisecond
  | microsecond
  | nanosecond
  deriving DecidableEq

inductive IntervalUnit where
  | yearMonth
  | dayTime
  | monthDayNano
  deriving DecidableEq

inductive UnionMode where
  | sparse
  | dense
  deriving DecidableEq

mutual

/- An Arrow data type. -/
inductive DataType where
  | null
  | boolean
  | int8
  | int16
  | int32
  | int64
  | uint8
  | uint16
  | uint32
  | uint64
  | float16
  | float32
  | float64
  | timestamp (unit : TimeUnit) (tz : Option String)
  | date32
  | date64
  | time32 (unit : TimeUnit)
  | time64 (unit : TimeUnit)
  | duration (unit : TimeUnit)
  | interval (unit : IntervalUnit)
  | binary
  | fixedSizeBinary (size : Int32)
  | largeBinary
  | binaryView
  | utf8
  | largeUtf8
  | utf8View
  | list (field : Field)
  | listView (field : Field)
  | fixedSizeList (field : Field) (size : Int32)
  | largeList (field : Field)
  | largeListView (field : Field)
  | struct (fields : Fields)
  | union (fields : UnionFields) (mode : UnionMode)
  | dictionary (key value : DataType)
  | decimal32 (precision : UInt8) (scale : Int8)
  | decimal64 (precision : UInt8) (scale : Int8)
  | decimal128 (precision : UInt8) (scale : Int8)
  | decimal256 (precision : UInt8) (scale : Int8)
  | map (field : Field) (sorted : Bool)
  | runEndEncoded (runEnds values : Field)
  deriving DecidableEq

/- A named field, with the parts that equality compares. -/
inductive Field where
  | mk (name : String) (dataType : DataType)
      (nullable : Bool) (metadata : List (String × String))
  deriving DecidableEq

inductive Fields where
  | nil
  | cons (field : Field) (rest : Fields)
  deriving DecidableEq

inductive UnionFields where
  | nil
  | cons (typeId : Int8) (field : Field)
      (rest : UnionFields)
  deriving DecidableEq

end

/- The type of a field. -/
def Field.dataType : Field → DataType
| .mk _ dataType _ _ => dataType

------------------------------------------------------------
-- Schema Evolution of One Column Type
------------------------------------------------------------

/- Check whether a type can safely evolve to another. -/
def canEvolveTo (fromType toType : DataType) : Bool :=
  if fromType = toType then true else
  match fromType, toType with
  | .int8, .int16 | .int8, .int32 | .int8, .int64 => true
  | .int16, .int32 | .int16, .int64 => true
  | .int32, .int64 => true
  | .uint8, .uint16 | .uint8, .uint32
  | .uint8, .uint64 => true
  | .uint16, .uint32 | .uint16, .uint64 => true
  | .uint32, .uint64 => true
  | .float32, .float64 => true
  | .date32, .date64 => true
  | .timestamp fromUnit fromTz, .timestamp toUnit toTz =>
      if fromTz ≠ toTz then false else
      match fromUnit, toUnit with
      | .second, .millisecond | .second, .microsecond
      | .second, .nanosecond => true
      | .millisecond, .microsecond
      | .millisecond, .nanosecond => true
      | .microsecond, .nanosecond => true
      | _, _ => false
  | .decimal128 fromPrecision fromScale,
    .decimal128 toPrecision toScale =>
      fromScale = toScale && toPrecision > fromPrecision
  | .decimal256 fromPrecision fromScale,
    .decimal256 toPrecision toScale =>
      fromScale = toScale && toPrecision > fromPrecision
  | _, _ => false

/- The number of doublings of an integer or float width. -/
def DataType.signedWidth : DataType → Option Nat
| .int8 => some 0
| .int16 => some 1
| .int32 => some 2
| .int64 => some 3
| _ => none

def DataType.unsignedWidth : DataType → Option Nat
| .uint8 => some 0
| .uint16 => some 1
| .uint32 => some 2
| .uint64 => some 3
| _ => none

/- How fine a time unit is. -/
def TimeUnit.fineness : TimeUnit → Nat
| .second => 0
| .millisecond => 1
| .microsecond => 2
| .nanosecond => 3

/- The strict evolutions, one constructor for each family. -/
inductive Widens : DataType → DataType → Prop where
  | signed {a b : DataType} {m n : Nat}
      (hFrom : a.signedWidth = some m)
      (hTo : b.signedWidth = some n)
      (hWider : m < n) : Widens a b
  | unsigned {a b : DataType} {m n : Nat}
      (hFrom : a.unsignedWidth = some m)
      (hTo : b.unsignedWidth = some n)
      (hWider : m < n) : Widens a b
  | float : Widens .float32 .float64
  | date : Widens .date32 .date64
  | timestamp {u v : TimeUnit} {tz : Option String}
      (hFiner : u.fineness < v.fineness) :
      Widens (.timestamp u tz) (.timestamp v tz)
  | decimal128 {p q : UInt8} {scale : Int8}
      (hWider : p < q) :
      Widens (.decimal128 p scale) (.decimal128 q scale)
  | decimal256 {p q : UInt8} {scale : Int8}
      (hWider : p < q) :
      Widens (.decimal256 p scale) (.decimal256 q scale)

theorem canEvolveTo_refl
    (a : DataType) :
    canEvolveTo a a = true := by
  simp [canEvolveTo]

theorem TimeUnit.canEvolveTo_timestamp
    {u v : TimeUnit}
    {tz : Option String}
    (hEq : u ≠ v) :
    canEvolveTo (.timestamp u tz) (.timestamp v tz) =
      decide (u.fineness < v.fineness) := by
  cases u <;> cases v <;>
    simp_all [canEvolveTo, TimeUnit.fineness]

/- An accepted evolution is trivial or widens. -/
theorem eq_or_widens_of_canEvolveTo
    {a b : DataType}
    (hEvolve : canEvolveTo a b = true) :
    a = b ∨ Widens a b := by
  by_cases hEq : a = b
  · exact .inl hEq
  right
  have hWhole := hEvolve
  unfold canEvolveTo at hEvolve
  rw [if_neg hEq] at hEvolve
  split at hEvolve
  case h_15 u tz v tz' =>
    by_cases hTz : tz = tz'
    · subst hTz
      have hUnit : u ≠ v := by
        rintro rfl
        exact hEq rfl
      rw [TimeUnit.canEvolveTo_timestamp hUnit] at hWhole
      exact .timestamp (of_decide_eq_true hWhole)
    · simp [hTz] at hEvolve
  case h_16 =>
    rcases Bool.and_eq_true_iff.mp hEvolve with
      ⟨hScale, hWider⟩
    rw [of_decide_eq_true hScale]
    exact .decimal128 (of_decide_eq_true hWider)
  case h_17 =>
    rcases Bool.and_eq_true_iff.mp hEvolve with
      ⟨hScale, hWider⟩
    rw [of_decide_eq_true hScale]
    exact .decimal256 (of_decide_eq_true hWider)
  case h_18 => cases hEvolve
  all_goals
    first
    | exact .float
    | exact .date
    | exact .signed rfl rfl (by decide)
    | exact .unsigned rfl rfl (by decide)

theorem canEvolveTo_of_signedWidth
    {a b : DataType}
    {m n : Nat}
    (hFrom : a.signedWidth = some m)
    (hTo : b.signedWidth = some n)
    (hWider : m < n) :
    canEvolveTo a b = true := by
  cases a <;> simp [DataType.signedWidth] at hFrom
  all_goals
    cases b <;> simp [DataType.signedWidth] at hTo
  all_goals
    first
    | rfl
    | omega

theorem canEvolveTo_of_unsignedWidth
    {a b : DataType}
    {m n : Nat}
    (hFrom : a.unsignedWidth = some m)
    (hTo : b.unsignedWidth = some n)
    (hWider : m < n) :
    canEvolveTo a b = true := by
  cases a <;> simp [DataType.unsignedWidth] at hFrom
  all_goals
    cases b <;> simp [DataType.unsignedWidth] at hTo
  all_goals
    first
    | rfl
    | omega

theorem canEvolveTo_of_widens
    {a b : DataType}
    (hWidens : Widens a b) :
    canEvolveTo a b = true := by
  cases hWidens with
  | signed hFrom hTo hWider =>
      exact canEvolveTo_of_signedWidth hFrom hTo hWider
  | unsigned hFrom hTo hWider =>
      exact canEvolveTo_of_unsignedWidth hFrom hTo hWider
  | float => rfl
  | date => rfl
  | @timestamp u v tz hFiner =>
      have hUnit : u ≠ v := by
        rintro rfl
        exact Nat.lt_irrefl _ hFiner
      rw [TimeUnit.canEvolveTo_timestamp hUnit]
      exact decide_eq_true hFiner
  | decimal128 hWider =>
      simp [canEvolveTo, hWider]
  | decimal256 hWider =>
      simp [canEvolveTo, hWider]

/- The evolutions are the trivial and the widening ones. -/
theorem canEvolveTo_iff
    {a b : DataType} :
    canEvolveTo a b = true ↔ a = b ∨ Widens a b := by
  constructor
  · exact eq_or_widens_of_canEvolveTo
  · rintro (rfl | hWidens)
    · exact canEvolveTo_refl a
    · exact canEvolveTo_of_widens hWidens

/- The families of integer types are disjoint. -/
theorem unsignedWidth_of_signedWidth
    {a : DataType}
    {m : Nat}
    (hSigned : a.signedWidth = some m) :
    a.unsignedWidth = none := by
  cases a <;> simp [DataType.signedWidth] at hSigned
  all_goals rfl

/- A type belongs to one family, so widenings compose. -/
theorem Widens.trans
    {a b c : DataType}
    (hFirst : Widens a b)
    (hSecond : Widens b c) :
    Widens a c := by
  cases hFirst with
  | signed hFrom hMid hWider =>
      cases hSecond with
      | signed hMid' hTo hWider' =>
          rw [hMid, Option.some.injEq] at hMid'
          exact .signed hFrom hTo
            (Nat.lt_trans hWider (hMid' ▸ hWider'))
      | unsigned hMid' =>
          rw [unsignedWidth_of_signedWidth hMid] at hMid'
          cases hMid'
      | _ => simp [DataType.signedWidth] at hMid
  | unsigned hFrom hMid hWider =>
      cases hSecond with
      | unsigned hMid' hTo hWider' =>
          rw [hMid, Option.some.injEq] at hMid'
          exact .unsigned hFrom hTo
            (Nat.lt_trans hWider (hMid' ▸ hWider'))
      | signed hMid' =>
          have hNone := unsignedWidth_of_signedWidth hMid'
          rw [hMid] at hNone
          cases hNone
      | _ => simp [DataType.unsignedWidth] at hMid
  | float =>
      cases hSecond with
      | signed hMid => simp [DataType.signedWidth] at hMid
      | unsigned hMid =>
          simp [DataType.unsignedWidth] at hMid
  | date =>
      cases hSecond with
      | signed hMid => simp [DataType.signedWidth] at hMid
      | unsigned hMid =>
          simp [DataType.unsignedWidth] at hMid
  | timestamp hFiner =>
      cases hSecond with
      | signed hMid => simp [DataType.signedWidth] at hMid
      | unsigned hMid =>
          simp [DataType.unsignedWidth] at hMid
      | timestamp hFiner' =>
          exact .timestamp (Nat.lt_trans hFiner hFiner')
  | decimal128 hWider =>
      cases hSecond with
      | signed hMid => simp [DataType.signedWidth] at hMid
      | unsigned hMid =>
          simp [DataType.unsignedWidth] at hMid
      | decimal128 hWider' =>
          exact .decimal128 (UInt8.lt_trans hWider hWider')
  | decimal256 hWider =>
      cases hSecond with
      | signed hMid => simp [DataType.signedWidth] at hMid
      | unsigned hMid =>
          simp [DataType.unsignedWidth] at hMid
      | decimal256 hWider' =>
          exact .decimal256 (UInt8.lt_trans hWider hWider')

/- Accepted evolutions compose. -/
theorem canEvolveTo_trans
    {a b c : DataType}
    (hFirst : canEvolveTo a b = true)
    (hSecond : canEvolveTo b c = true) :
    canEvolveTo a c = true := by
  rcases canEvolveTo_iff.mp hFirst with rfl | hWider
  · exact hSecond
  rcases canEvolveTo_iff.mp hSecond with rfl | hWider'
  · exact hFirst
  exact canEvolveTo_iff.mpr (.inr (hWider.trans hWider'))

end Planar
