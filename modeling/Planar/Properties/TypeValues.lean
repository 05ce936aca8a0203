import Mathlib.Algebra.Field.Rat
import Mathlib.Algebra.Order.Field.Rat
import Mathlib.Tactic.NormNum
import Planar.Catalog.DataType
import Planar.Foundations.FixedPoint

/-
  The values of the integer, date, timestamp and decimal
  types, and the accepted evolutions that keep them all.

  Main declarations:
    * `DataType.format`
    * `DataType.ratio`
    * `KeepsRange`
    * `canEvolveTo_keeps_iff`
-/

------------------------------------------------------------
-- Stored Values
------------------------------------------------------------

namespace Planar

theorem TimeUnit.step_ne_zero
    (unit : TimeUnit) :
    ((1 : ℚ) / 1000) ^ unit.fineness ≠ 0 :=
  pow_ne_zero _ (by norm_num)

theorem decimalStep_ne_zero
    (scale : Int8) :
    (10 : ℚ) ^ (-scale.toInt) ≠ 0 :=
  zpow_ne_zero _ (by norm_num)

/- An integer type counts units. -/
def integerFormat (range : Set Int) : FixedPoint where
  range := range
  step := 1
  hStep := by norm_num

/- A timestamp counts the ticks of its unit. -/
def timestampFormat (unit : TimeUnit) : FixedPoint where
  range := Signed 64
  step := (1 / 1000) ^ unit.fineness
  hStep := unit.step_ne_zero

/-
  A decimal is an unscaled integer below the power of its
  precision, which a width allows up to a maximum.
-/
def decimalFormat
    (maxPrecision : Nat)
    (precision : UInt8)
    (scale : Int8) : FixedPoint where
  range := {x | 1 ≤ precision.toNat ∧
    precision.toNat ≤ maxPrecision ∧
    x ∈ Digits precision.toNat}
  step := 10 ^ (-scale.toInt)
  hStep := decimalStep_ne_zero scale

/-
  The values of a type, as numbers; dates and timestamps
  count seconds.
-/
def DataType.format : DataType → Option FixedPoint
| .int8 => some (integerFormat (Signed 8))
| .int16 => some (integerFormat (Signed 16))
| .int32 => some (integerFormat (Signed 32))
| .int64 => some (integerFormat (Signed 64))
| .uint8 => some (integerFormat (Unsigned 8))
| .uint16 => some (integerFormat (Unsigned 16))
| .uint32 => some (integerFormat (Unsigned 32))
| .uint64 => some (integerFormat (Unsigned 64))
| .date32 => some ⟨Signed 32, 86400, by norm_num⟩
| .date64 => some ⟨Signed 64, 1 / 1000, by norm_num⟩
| .timestamp unit _ => some (timestampFormat unit)
| .decimal32 p s => some (decimalFormat 9 p s)
| .decimal64 p s => some (decimalFormat 18 p s)
| .decimal128 p s => some (decimalFormat 38 p s)
| .decimal256 p s => some (decimalFormat 76 p s)
| _ => none

/- How many steps of the new type make one of the old. -/
def DataType.ratio : DataType → DataType → Int
| .date32, .date64 => 86400000
| .timestamp u _, .timestamp v _ =>
    1000 ^ (v.fineness - u.fineness)
| _, _ => 1

/-
  The new type has the room: a timestamp keeps its unit, and
  a legal precision grows to one that is still legal.
-/
def KeepsRange : DataType → DataType → Prop
| .timestamp u _, .timestamp v _ => u = v
| .decimal128 p _, .decimal128 q _ =>
    1 ≤ p.toNat → p.toNat ≤ 38 → q.toNat ≤ 38
| .decimal256 p _, .decimal256 q _ =>
    1 ≤ p.toNat → p.toNat ≤ 76 → q.toNat ≤ 76
| _, _ => True

------------------------------------------------------------
-- Each Family of Evolutions
------------------------------------------------------------

/-
  `b` has a format in which a whole number of steps makes
  one step of `e`, and the condition says when the values
  fit.
-/
def Rescales (a b : DataType) (e : FixedPoint) : Prop :=
  ∃ f,
    b.format = some f ∧
      e.step = a.ratio b * f.step ∧
      ((∀ x ∈ e.range, x * a.ratio b ∈ f.range) ↔
        KeepsRange a b)

namespace DataType

theorem ratio_self
    (a : DataType) :
    a.ratio a = 1 := by
  cases a with
  | timestamp unit tz => simp [ratio]
  | _ => rfl

theorem keepsRange_self
    (a : DataType) :
    KeepsRange a a := by
  cases a with
  | timestamp unit tz => rfl
  | decimal128 p s =>
      intro _ hLegal
      exact hLegal
  | decimal256 p s =>
      intro _ hLegal
      exact hLegal
  | _ => trivial

/- The type itself has room for its values. -/
theorem rescales_self
    {a : DataType}
    {e : FixedPoint}
    (hFrom : a.format = some e) :
    Rescales a a e := by
  unfold Rescales
  rw [a.ratio_self]
  have hFits : ∀ x ∈ e.range, x * 1 ∈ e.range := by
    intro x hMem
    rwa [mul_one]
  exact ⟨e, hFrom, by simp,
    iff_of_true hFits a.keepsRange_self⟩

/- The width of an integer type gives its format. -/
theorem format_of_signedWidth
    {a : DataType}
    {n : Nat}
    (hWidth : a.signedWidth = some n) :
    a.format =
      some (integerFormat (Signed (8 * 2 ^ n))) := by
  cases a <;> cases hWidth <;> rfl

theorem format_of_unsignedWidth
    {a : DataType}
    {n : Nat}
    (hWidth : a.unsignedWidth = some n) :
    a.format =
      some (integerFormat (Unsigned (8 * 2 ^ n))) := by
  cases a <;> cases hWidth <;> rfl

/- Integers are neither rescaled nor restricted. -/
theorem ratio_of_integer
    {a : DataType}
    (hWidth :
      a.signedWidth ≠ none ∨ a.unsignedWidth ≠ none)
    (b : DataType) :
    a.ratio b = 1 ∧ KeepsRange a b := by
  cases a <;>
    simp [signedWidth, unsignedWidth] at hWidth <;>
    exact ⟨rfl, trivial⟩

theorem rescales_integer
    {a b : DataType}
    {range range' : Set Int}
    (hTo : b.format = some (integerFormat range'))
    (hWidth :
      a.signedWidth ≠ none ∨ a.unsignedWidth ≠ none)
    (hSub : range ⊆ range') :
    Rescales a b (integerFormat range) := by
  rcases ratio_of_integer hWidth b with ⟨hRatio, hKeeps⟩
  unfold Rescales
  rw [hRatio]
  have hFits : ∀ x ∈ range, x * 1 ∈ range' := by
    intro x hMem
    rw [mul_one]
    exact hSub hMem
  exact ⟨_, hTo, by simp [integerFormat],
    iff_of_true hFits hKeeps⟩

/- The milliseconds of every day fit. -/
theorem rescales_date :
    Rescales .date32 .date64
      ⟨Signed 32, 86400, by norm_num⟩ := by
  have hFits : ∀ x ∈ Signed 32, x * 86400000 ∈ Signed 64 := by
    intro x hMem
    exact Signed.mul_mem (by decide) (by decide) hMem
  exact ⟨_, rfl, by norm_num [ratio],
    iff_of_true hFits trivial⟩

/- The tick of a coarse unit is many ticks of a fine one. -/
theorem step_timestamp
    {u v : TimeUnit}
    (hFiner : u.fineness ≤ v.fineness) :
    (timestampFormat u).step =
      ((1000 ^ (v.fineness - u.fineness) : Int) : ℚ) *
        (timestampFormat v).step := by
  have hSplit :
      (v.fineness - u.fineness) + u.fineness =
        v.fineness := by
    omega
  have hUnit : (1000 : ℚ) * (1 / 1000) = 1 := by
    norm_num
  calc ((1 : ℚ) / 1000) ^ u.fineness
      = (1000 * (1 / 1000)) ^ (v.fineness - u.fineness) *
          (1 / 1000) ^ u.fineness := by
        rw [hUnit, one_pow, one_mul]
    _ = 1000 ^ (v.fineness - u.fineness) *
          (1 / 1000) ^ v.fineness := by
        rw [mul_pow, mul_assoc, ← pow_add, hSplit]
    _ = _ := by
        push_cast
        rfl

/- A finer unit leaves no room for the extreme ticks. -/
theorem rescales_timestamp
    {u v : TimeUnit}
    (tz : Option String)
    (hFiner : u.fineness < v.fineness) :
    Rescales (.timestamp u tz) (.timestamp v tz)
      (timestampFormat u) := by
  have hScale :
      (1 : Int) < 1000 ^ (v.fineness - u.fineness) :=
    one_lt_pow₀ (by decide) (by omega)
  rcases Signed.exists_mul_notMem 64 hScale with
    ⟨x, hMem, hOut⟩
  refine ⟨_, rfl, step_timestamp hFiner.le,
    iff_of_false ?_ ?_⟩
  · intro hFits
    exact hOut (hFits x hMem)
  · rintro (rfl : u = v)
    exact lt_irrefl _ hFiner

/- A wider precision has room exactly while it is legal. -/
theorem decimal_fits_iff
    {maxPrecision : Nat}
    {p q : UInt8}
    {scale : Int8}
    (hWider : p < q) :
    (∀ x ∈ (decimalFormat maxPrecision p scale).range,
        x * 1 ∈ (decimalFormat maxPrecision q scale).range) ↔
      (1 ≤ p.toNat → p.toNat ≤ maxPrecision →
        q.toNat ≤ maxPrecision) := by
  have hLt : p.toNat < q.toNat :=
    UInt8.lt_iff_toNat_lt.mp hWider
  constructor
  · intro hFits hPos hLegal
    have hZero : (0 : Int) ∈
        (decimalFormat maxPrecision p scale).range :=
      ⟨hPos, hLegal, Digits.zero_mem _⟩
    exact (hFits 0 hZero).2.1
  · intro hRoom x hMem
    rcases hMem with ⟨hPos, hLegal, hDigits⟩
    rw [mul_one]
    exact ⟨by omega, hRoom hPos hLegal,
      Digits.mono hLt.le hDigits⟩

end DataType

------------------------------------------------------------
-- Accepted Evolutions
------------------------------------------------------------

/- Every accepted evolution rescales the stored values. -/
theorem Widens.rescales
    {a b : DataType}
    {e : FixedPoint}
    (hWidens : Widens a b)
    (hFrom : a.format = some e) :
    Rescales a b e := by
  cases hWidens with
  | signed hWidth hWidth' hWider =>
      rw [DataType.format_of_signedWidth hWidth,
        Option.some.injEq] at hFrom
      subst hFrom
      apply DataType.rescales_integer
        (DataType.format_of_signedWidth hWidth')
      · exact .inl (by rw [hWidth]; exact nofun)
      · have hPow := Nat.pow_lt_pow_right Nat.one_lt_two hWider
        exact Signed.mono (by omega)
  | unsigned hWidth hWidth' hWider =>
      rw [DataType.format_of_unsignedWidth hWidth,
        Option.some.injEq] at hFrom
      subst hFrom
      apply DataType.rescales_integer
        (DataType.format_of_unsignedWidth hWidth')
      · exact .inr (by rw [hWidth]; exact nofun)
      · have hPow := Nat.pow_lt_pow_right Nat.one_lt_two hWider
        exact Unsigned.mono (by omega)
  | float => cases hFrom
  | date =>
      cases hFrom
      exact DataType.rescales_date
  | @timestamp u v tz hFiner =>
      cases hFrom
      exact DataType.rescales_timestamp tz hFiner
  | decimal128 hWider =>
      cases hFrom
      exact ⟨_, rfl, by simp [DataType.ratio, decimalFormat],
        DataType.decimal_fits_iff hWider⟩
  | decimal256 hWider =>
      cases hFrom
      exact ⟨_, rfl, by simp [DataType.ratio, decimalFormat],
        DataType.decimal_fits_iff hWider⟩

/-
  An accepted evolution keeps every value of the old type
  unless it makes a timestamp finer or takes a decimal past
  the largest legal precision.
-/
theorem canEvolveTo_keeps_iff
    {a b : DataType}
    {e : FixedPoint}
    (hFrom : a.format = some e)
    (hEvolve : canEvolveTo a b = true) :
    (∃ f,
      b.format = some f ∧
        e.Keeps f (· * a.ratio b)) ↔
      KeepsRange a b := by
  have hRescales : Rescales a b e := by
    rcases canEvolveTo_iff.mp hEvolve with rfl | hWidens
    · exact DataType.rescales_self hFrom
    · exact hWidens.rescales hFrom
  rcases hRescales with ⟨f, hTo, hRatio, hFits⟩
  rw [← hFits, ← FixedPoint.keeps_iff hRatio]
  constructor
  · rintro ⟨f', hTo', hKeeps⟩
    rw [hTo, Option.some.injEq] at hTo'
    rwa [hTo']
  · intro hKeeps
    exact ⟨f, hTo, hKeeps⟩

theorem canEvolveTo_keeps_iff_sample :
    canEvolveTo (.decimal128 10 2) (.decimal128 20 2) =
        true ∧
      ∃ f,
        (DataType.decimal128 20 2).format = some f ∧
          (decimalFormat 38 10 2).Keeps f
            (· * (DataType.decimal128 10 2).ratio
              (.decimal128 20 2)) := by
  have hEvolve :
      canEvolveTo (.decimal128 10 2) (.decimal128 20 2) =
        true := by
    decide
  refine ⟨hEvolve,
    (canEvolveTo_keeps_iff rfl hEvolve).mpr ?_⟩
  intro _ _
  decide

/-
  Accepted evolutions that lose values: the last second has
  no nanosecond, and no decimal has 39 digits.
-/
theorem canEvolveTo_loses :
    canEvolveTo (.timestamp .second none)
        (.timestamp .nanosecond none) = true ∧
      2 ^ 63 - 1 ∈ (timestampFormat .second).range ∧
      (∀ y ∈ (timestampFormat .nanosecond).range,
        (timestampFormat .nanosecond).value y ≠
          (timestampFormat .second).value (2 ^ 63 - 1)) ∧
      canEvolveTo (.decimal128 38 2) (.decimal128 39 2) =
        true ∧
      1 ∈ (decimalFormat 38 38 2).range ∧
      (decimalFormat 38 39 2).range = ∅ := by
  refine ⟨rfl, ⟨by decide, by decide⟩, ?_, rfl,
    ⟨by decide, by decide, by decide, by decide⟩, ?_⟩
  · intro y hMem hValue
    have hRatio := DataType.step_timestamp
      (show TimeUnit.second.fineness ≤
        TimeUnit.nanosecond.fineness by decide)
    rw [FixedPoint.eq_mul_of_value_eq hRatio hValue] at hMem
    exact absurd hMem.2 (by decide)
  · ext x
    constructor
    · rintro ⟨_, hLegal, _⟩
      exact absurd hLegal (by decide)
    · exact nofun

end Planar
