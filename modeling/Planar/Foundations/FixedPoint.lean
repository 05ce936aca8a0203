import Mathlib.Data.Rat.Defs
import Mathlib.Data.Set.Function
import Mathlib.Tactic.Linarith
import Mathlib.Tactic.Positivity

/-
  Numbers that are stored as whole multiples of a step, and
  the conversions between two such formats.

  Main declarations:
    * `Signed`, `Unsigned`, `Digits`
    * `FixedPoint`, `FixedPoint.value`
    * `FixedPoint.Keeps`, `FixedPoint.keeps_iff`
-/

namespace Planar

------------------------------------------------------------
-- Ranges of Integers
------------------------------------------------------------

/- The integers of so many bits in two's complement. -/
def Signed (bits : Nat) : Set Int :=
  {x | -2 ^ (bits - 1) ≤ x ∧ x < 2 ^ (bits - 1)}

/- The natural numbers of so many bits. -/
def Unsigned (bits : Nat) : Set Int :=
  {x | 0 ≤ x ∧ x < 2 ^ bits}

/- The integers of at most so many decimal digits. -/
def Digits (precision : Nat) : Set Int :=
  {x | -10 ^ precision < x ∧ x < 10 ^ precision}

/- Scaling by `k` fits when the wider range has the room. -/
theorem Signed.mul_mem
    {m n : Nat}
    {k x : Int}
    (hPos : 0 ≤ k)
    (hRoom : 2 ^ (m - 1) * k ≤ 2 ^ (n - 1))
    (hMem : x ∈ Signed m) :
    x * k ∈ Signed n := by
  rcases hMem with ⟨hLow, hHigh⟩
  constructor
  · calc -2 ^ (n - 1)
        ≤ -(2 ^ (m - 1) * k) := neg_le_neg hRoom
      _ = -2 ^ (m - 1) * k := (neg_mul ..).symm
      _ ≤ x * k := mul_le_mul_of_nonneg_right hLow hPos
  · by_cases hZero : k = 0
    · rw [hZero, mul_zero]
      positivity
    · have hLt : x * k < 2 ^ (m - 1) * k :=
        mul_lt_mul_of_pos_right hHigh
          (lt_of_le_of_ne hPos (Ne.symm hZero))
      exact lt_of_lt_of_le hLt hRoom

theorem Signed.mono
    {m n : Nat}
    (hWider : m ≤ n) :
    Signed m ⊆ Signed n := by
  intro x hMem
  have hRoom : (2 : Int) ^ (m - 1) * 1 ≤ 2 ^ (n - 1) := by
    rw [mul_one]
    exact pow_le_pow_right₀ (by decide) (by omega)
  have hScaled := Signed.mul_mem (by decide) hRoom hMem
  rwa [mul_one] at hScaled

theorem Unsigned.mono
    {m n : Nat}
    (hWider : m ≤ n) :
    Unsigned m ⊆ Unsigned n := by
  intro x hMem
  rcases hMem with ⟨hLow, hHigh⟩
  have hPow : (2 : Int) ^ m ≤ 2 ^ n :=
    pow_le_pow_right₀ (by decide) hWider
  exact ⟨hLow, lt_of_lt_of_le hHigh hPow⟩

theorem Digits.mono
    {p q : Nat}
    (hWider : p ≤ q) :
    Digits p ⊆ Digits q := by
  intro x hMem
  rcases hMem with ⟨hLow, hHigh⟩
  have hPow : (10 : Int) ^ p ≤ 10 ^ q :=
    pow_le_pow_right₀ (by decide) hWider
  exact ⟨lt_of_le_of_lt (neg_le_neg hPow) hLow,
    lt_of_lt_of_le hHigh hPow⟩

theorem Digits.zero_mem
    (p : Nat) :
    0 ∈ Digits p := by
  have hPow : (0 : Int) < 10 ^ p := by positivity
  exact ⟨neg_lt_zero.mpr hPow, hPow⟩

/- The least integer leaves its own range when scaled. -/
theorem Signed.exists_mul_notMem
    (bits : Nat)
    {k : Int}
    (hScale : 1 < k) :
    ∃ x ∈ Signed bits, x * k ∉ Signed bits := by
  have hPow : (0 : Int) < 2 ^ (bits - 1) := by positivity
  refine ⟨-2 ^ (bits - 1), ⟨le_refl _, ?_⟩, ?_⟩
  · linarith
  · rintro ⟨hLow, -⟩
    have hMore : (2 : Int) ^ (bits - 1) * 1 <
        2 ^ (bits - 1) * k :=
      mul_lt_mul_of_pos_left hScale hPow
    rw [neg_mul] at hLow
    linarith

------------------------------------------------------------
-- Formats
------------------------------------------------------------

/- A format that stores numbers as multiples of a step. -/
structure FixedPoint where
  range : Set Int
  step : ℚ
  hStep : step ≠ 0

namespace FixedPoint

variable {e f : FixedPoint}

/- The number that a stored integer stands for. -/
def value (f : FixedPoint) (x : Int) : ℚ :=
  x * f.step

theorem value_injective
    (f : FixedPoint) :
    Function.Injective f.value := by
  intro x y hEq
  have hCast : (x : ℚ) = y :=
    mul_right_cancel₀ f.hStep hEq
  exact Int.cast_injective hCast

/-
  A conversion that finds every number of one format in the
  other, and no two of them in one place.
-/
structure Keeps
    (e f : FixedPoint)
    (convert : Int → Int) : Prop where
  fits : ∀ x ∈ e.range, convert x ∈ f.range
  value_eq : ∀ x ∈ e.range,
    f.value (convert x) = e.value x
  injOn : Set.InjOn convert e.range

/- Conversions that keep every value are injective. -/
theorem injOn_of_value_eq
    {convert : Int → Int}
    (hValue : ∀ x ∈ e.range,
      f.value (convert x) = e.value x) :
    Set.InjOn convert e.range := by
  intro x hX y hY hEq
  apply e.value_injective
  rw [← hValue x hX, ← hValue y hY, hEq]

theorem value_mul
    {k : Int}
    (hRatio : e.step = k * f.step)
    (x : Int) :
    f.value (x * k) = e.value x := by
  unfold value
  rw [hRatio, Int.cast_mul, mul_assoc]

/- Rescaling keeps the numbers as soon as they fit. -/
theorem keeps_iff
    {k : Int}
    (hRatio : e.step = k * f.step) :
    e.Keeps f (· * k) ↔
      ∀ x ∈ e.range, x * k ∈ f.range := by
  constructor
  · intro hKeeps
    exact hKeeps.fits
  · intro hFits
    have hValue : ∀ x ∈ e.range,
        f.value (x * k) = e.value x :=
      fun x _ => value_mul hRatio x
    exact ⟨hFits, hValue, injOn_of_value_eq hValue⟩

/- Rescaling is the only way to keep a number. -/
theorem eq_mul_of_value_eq
    {k x y : Int}
    (hRatio : e.step = k * f.step)
    (hValue : f.value y = e.value x) :
    y = x * k := by
  apply f.value_injective
  rw [hValue, value_mul hRatio]

end FixedPoint

end Planar
