import Mathlib.Algebra.GroupWithZero.Nat
import Mathlib.Order.Fin.Basic
import Mathlib.Tactic.Common

/-
  Scalar values of the catalog: identifiers, clock readings,
  Rust's narrowing integer casts, and the few string
  functions the catalog applies to names.

  Main declarations:
    * `Uuid`, `TxnId`, `Timestamp`
    * `asU32`, `asI32`
    * `isBlank`, `toLowercase`
-/

------------------------------------------------------------
-- Identifiers and Times
------------------------------------------------------------

namespace Planar

/-
  A UUID is sixteen bytes, stored as a blob.  The databases
  compare blobs byte by byte, which for big-endian bytes of
  one length is the order of the numbers.
-/
abbrev Uuid := Fin (2 ^ 128)

abbrev TxnId := Uuid

instance instNeZeroUuid : NeZero (2 ^ 128) := inferInstance

instance instLawfulBEqUuid : LawfulBEq Uuid :=
  inferInstance

/- Microseconds since the epoch, in UTC. -/
abbrev Timestamp := Int

/- The last digits of a number in base sixteen. -/
def hexDigits : Nat → Nat → List Char
| 0, _ => []
| digits + 1, n =>
    hexDigits digits (n / 16) ++ [Nat.digitChar (n % 16)]

/- The hyphenated form in which a UUID is displayed. -/
def hyphenated (u : Uuid) : String :=
  let digits := hexDigits 32 u.val
  String.ofList
    (digits.take 8 ++ '-' :: (digits.drop 8).take 4 ++
      '-' :: (digits.drop 12).take 4 ++
      '-' :: (digits.drop 16).take 4 ++
      '-' :: digits.drop 20)

------------------------------------------------------------
-- Narrowing Casts
------------------------------------------------------------

/- The cast `as u32` of a length: only the low 32 bits. -/
def asU32 (n : Nat) : Nat :=
  n % 2 ^ 32

/- The cast `as i32`: the low 32 bits, read with a sign. -/
def asI32 (n : Int) : Int :=
  n.bmod (2 ^ 32)

theorem asU32_of_lt
    {n : Nat}
    (hFits : n < 2 ^ 32) :
    asU32 n = n :=
  Nat.mod_eq_of_lt hFits

theorem asI32_of_lt
    {n : Nat}
    (hFits : n < 2 ^ 31) :
    asI32 n = n := by
  unfold asI32
  apply Int.bmod_eq_of_le <;> omega

/- Adding after a cast is casting after adding. -/
theorem asI32_asI32_add
    (n m : Int) :
    asI32 (asI32 n + m) = asI32 (n + m) := by
  simp [asI32]

------------------------------------------------------------
-- Strings
------------------------------------------------------------

/- The characters with the Unicode property White_Space. -/
def isWhitespace (c : Char) : Bool :=
  let n := c.toNat
  (9 ≤ n && n ≤ 13) || n == 32 || n == 0x85 ||
    n == 0xA0 || n == 0x1680 ||
    (0x2000 ≤ n && n ≤ 0x200A) || n == 0x2028 ||
    n == 0x2029 || n == 0x202F || n == 0x205F ||
    n == 0x3000

/- The test `s.trim().is_empty()`. -/
def isBlank (s : String) : Bool :=
  s.toList.all isWhitespace

/-
  `str::to_lowercase`, on the ASCII letters only.  Which
  option values are accepted is the same, since the values
  to compare with are ASCII and no other letter has such a
  lowercase form among them.  The text of an error repeats
  the lowered value, and differs from the source's where the
  value has other letters.
-/
def toLowercase (s : String) : String :=
  String.ofList (s.toList.map Char.toLower)

end Planar
