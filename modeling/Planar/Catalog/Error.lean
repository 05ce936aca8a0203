import Mathlib.Tactic.Common

/-
  Errors of catalog operations.

  Main declarations:
    * `SqlxError`, `CatalogError`
    * `Fault`, `Result`
    * `bind_ok`
-/

------------------------------------------------------------
-- Catalog Errors
------------------------------------------------------------

namespace Planar

/- The database errors that the catalog can meet. -/
inductive SqlxError where
  | uniqueViolation
  | foreignKeyViolation
  | rowNotFound
  | columnDecode (column : String)
  | connection
  deriving DecidableEq

/- Errors returned by catalog operations. -/
inductive CatalogError where
  | notFound (message : String)
  | conflict (message : String)
  | limitExceeded (message : String)
  | invalidArgument (message : String)
  | protocolVersionIncompatible
      (operation table : String)
      (clientVersion requiredMinVersion : Int)
  | notYetImplemented (message : String)
  | storage (error : SqlxError)
  | arrow (message : String)
  deriving DecidableEq

/-
  How a call fails: it returns an error, or it panics and
  its open database transaction is never committed.
-/
inductive Fault where
  | returned (error : CatalogError)
  | panicked (message : String)
  deriving DecidableEq

abbrev Result (α : Type) := Except Fault α

/- Fail with a catalog error. -/
def fault {α : Type} (error : CatalogError) : Result α :=
  .error (.returned error)

/- A sequence succeeds when both of its parts do. -/
theorem bind_ok
    {ε α β : Type}
    {x : Except ε α}
    {f : α → Except ε β}
    {b : β} :
    (x >>= f) = .ok b ↔ ∃ a, x = .ok a ∧ f a = .ok b := by
  cases x with
  | ok a =>
      simp only [bind, Except.bind, Except.ok.injEq,
        exists_eq_left']
  | error e =>
      simp only [bind, Except.bind, reduceCtorEq, false_and,
        exists_false]

theorem map_ok
    {ε α β : Type}
    {x : Except ε α}
    {f : α → β}
    {b : β}
    (hOk : x.map f = .ok b) :
    ∃ a, x = .ok a ∧ b = f a := by
  cases x with
  | ok a => exact ⟨a, rfl, (Except.ok.inj hOk).symm⟩
  | error e => cases hOk

/- Results with values up to a change of them. -/
theorem exists_ok_of_toOption
    {ε ε' α α' : Type}
    {x : Except ε α}
    {x' : Except ε' α'}
    {g : α → α'}
    (hSame : x'.toOption = x.toOption.map g) :
    (∃ a', x' = .ok a') ↔ ∃ a, x = .ok a := by
  cases x with
  | ok a =>
      cases x' with
      | ok a' => exact iff_of_true ⟨a', rfl⟩ ⟨a, rfl⟩
      | error e' => cases hSame
  | error e =>
      cases x' with
      | ok a' => cases hSame
      | error e' =>
          refine iff_of_false ?_ ?_ <;>
            exact fun ⟨_, hOk⟩ => by cases hOk

theorem exists_of_isOk
    {ε α : Type}
    {x : Except ε α}
    (hOk : x.isOk = true) :
    ∃ a, x = .ok a := by
  cases x with
  | ok a => exact ⟨a, rfl⟩
  | error e => cases hOk

end Planar
