import Planar.Foundations.Transaction

/-
  The errors that a computation or a transaction program can
  end with.

  Main declarations:
    * `FailsOnly`, `FailsOnly.bind`
    * `Tx.FailsOnly`, `Tx.FailsOnly.bind`
    * `Tx.FailsOnly.exec`
-/

------------------------------------------------------------
-- Computations
------------------------------------------------------------

namespace Planar

variable {ε α β : Type}

/- Every error of the computation satisfies P. -/
def FailsOnly (P : ε → Prop) : Except ε α → Prop
| .ok _ => True
| .error e => P e

variable {P : ε → Prop}

theorem FailsOnly.bind
    {r : Except ε α}
    {f : α → Except ε β}
    (hFirst : FailsOnly P r)
    (hRest : ∀ a, FailsOnly P (f a)) :
    FailsOnly P (r >>= f) := by
  cases r with
  | ok a => exact hRest a
  | error e => exact hFirst

theorem FailsOnly.of_error
    {r : Except ε α}
    {e : ε}
    (hFails : FailsOnly P r)
    (hError : r = .error e) :
    P e := by
  rw [hError] at hFails
  exact hFails

/- Both branches of a test fail in the same ways. -/
theorem FailsOnly.ite
    {c : Prop}
    [Decidable c]
    {r r' : Except ε α}
    (hThen : FailsOnly P r)
    (hElse : FailsOnly P r') :
    FailsOnly P (if c then r else r') := by
  split
  · exact hThen
  · exact hElse

------------------------------------------------------------
-- Transaction Programs
------------------------------------------------------------

namespace Tx

variable {σ ς κ ℓ : Type}

/- Every error of the program's own satisfies P. -/
def FailsOnly (P : ε → Prop) : Tx σ ς ℓ ε α → Prop
| .done result => Planar.FailsOnly P result
| .ask _ next => ∀ v, FailsOnly P (next v)
| .stage _ next => FailsOnly P next

theorem failsOnly_lift
    {r : Except ε α}
    (hFails : Planar.FailsOnly P r) :
    FailsOnly P (lift r : Tx σ ς ℓ ε α) := hFails

theorem failsOnly_fail
    {e : ε}
    (hError : P e) :
    FailsOnly P (fail e : Tx σ ς ℓ ε α) := hError

/- What follows a reading sees what was read. -/
theorem failsOnly_select_bind
    {f : σ → α}
    {rest : α → Tx σ ς ℓ ε β}
    (hRest : ∀ v, FailsOnly P (rest (f v))) :
    FailsOnly P (select f >>= rest) := hRest

theorem failsOnly_execute
    (s : ς) :
    FailsOnly P (execute s : Tx σ ς ℓ ε Unit) := trivial

theorem FailsOnly.bind
    {p : Tx σ ς ℓ ε α}
    {f : α → Tx σ ς ℓ ε β}
    (hFirst : FailsOnly P p)
    (hRest : ∀ a, FailsOnly P (f a)) :
    FailsOnly P (p >>= f) := by
  induction p with
  | done result =>
      cases result with
      | ok a => exact hRest a
      | error e => exact hFirst
  | ask lock next ih => exact fun v => ih v (hFirst v)
  | stage s next ih => exact ih hFirst

/- The store may refuse a statement in ways of its own. -/
theorem FailsOnly.exec
    {S : Store σ ς κ ε}
    {p : Tx σ ς ℓ ε α}
    {v : σ}
    (hFails : FailsOnly P p)
    (hStore : ∀ s v, Planar.FailsOnly P (S.check s v)) :
    Planar.FailsOnly P (Tx.exec S v p) := by
  induction p generalizing v with
  | done result =>
      cases result with
      | ok a => exact trivial
      | error e => exact hFails
  | ask lock next ih => exact ih v (hFails v)
  | stage s next ih =>
      cases hCheck : S.check s v with
      | ok u =>
          rw [exec_stage_of_ok hCheck]
          exact ih hFails
      | error e =>
          rw [exec_stage_of_error hCheck]
          exact (hStore s v).of_error hCheck

end Tx

end Planar
