import Mathlib.Data.Fintype.Basic
import Planar.Foundations.Transaction

/-
  Schedules: interleavings of finitely many transactions
  that can be run.

  Main declarations:
    * `System.next`, `System.step_of_next`
    * `System.run`, `System.reachable_run`
-/

------------------------------------------------------------
-- The Next Step of a Writer
------------------------------------------------------------

namespace Planar
namespace System

variable {ι σ ς κ ℓ ε α : Type}

instance
    [Fintype ι]
    [DecidableEq ι]
    [DecidableEq ℓ]
    (sys : System ι σ ς ℓ ε α)
    (i : ι)
    (lock : Option ℓ) :
    Decidable (sys.LockFree i lock) :=
  decidable_of_iff
    (∀ l ∈ lock, ∀ j, j ≠ i →
      ∀ w ∈ sys.writers j, l ∉ w.locks)
    ⟨fun hFree l hl j w hj hw => hFree l hl j hj w hw,
      fun hFree l hl j hj w hw => hFree l hl j w hj hw⟩

instance
    [Fintype ι]
    [DecidableEq ι]
    [DecidableEq κ]
    (S : Store σ ς κ ε)
    (sys : System ι σ ς ℓ ε α)
    (i : ι)
    (keys : List κ) :
    Decidable (sys.KeysFree S i keys) :=
  decidable_of_iff
    (∀ k ∈ keys, ∀ j, j ≠ i →
      ∀ w ∈ sys.writers j,
        k ∉ w.staged.flatMap S.keys)
    ⟨fun hFree k hk j w hj hw => hFree k hk j hj w hw,
      fun hFree k hk j hj w hw => hFree k hk j w hj hw⟩

variable
  [Fintype ι]
  [DecidableEq ι]
  [DecidableEq κ]
  [DecidableEq ℓ]

/- The next step of a writer that is open and not waiting. -/
def next
    (S : Store σ ς κ ε)
    (sys : System ι σ ς ℓ ε α)
    (i : ι) :
    Option (Event ι ε α × System ι σ ς ℓ ε α) :=
  match sys.writers i with
  | none => none
  | some ⟨staged, locks, .ask lock next⟩ =>
      let v := S.apply sys.committed staged
      if sys.LockFree i (lock v) then
        some (.asked i, sys.withWriter i
          (some ⟨staged, locks ++ (lock v).toList, next v⟩))
      else none
  | some ⟨staged, locks, .stage s next⟩ =>
      if sys.KeysFree S i (S.keys s) then
        match S.check s (S.apply sys.committed staged) with
        | .ok () =>
            some (.staged i, sys.withWriter i
              (some ⟨staged ++ [s], locks, next⟩))
        | .error e =>
            some (.failed i e, sys.withWriter i none)
      else none
  | some ⟨staged, _, .done (.ok a)⟩ =>
      some (.succeeded i a,
        { sys.withWriter i none with
          committed := S.apply sys.committed staged
          succeeded := sys.succeeded ++ [(i, a)] })
  | some ⟨_, _, .done (.error e)⟩ =>
      some (.failed i e, sys.withWriter i none)

theorem step_of_next
    {S : Store σ ς κ ε}
    {sys sys' : System ι σ ς ℓ ε α}
    {i : ι}
    {event : Event ι ε α}
    (hNext : next S sys i = some (event, sys')) :
    Step S sys event sys' := by
  unfold next at hNext
  split at hNext
  case h_1 => cases hNext
  case h_2 staged locks lock rest hWriter =>
    dsimp only at hNext
    split at hNext
    · rename_i hFree
      cases hNext
      exact .ask hWriter hFree
    · cases hNext
  case h_3 staged locks s rest hWriter =>
    split at hNext
    · rename_i hFree
      split at hNext
      · rename_i hCheck
        cases hNext
        exact .stage hWriter hFree hCheck
      · rename_i e hCheck
        cases hNext
        exact .refuse hWriter hFree hCheck
    · cases hNext
  case h_4 staged locks a hWriter =>
    cases hNext
    exact .succeed hWriter
  case h_5 staged locks e hWriter =>
    cases hNext
    exact .fail hWriter

------------------------------------------------------------
-- Running a Schedule
------------------------------------------------------------

/-
  Let writers take their turns; one that has to wait or has
  ended does nothing.
-/
def run
    (S : Store σ ς κ ε)
    (sys : System ι σ ς ℓ ε α) :
    List ι → System ι σ ς ℓ ε α
| [] => sys
| i :: rest =>
    match next S sys i with
    | none => run S sys rest
    | some (_, sys') => run S sys' rest

theorem reachable_run
    {S : Store σ ς κ ε}
    {v : σ}
    {program : ι → Tx σ ς ℓ ε α}
    {sys : System ι σ ς ℓ ε α}
    {schedule : List ι}
    (hReach : Reachable S v program sys) :
    Reachable S v program (run S sys schedule) := by
  induction schedule generalizing sys with
  | nil => exact hReach
  | cons i rest ih =>
      unfold run
      split
      · exact ih hReach
      · rename_i event sys' hNext
        exact ih (hReach.step (step_of_next hNext))

end System
end Planar
