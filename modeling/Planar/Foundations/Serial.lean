import Planar.Foundations.Transaction

/-
  Programs inside a transaction that go on as if they ran
  alone against the latest committed state.

  Main declarations:
    * `Tx.Reaches`, `Tx.Reaches.exec`
    * `Tx.Respects`, `Tx.Respects.bind`
    * `Tx.Carries`, `Tx.Reaches.transfer`
-/

------------------------------------------------------------
-- Points on a Run
------------------------------------------------------------

namespace Planar
namespace Tx

variable {σ ς κ ℓ ε α β : Type}
variable {S : Store σ ς κ ε}

/-
  Running alone against `v`, the program comes to the point
  where it has staged some statements and has `rest` left.
-/
inductive Reaches
    (S : Store σ ς κ ε)
    (v : σ)
    (p : Tx σ ς ℓ ε α) :
    List ς → Tx σ ς ℓ ε α → Prop
  | start : Reaches S v p [] p
  | ask {staged : List ς} {lock : σ → Option ℓ}
      {next : σ → Tx σ ς ℓ ε α}
      (hBefore : Reaches S v p staged (.ask lock next)) :
      Reaches S v p staged (next (S.apply v staged))
  | stage {staged : List ς} {s : ς}
      {next : Tx σ ς ℓ ε α}
      (hBefore : Reaches S v p staged (.stage s next))
      (hCheck : S.check s (S.apply v staged) = .ok ()) :
      Reaches S v p (staged ++ [s]) next

/- The rest ends as the whole program does alone. -/
theorem Reaches.exec
    {v : σ}
    {p rest : Tx σ ς ℓ ε α}
    {staged : List ς}
    (hReaches : Reaches S v p staged rest) :
    Tx.exec S v p =
      Tx.exec S (S.apply v staged) rest := by
  induction hReaches with
  | start => rfl
  | ask hBefore ih => exact ih
  | @stage staged s next hBefore hCheck ih =>
      rw [ih, S.apply_append]
      exact Tx.exec_stage_of_ok hCheck

------------------------------------------------------------
-- Programs That See Only a Part
------------------------------------------------------------

/-
  The program stages statements that satisfy `P`, and states
  related by `R` answer its questions alike.
-/
def Respects
    (P : ς → Prop)
    (R : σ → σ → Prop) : Tx σ ς ℓ ε α → Prop
| .done _ => True
| .ask _ next =>
    (∀ v v', R v v' → next v = next v') ∧
      ∀ v, Respects P R (next v)
| .stage s next => P s ∧ Respects P R next

variable
  {P : ς → Prop}
  {R : σ → σ → Prop}

theorem respects_lift
    (r : Except ε α) :
    Respects P R (lift r : Tx σ ς ℓ ε α) := trivial

theorem respects_select
    {f : σ → α}
    (hSame : ∀ v v', R v v' → f v = f v') :
    Respects P R (select f : Tx σ ς ℓ ε α) := by
  refine ⟨fun v v' hRelated => ?_, fun _ => trivial⟩
  exact congrArg (Tx.done ∘ Except.ok)
    (hSame v v' hRelated)

theorem respects_execute
    {s : ς}
    (hStatement : P s) :
    Respects P R (execute s : Tx σ ς ℓ ε Unit) :=
  ⟨hStatement, trivial⟩

theorem Respects.bind
    {p : Tx σ ς ℓ ε α}
    {f : α → Tx σ ς ℓ ε β}
    (hFirst : Respects P R p)
    (hRest : ∀ a, Respects P R (f a)) :
    Respects P R (p >>= f) := by
  induction p with
  | done result =>
      cases result with
      | ok a => exact hRest a
      | error e => exact trivial
  | ask lock next ih =>
      refine ⟨fun v v' hRelated => ?_,
        fun v => ih v (hFirst.2 v)⟩
      exact congrArg (Tx.bind · f)
        (hFirst.1 v v' hRelated)
  | stage s next ih => exact ⟨hFirst.1, ih hFirst.2⟩

/-
  A statement that passes in one of two related states
  passes in the other one too, unless its keys are used
  there, and it keeps the states related.
-/
def Carries
    (S : Store σ ς κ ε)
    (P : ς → Prop)
    (R : σ → σ → Prop) : Prop :=
  ∀ s v v', P s → R v v' → S.check s v = .ok () →
    (∀ k ∈ S.keys s, ¬ S.holds v' k) →
      S.check s v' = .ok () ∧
        R (S.effect s v) (S.effect s v')

/-
  A point on the run from one state is a point on the run
  from a related state that does not use the staged keys.
-/
theorem Reaches.transfer
    {v v' : σ}
    {p rest : Tx σ ς ℓ ε α}
    {staged : List ς}
    (hReaches : Reaches S v p staged rest)
    (hRespects : Respects P R p)
    (hCarries : Carries S P R)
    (hRelated : R v v')
    (hFresh : ∀ k ∈ staged.flatMap S.keys,
      ¬ S.holds v' k) :
    Reaches S v' p staged rest := by
  suffices hAll : Reaches S v' p staged rest ∧
      Respects P R rest ∧
      R (S.apply v staged) (S.apply v' staged) from hAll.1
  induction hReaches with
  | start => exact ⟨.start, hRespects, hRelated⟩
  | ask hBefore ih =>
      rcases ih hFresh with ⟨hPoint, hNext, hStates⟩
      refine ⟨?_, hNext.2 _, hStates⟩
      rw [hNext.1 _ _ hStates]
      exact .ask hPoint
  | @stage staged s next hBefore hCheck ih =>
      rw [List.flatMap_append] at hFresh
      have hStagedFresh : ∀ k ∈ staged.flatMap S.keys,
          ¬ S.holds v' k :=
        fun k hKey => hFresh k (List.mem_append_left _ hKey)
      rcases ih hStagedFresh with ⟨hPoint, hNext, hStates⟩
      have hUnused : ∀ k ∈ S.keys s,
          ¬ S.holds (S.apply v' staged) k := by
        intro k hKey hHolds
        rcases (S.holds_apply _ _ _).mp hHolds with
          hOld | hStaged
        · exact hFresh k (List.mem_append_right _
            (by simpa using hKey)) hOld
        · exact S.fresh_of_check hCheck k hKey
            ((S.holds_apply _ _ _).mpr (.inr hStaged))
      rcases hCarries s _ _ hNext.1 hStates hCheck hUnused
        with ⟨hPasses, hAfter⟩
      refine ⟨.stage hPoint hPasses, hNext.2, ?_⟩
      rw [S.apply_append, S.apply_append]
      exact hAfter

end Tx
end Planar
