import Mathlib.Data.Fintype.Card
import Mathlib.Logic.Relation

/-
  Optimistic updates of one cell by several parties.  A
  party observes the version of the cell, and later either
  replaces it or meets a conflict, when the version is no
  longer the one it has observed.

  Main declarations:
    * `Attempts`, `Attempts.Step`
    * `Attempts.Bounded`, `Attempts.Bounded.step`
    * `Attempts.conflicts_bounded`
-/

------------------------------------------------------------
-- Attempts
------------------------------------------------------------

namespace Planar

/-
  The version of the cell, the versions that the parties
  have observed and not yet used, and how many updates have
  met a conflict and have succeeded.
-/
structure Attempts (ι ν : Type) where
  current : ν
  observed : ι → Option ν
  conflicts : Nat
  successes : Nat

namespace Attempts

variable {ι ν : Type} [DecidableEq ι]

/- Set what one party has observed. -/
def withObserved
    (observed : ι → Option ν)
    (i : ι)
    (v : Option ν) : ι → Option ν :=
  fun j => if j = i then v else observed j

/- What a party does, or what others do to the cell. -/
inductive Step :
    Attempts ι ν → Attempts ι ν → Prop
  | observe {a : Attempts ι ν} {i : ι} :
      Step a { a with
        observed :=
          withObserved a.observed i (some a.current) }
  | abandon {a : Attempts ι ν} {i : ι} :
      Step a { a with
        observed := withObserved a.observed i none }
  | conflict {a : Attempts ι ν} {i : ι} {v : ν}
      (hObserved : a.observed i = some v)
      (hStale : v ≠ a.current) :
      Step a { a with
        observed := withObserved a.observed i none
        conflicts := a.conflicts + 1 }
  | succeed {a : Attempts ι ν} {i : ι} {v : ν} :
      Step a
        { current := v
          observed := withObserved a.observed i none
          conflicts := a.conflicts
          successes := a.successes + 1 }

/- The parties whose version is no longer the current one. -/
def Stale (a : Attempts ι ν) (i : ι) : Prop :=
  ∃ v ∈ a.observed i, v ≠ a.current

------------------------------------------------------------
-- How Many Conflicts There Are
------------------------------------------------------------

variable
  {a a' : Attempts ι ν}
  {i j : ι}
  {v : Option ν}

/- A party that saw the current version is not stale. -/
theorem Stale.ne
    (hStale : a'.Stale j)
    (hObserved :
      a'.observed = withObserved a.observed i v)
    (hFresh : ∀ x ∈ v, x = a'.current) :
    j ≠ i := by
  rintro rfl
  rcases hStale with ⟨x, hx, hNe⟩
  rw [hObserved, withObserved, if_pos rfl] at hx
  exact hNe (hFresh x hx)

/- The others were stale before, unless the cell changes. -/
theorem Stale.before
    (hStale : a'.Stale j)
    (hObserved :
      a'.observed = withObserved a.observed i v)
    (hCurrent : a'.current = a.current)
    (hFresh : ∀ x ∈ v, x = a'.current) :
    a.Stale j := by
  have hOther := hStale.ne hObserved hFresh
  rcases hStale with ⟨x, hx, hNe⟩
  rw [hObserved, withObserved, if_neg hOther] at hx
  rw [hCurrent] at hNe
  exact ⟨x, hx, hNe⟩

section Bounded

variable [Fintype ι]

open Classical in
/- How many parties are stale. -/
noncomputable def staleCount (a : Attempts ι ν) : Nat :=
  (Finset.univ.filter a.Stale).card

omit [DecidableEq ι] in
theorem staleCount_le
    (hStale : ∀ j, a'.Stale j → a.Stale j) :
    a'.staleCount ≤ a.staleCount := by
  classical
  apply Finset.card_le_card
  intro j hj
  rw [Finset.mem_filter] at hj ⊢
  exact ⟨hj.1, hStale j hj.2⟩

omit [DecidableEq ι] in
theorem staleCount_lt
    (hStale : ∀ j, a'.Stale j → a.Stale j)
    (hBefore : a.Stale i)
    (hAfter : ¬ a'.Stale i) :
    a'.staleCount < a.staleCount := by
  classical
  apply Finset.card_lt_card
  rw [Finset.ssubset_iff_of_subset]
  · exact ⟨i, Finset.mem_filter.mpr
      ⟨Finset.mem_univ i, hBefore⟩, fun hIn =>
        hAfter (Finset.mem_filter.mp hIn).2⟩
  · intro j hj
    rw [Finset.mem_filter] at hj ⊢
    exact ⟨hj.1, hStale j hj.2⟩

theorem staleCount_le_others
    (hOthers : ∀ j, a.Stale j → j ≠ i) :
    a.staleCount ≤ Fintype.card ι - 1 := by
  classical
  rw [← Finset.card_univ,
    ← Finset.card_erase_of_mem (Finset.mem_univ i)]
  apply Finset.card_le_card
  intro j hj
  rw [Finset.mem_filter] at hj
  exact Finset.mem_erase.mpr ⟨hOthers j hj.2, hj.1⟩

/-
  A success makes all the others stale at most, and a
  conflict uses up one that is.
-/
structure Bounded (a : Attempts ι ν) : Prop where
  bound :
    a.conflicts + a.staleCount ≤
      (Fintype.card ι - 1) * a.successes

theorem Bounded.step
    (hBounded : a.Bounded)
    (hStep : Step a a') :
    a'.Bounded := by
  have hBound := hBounded.bound
  constructor
  cases hStep with
  | @observe i =>
      refine le_trans (Nat.add_le_add_left ?_ _) hBound
      exact staleCount_le fun j hStale =>
        hStale.before rfl rfl (by simp)
  | @abandon i =>
      refine le_trans (Nat.add_le_add_left ?_ _) hBound
      exact staleCount_le fun j hStale =>
        hStale.before rfl rfl (by simp)
  | @conflict i v hObserved hStale =>
      have hLess :
          staleCount
              { a with
                observed := withObserved a.observed i none
                conflicts := a.conflicts + 1 } <
            a.staleCount := by
        refine staleCount_lt
          (fun j hStale => hStale.before rfl rfl (by simp))
          ⟨v, hObserved, hStale⟩ fun hAfter => ?_
        exact hAfter.ne rfl (by simp) rfl
      dsimp only
      omega
  | @succeed i v =>
      have hFew :
          staleCount
              { current := v
                observed := withObserved a.observed i none
                conflicts := a.conflicts
                successes := a.successes + 1 } ≤
            Fintype.card ι - 1 :=
        staleCount_le_others fun j hStale =>
          hStale.ne rfl (by simp)
      dsimp only
      rw [Nat.mul_add, Nat.mul_one]
      omega

/-
  Each success causes at most one conflict for each of the
  other parties.
-/
theorem conflicts_bounded
    (hNothing : a.observed = fun _ => none)
    (hConflicts : a.conflicts = 0)
    (hSteps : Relation.ReflTransGen Step a a') :
    a'.conflicts ≤
      (Fintype.card ι - 1) * a'.successes := by
  have hStart : a.Bounded := by
    have hNone : a.staleCount = 0 := by
      classical
      apply Finset.card_eq_zero.mpr
      apply Finset.filter_eq_empty_iff.mpr
      rintro j _ ⟨x, hx, _⟩
      rw [hNothing] at hx
      cases hx
    constructor
    rw [hNone, hConflicts]
    exact Nat.zero_le _
  have hEnd : a'.Bounded := by
    induction hSteps with
    | refl => exact hStart
    | tail _ hStep ih => exact ih.step hStep
  exact le_trans (Nat.le_add_right _ _) hEnd.bound

end Bounded

end Attempts

end Planar
