import Mathlib.Data.Set.Monotone
import Planar.Foundations.StampedRows
import Planar.Foundations.Succession

/-
  Logs and successions under other names for their times.
  The rows are the same up to the names, and they count at
  the same times when the names are in the same order.

  Main declarations:
    * `Stamped.rename`
    * `stampLog_rename`, `succession_rename`
    * `strictMonoOn_of_pairwise`, `Stamped.visibleAt_rename`
-/

------------------------------------------------------------
-- Renamed Rows
------------------------------------------------------------

namespace Planar

variable {ν τ υ : Type}

/- The row with other names for its times. -/
def Stamped.rename
    (ρ : τ → υ)
    (s : Stamped ν τ) : Stamped ν υ :=
  ⟨s.item, ρ s.opened, s.closed.map ρ⟩

@[simp] theorem Stamped.isOpen_rename
    (ρ : τ → υ)
    (s : Stamped ν τ) :
    (s.rename ρ).isOpen = s.isOpen :=
  Option.isNone_map

theorem Stamped.rename_closeIf
    (ρ : τ → υ)
    (t : τ)
    (selected : ν → Bool)
    (s : Stamped ν τ) :
    (s.closeIf t selected).rename ρ =
      (s.rename ρ).closeIf (ρ t) selected := by
  unfold closeIf
  rw [isOpen_rename]
  change (if _ then _ else _ : Stamped ν τ).rename ρ =
    if (s.isOpen && selected s.item) = true then _ else _
  split <;> rfl

theorem Edit.stamp_rename
    (ρ : τ → υ)
    (t : τ)
    (rows : List (Stamped ν τ))
    (edit : Edit ν) :
    edit.stamp (ρ t) (rows.map (Stamped.rename ρ)) =
      (edit.stamp t rows).map (Stamped.rename ρ) := by
  cases edit with
  | insert items =>
      simp only [stamp, List.map_append, List.map_map]
      rfl
  | retire selected =>
      simp only [stamp, List.map_map]
      apply List.map_congr_left
      intro s _
      exact (s.rename_closeIf ρ t selected).symm

theorem stampEdits_rename
    (ρ : τ → υ)
    (t : τ)
    (rows : List (Stamped ν τ))
    (edits : List (Edit ν)) :
    stampEdits (ρ t) (rows.map (Stamped.rename ρ)) edits =
      (stampEdits t rows edits).map (Stamped.rename ρ) := by
  induction edits generalizing rows with
  | nil => rfl
  | cons edit edits ih =>
      rw [stampEdits_cons, Edit.stamp_rename, ih,
        stampEdits_cons]

/- The rows of a renamed log are the renamed rows. -/
theorem stampLog_rename
    (ρ : τ → υ)
    (log : List (τ × List (Edit ν))) :
    stampLog (log.map fun entry => (ρ entry.1, entry.2)) =
      (stampLog log).map (Stamped.rename ρ) := by
  induction log using List.reverseRecOn with
  | nil => rfl
  | append_singleton log entry ih =>
      rw [List.map_append, List.map_singleton,
        stampLog_concat, ih, stampLog_concat]
      exact stampEdits_rename ρ entry.1 _ entry.2

theorem succession_rename
    (ρ : τ → υ)
    (points : List (τ × ν)) :
    succession (points.map fun p => (ρ p.1, p.2)) =
      (succession points).map (Stamped.rename ρ) := by
  apply List.ext_getElem?
  intro i
  rw [getElem?_succession, List.getElem?_map,
    List.getElem?_map, List.getElem?_map,
    getElem?_succession, Option.map_map, Option.map_map,
    Option.map_map]
  congr 1
  funext p
  simp [Stamped.rename, Option.map_map,
    Function.comp_def]

end Planar

------------------------------------------------------------
-- Names in the Same Order
------------------------------------------------------------

namespace Planar

variable {ν τ υ : Type} [LinearOrder τ] [LinearOrder υ]

/- Increasing times with increasing names. -/
theorem strictMonoOn_of_pairwise
    {ρ : τ → υ}
    {times : List τ}
    (hTimes : times.Pairwise (· < ·))
    (hNames : (times.map ρ).Pairwise (· < ·)) :
    StrictMonoOn ρ {t | t ∈ times} := by
  rw [List.pairwise_map] at hNames
  intro s hs t ht hLess
  rcases List.getElem_of_mem hs with ⟨i, hi, rfl⟩
  rcases List.getElem_of_mem ht with ⟨j, hj, rfl⟩
  rcases Nat.lt_trichotomy i j with hLt | rfl | hGt
  · exact List.pairwise_iff_getElem.mp hNames i j hi hj hLt
  · exact absurd hLess (lt_irrefl _)
  · have hBack :=
      List.pairwise_iff_getElem.mp hTimes j i hj hi hGt
    exact absurd hLess (lt_asymm hBack)

/- Names in the same order show the same rows. -/
theorem Stamped.visibleAt_rename
    {ρ : τ → υ}
    {times : Set τ}
    {r : Stamped ν τ}
    {t : τ}
    (hMono : StrictMonoOn ρ times)
    (hStamps : r.StampsIn (· ∈ times))
    (ht : t ∈ times) :
    (r.rename ρ).visibleAt (ρ t) = r.visibleAt t := by
  have hOpened := hMono.le_iff_le hStamps.1 ht
  unfold visibleAt rename
  cases hClosed : r.closed with
  | none => simp [hOpened]
  | some c =>
      have hLess := hMono.lt_iff_lt ht (hStamps.2 c hClosed)
      simp [hOpened, hLess]

end Planar
