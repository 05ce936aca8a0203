import Mathlib.Data.List.Flatten
import Mathlib.Data.List.Perm.Subperm

/-
  Logs whose entries each belong to a key, and the cuts of a
  log: what remains of it when every key keeps a first part
  of its own entries, in any order between the keys.

  Main declarations:
    * `ofKey`, `Cut`
    * `Cut.swap`, `Cut.before`
-/

------------------------------------------------------------
-- Cuts
------------------------------------------------------------

namespace Planar
namespace KeyedLogs

variable
  {α κ : Type}
  [DecidableEq κ]
  {key : α → κ}
  {log cut : List α}

/- The entries of one key, in order. -/
def ofKey
    (key : α → κ)
    (k : κ)
    (log : List α) : List α :=
  log.filter fun a => key a = k

/- Every key keeps a first part of its own entries. -/
structure Cut
    (key : α → κ)
    (log cut : List α) : Prop where
  subperm : cut.Subperm log
  ordered : ∀ k, (ofKey key k cut).IsPrefix (ofKey key k log)

theorem ofKey_eq_nil
    {k : κ}
    (hNone : ∀ a ∈ log, key a ≠ k) :
    ofKey key k log = [] :=
  List.filter_eq_nil_iff.mpr fun a ha =>
    mt of_decide_eq_true (hNone a ha)

/- Two parts with different keys may trade places. -/
theorem Cut.swap
    {first second : List α}
    (hOther : ∀ a ∈ first, ∀ b ∈ second, key a ≠ key b) :
    Cut key (first ++ second) (second ++ first) where
  subperm := List.perm_append_comm.subperm
  ordered k := by
    unfold ofKey
    rw [List.filter_append, List.filter_append]
    by_cases hFirst : ∀ a ∈ first, key a ≠ k
    · have hNone := ofKey_eq_nil hFirst
      unfold ofKey at hNone
      rw [hNone, List.append_nil]
      exact List.prefix_rfl
    · push Not at hFirst
      rcases hFirst with ⟨a, ha, hKey⟩
      have hNone := ofKey_eq_nil fun b hb =>
        Ne.symm (hKey ▸ hOther a ha b hb)
      unfold ofKey at hNone
      rw [hNone, List.append_nil]
      exact List.prefix_rfl

/-
  An entry of a cut is an entry of the log that has the same
  entries of its own key before it.
-/
theorem Cut.before
    {before after : List α}
    {a : α}
    (hCut : Cut key log (before ++ a :: after)) :
    ∃ earlier later, log = earlier ++ a :: later ∧
      ofKey key (key a) earlier =
        ofKey key (key a) before := by
  rcases hCut.ordered (key a) with ⟨rest, hRest⟩
  have hSplit :
      ofKey key (key a) log =
        ofKey key (key a) before ++
          a :: (ofKey key (key a) after ++ rest) := by
    have hCons :
        ofKey key (key a) (a :: after) =
          a :: ofKey key (key a) after :=
      List.filter_cons_of_pos (decide_eq_true rfl)
    rw [← List.cons_append, ← hCons, ← List.append_assoc,
      ← hRest, ofKey, List.filter_append]
    rfl
  rcases List.filter_eq_append_iff.mp hSplit with
    ⟨first, second, rfl, hFirst, hSecond⟩
  rcases List.filter_eq_cons_iff.mp hSecond with
    ⟨others, later, rfl, hOthers, _, _⟩
  refine ⟨first ++ others, later, ?_, ?_⟩
  · rw [List.append_assoc]
  · have hNone : others.filter (fun b => key b = key a) =
        [] :=
      List.filter_eq_nil_iff.mpr hOthers
    rw [ofKey, List.filter_append, hNone,
      List.append_nil, hFirst]

/- What is before an entry of a log without repetitions. -/
theorem notMem_before
    {β : Type}
    {f : α → List β}
    {before after : List α}
    {a : α}
    (hNodup : ((before ++ a :: after).flatMap f).Nodup) :
    ∀ b ∈ f a, b ∉ before.flatMap f := by
  intro b hb hBefore
  rw [List.flatMap_append, List.flatMap_cons] at hNodup
  exact (List.nodup_append.mp hNodup).2.2 b hBefore b
    (List.mem_append_left _ hb) rfl

/- A cut of a log without repetitions has none. -/
theorem Cut.nodup
    {β : Type}
    {f : α → List β}
    (hCut : Cut key log cut)
    (hNodup : (log.flatMap f).Nodup) :
    (cut.flatMap f).Nodup := by
  rcases hCut.subperm with ⟨part, hPerm, hSublist⟩
  exact (hPerm.flatMap_right f).nodup_iff.mp
    (hNodup.sublist (hSublist.flatMap f))

end KeyedLogs

end Planar
