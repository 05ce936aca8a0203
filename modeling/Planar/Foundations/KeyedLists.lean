import Mathlib.Data.List.Nodup

/-
  Lists of elements that are told apart by a key.

  Main declarations:
    * `KeyedLists.perm_of_keys`
    * `KeyedLists.perm_exchange`
    * `KeyedLists.fresh_parts_iff`
-/

------------------------------------------------------------
-- Lists Given by Their Keys
------------------------------------------------------------

namespace Planar

namespace KeyedLists

variable
  {α κ : Type}
  {key : α → κ}
  {all first second : List α}

/- Elements of one keyed list are given by their keys. -/
theorem perm_of_keys
    (hAll : (all.map key).Nodup)
    (hFirst : ∀ a ∈ first, a ∈ all)
    (hSecond : ∀ a ∈ second, a ∈ all)
    (hNodup : (first.map key).Nodup)
    (hNodup' : (second.map key).Nodup)
    (hKeys : ∀ k, k ∈ first.map key ↔ k ∈ second.map key) :
    first.Perm second := by
  rw [List.perm_ext_iff_of_nodup (hNodup.of_map key)
    (hNodup'.of_map key)]
  have hInto {l l' : List α}
      (hl : ∀ a ∈ l, a ∈ all)
      (hl' : ∀ a ∈ l', a ∈ all)
      (hSame : ∀ k ∈ l.map key, k ∈ l'.map key) :
      ∀ a ∈ l, a ∈ l' := by
    intro a ha
    rcases List.mem_map.mp
      (hSame _ (List.mem_map_of_mem ha)) with ⟨b, hb, hEq⟩
    rw [← List.inj_on_of_nodup_map hAll (hl' b hb) (hl a ha)
      hEq]
    exact hb
  intro a
  exact ⟨hInto hFirst hSecond (fun k => (hKeys k).mp) a,
    hInto hSecond hFirst (fun k => (hKeys k).mpr) a⟩

section Exchange

variable [DecidableEq κ]

/- The keys of the elements whose key is not in a list. -/
theorem mem_keys_filter_notMem
    (keys : List κ)
    (k : κ) :
    k ∈ (first.filter fun a => key a ∉ keys).map key ↔
      k ∈ first.map key ∧ k ∉ keys := by
  constructor
  · intro hIn
    rcases List.mem_map.mp hIn with ⟨a, ha, rfl⟩
    rw [List.mem_filter, decide_eq_true_iff] at ha
    exact ⟨List.mem_map_of_mem ha.1, ha.2⟩
  · rintro ⟨hIn, hOut⟩
    rcases List.mem_map.mp hIn with ⟨a, ha, rfl⟩
    apply List.mem_map_of_mem
    exact List.mem_filter.mpr ⟨ha, decide_eq_true hOut⟩

/-
  Taking away what is not in the second list and adding what
  is not in the first one leads from one to the other.
-/
theorem perm_exchange
    {removed : List κ}
    (hAll : (all.map key).Nodup)
    (hFirst : first.Sublist all)
    (hSecond : second.Sublist all)
    (hRemoved : ∀ k, k ∈ removed ↔
      k ∈ first.map key ∧ k ∉ second.map key) :
    ((first.filter fun a => key a ∉ removed) ++
        second.filter fun a => key a ∉ first.map key).Perm
      second := by
  apply perm_of_keys hAll
  case hFirst =>
    intro a ha
    rcases List.mem_append.mp ha with hKept | hNew
    · exact hFirst.subset (List.mem_of_mem_filter hKept)
    · exact hSecond.subset (List.mem_of_mem_filter hNew)
  case hSecond => exact hSecond.subset
  case hNodup =>
    rw [List.map_append, List.nodup_append]
    refine ⟨hAll.sublist
      ((List.filter_sublist.trans hFirst).map key),
      hAll.sublist
        ((List.filter_sublist.trans hSecond).map key), ?_⟩
    rintro k hKept _ hNew rfl
    exact ((mem_keys_filter_notMem _ _).mp hNew).2
      ((mem_keys_filter_notMem _ _).mp hKept).1
  case hNodup' => exact hAll.sublist (hSecond.map key)
  case hKeys =>
    intro k
    rw [List.map_append, List.mem_append,
      mem_keys_filter_notMem, mem_keys_filter_notMem,
      hRemoved]
    tauto

end Exchange

/-
  Keys that are new can come in two parts, the first of
  them with one more key.
-/
theorem fresh_parts_iff
    {used front back : List κ}
    {a b : κ}
    (hNew : a ∉ used ++ b :: (front ++ back)) :
    ((b :: (front ++ back)).Nodup ∧
        ∀ k ∈ b :: (front ++ back), k ∉ used) ↔
      ((a :: front).Nodup ∧ ∀ k ∈ a :: front, k ∉ used) ∧
        (b :: back).Nodup ∧
          ∀ k ∈ b :: back, k ∉ used ++ a :: front := by
  simp only [List.nodup_cons, List.nodup_append,
    List.mem_append, List.mem_cons] at hNew ⊢
  grind

end KeyedLists

end Planar
