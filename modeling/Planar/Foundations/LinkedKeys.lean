import Mathlib.Data.List.Chain
import Mathlib.Data.List.Nodup
import Mathlib.Tactic.Common

/-
  Keys stored with a link to the key before them.

  Main declarations:
    * `linkFrom`, `linkedKeys`
    * `linkedKeys_concat`
    * `find?_linkedKeys`
    * `isChain_of_linkedKeys`
-/

------------------------------------------------------------
-- Linked Keys
------------------------------------------------------------

namespace Planar

variable {κ : Type}

/- Pair each key with its predecessor. -/
def linkFrom (previous : Option κ) :
    List κ → List (κ × Option κ)
| [] => []
| k :: ks => (k, previous) :: linkFrom (some k) ks

/- The links of a chain whose first key is a root. -/
def linkedKeys (keys : List κ) : List (κ × Option κ) :=
  linkFrom none keys

theorem linkFrom_append
    (previous : Option κ)
    (first second : List κ) :
    linkFrom previous (first ++ second) =
      linkFrom previous first ++
        linkFrom (first.getLast?.or previous) second := by
  induction first generalizing previous with
  | nil => rfl
  | cons k rest ih =>
      rw [List.cons_append, linkFrom, ih, linkFrom,
        List.cons_append]
      cases rest with
      | nil => rfl
      | cons next rest =>
          rw [List.getLast?_cons_cons]
          cases hLast : (next :: rest).getLast? with
          | none => simp at hLast
          | some last => rfl

/- A key points to the last one before it. -/
theorem linkedKeys_append_cons
    (before after : List κ)
    (k : κ) :
    linkedKeys (before ++ k :: after) =
      linkedKeys before ++
        (k, before.getLast?) ::
          linkFrom (some k) after := by
  simp [linkedKeys, linkFrom_append, linkFrom]

@[simp] theorem linkedKeys_concat
    (keys : List κ)
    (k : κ) :
    linkedKeys (keys ++ [k]) =
      linkedKeys keys ++ [(k, keys.getLast?)] :=
  linkedKeys_append_cons keys [] k

@[simp] theorem map_fst_linkFrom
    (previous : Option κ)
    (keys : List κ) :
    (linkFrom previous keys).map Prod.fst = keys := by
  induction keys generalizing previous with
  | nil => rfl
  | cons first rest ih => simp [linkFrom, ih]

@[simp] theorem map_fst_linkedKeys
    (keys : List κ) :
    (linkedKeys keys).map Prod.fst = keys :=
  map_fst_linkFrom none keys

------------------------------------------------------------
-- Looking Links Up
------------------------------------------------------------

theorem find?_linkedKeys_of_notMem
    [DecidableEq κ]
    {keys : List κ}
    {k : κ}
    (hKey : k ∉ keys) :
    (linkedKeys keys).find? (fun link => link.1 = k) =
      none := by
  apply List.find?_eq_none.mpr
  intro link hLink hEq
  apply hKey
  have hFirst : link.1 ∈ (linkedKeys keys).map Prod.fst :=
    List.mem_map_of_mem hLink
  rw [map_fst_linkedKeys] at hFirst
  simpa using (of_decide_eq_true hEq) ▸ hFirst

/- The first link of a key leads to the key before it. -/
theorem find?_linkedKeys
    [DecidableEq κ]
    {before after : List κ}
    {k : κ}
    (hKey : k ∉ before) :
    (linkedKeys (before ++ k :: after)).find?
        (fun link => link.1 = k) =
      some (k, before.getLast?) := by
  rw [linkedKeys_append_cons, List.find?_append,
    find?_linkedKeys_of_notMem hKey]
  simp

/- What relates every link relates all neighbours. -/
theorem isChain_of_linkFrom
    {R : κ → κ → Prop}
    {previous : Option κ}
    {keys : List κ}
    (hLinks : ∀ link ∈ linkFrom previous keys,
      ∀ k ∈ link.2, R k link.1) :
    (previous.toList ++ keys).IsChain R := by
  induction keys generalizing previous with
  | nil =>
      cases previous with
      | none => exact .nil
      | some k => exact .singleton k
  | cons k rest ih =>
      have hRest : (k :: rest).IsChain R :=
        ih fun link hLink => hLinks link
          (List.mem_cons_of_mem _ hLink)
      cases previous with
      | none => exact hRest
      | some p =>
          refine .cons_cons ?_ hRest
          exact hLinks (k, some p) List.mem_cons_self p rfl

theorem isChain_of_linkedKeys
    {R : κ → κ → Prop}
    {keys : List κ}
    (hLinks : ∀ link ∈ linkedKeys keys,
      ∀ k ∈ link.2, R k link.1) :
    keys.IsChain R :=
  isChain_of_linkFrom hLinks

end Planar
