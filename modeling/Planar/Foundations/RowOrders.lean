import Mathlib.Data.List.Perm.Basic
import Mathlib.Data.List.Sort

/-
  The order in which a database returns the rows of a query
  that asks for none: any order of the rows that match.

  Main declarations:
    * `RowOrder`, with `RowOrder.stored`, `RowOrder.sorted`
    * `RowOrder.mem_arrange`, `RowOrder.length_arrange`
    * `RowOrder.first`, the row that `LIMIT 1` leaves
    * `RowOrder.mem_first`, `RowOrder.first_eq_none_iff`
    * `RowOrder.first_sorted_map`
-/

------------------------------------------------------------
-- Orders of Rows
------------------------------------------------------------

namespace Planar

/- A way to put any rows in an order, none lost or added. -/
structure RowOrder (α : Type) where
  arrange : List α → List α
  perm : ∀ rows, (arrange rows).Perm rows

namespace RowOrder

variable
  {α : Type}
  {order : RowOrder α}
  {rows : List α}
  {row : α}

/- The rows as they were inserted. -/
def stored : RowOrder α where
  arrange rows := rows
  perm rows := .refl rows

/- The rows by a key, as from an index on it. -/
def sorted
    (before : α → α → Prop)
    [DecidableRel before] : RowOrder α where
  arrange rows := rows.insertionSort before
  perm rows := List.perm_insertionSort before rows

@[simp] theorem mem_arrange :
    row ∈ order.arrange rows ↔ row ∈ rows :=
  (order.perm rows).mem_iff

@[simp] theorem length_arrange :
    (order.arrange rows).length = rows.length :=
  (order.perm rows).length_eq

@[simp] theorem arrange_nil : order.arrange [] = [] :=
  (order.perm []).eq_nil

@[simp] theorem arrange_singleton :
    order.arrange [row] = [row] :=
  List.perm_singleton.mp (order.perm [row])

------------------------------------------------------------
-- The First Row
------------------------------------------------------------

/- The row that a query with `LIMIT 1` returns. -/
def first
    (order : RowOrder α)
    (rows : List α) : Option α :=
  (order.arrange rows).head?

theorem mem_first
    (hFirst : order.first rows = some row) :
    row ∈ rows :=
  mem_arrange.mp (List.mem_of_mem_head? hFirst)

@[simp] theorem first_eq_none_iff :
    order.first rows = none ↔ rows = [] := by
  rw [first, List.head?_eq_none_iff]
  constructor
  · intro hNone
    have hPerm := order.perm rows
    rw [hNone] at hPerm
    exact hPerm.nil_eq.symm
  · rintro rfl
    exact arrange_nil

@[simp] theorem first_singleton :
    order.first [row] = some row := by
  rw [first, arrange_singleton, List.head?_cons]

/- Rows under other names that keep their order. -/
theorem first_sorted_map
    {β : Type}
    {f : α → β}
    {before : α → α → Prop}
    {before' : β → β → Prop}
    [DecidableRel before]
    [DecidableRel before']
    (hBefore : ∀ a ∈ rows, ∀ b ∈ rows,
      before a b ↔ before' (f a) (f b)) :
    (sorted before').first (rows.map f) =
      ((sorted before).first rows).map f := by
  change ((rows.map f).insertionSort before').head? =
    (rows.insertionSort before).head?.map f
  rw [← List.map_insertionSort before before' f rows hBefore,
    List.head?_map]

end RowOrder

end Planar
