import Mathlib
import Planar.Catalog.Models

/-
  Schemas with so many columns that the cast of their number
  to 32 bits hides it.

  Main declarations:
    * `wideSchema`
    * `validate_wideSchema`
-/

------------------------------------------------------------
-- Wide Schemas
------------------------------------------------------------

namespace Planar

def wideColumn (i : Nat) : ColumnSpec :=
  ⟨"c" ++ toString i, .int32, true⟩

/- The schema with columns `c0`, `c1` and so on. -/
def wideSchema (count : Nat) : SchemaSpec :=
  ⟨(List.range count).map wideColumn⟩

theorem length_wideSchema
    (count : Nat) :
    (wideSchema count).columns.length = count := by
  rw [wideSchema, List.length_map, List.length_range]

theorem wideColumn_name_injective :
    Function.Injective fun i => (wideColumn i).name := by
  intro i j hEq
  have hLists := congrArg String.toList hEq
  simp only [wideColumn, String.toList_append] at hLists
  have hTails := List.append_cancel_left hLists
  exact Nat.repr_inj.mp (String.toList_inj.mp hTails)

theorem isBlank_wideColumn
    (i : Nat) :
    isBlank (wideColumn i).name = false := by
  simp [wideColumn, isBlank, isWhitespace]

/- New names that are not blank pass the loop. -/
theorem SchemaSpec.validateColumns_of_nodup
    {seen : List String}
    {columns : List ColumnSpec}
    (hBlank : ∀ c ∈ columns, isBlank c.name = false)
    (hNodup : (columns.map ColumnSpec.name).Nodup)
    (hNew : ∀ c ∈ columns, c.name ∉ seen) :
    validateColumns seen columns = .ok () := by
  induction columns generalizing seen with
  | nil => rfl
  | cons column rest ih =>
      rw [List.map_cons, List.nodup_cons] at hNodup
      have hFirst := hBlank column List.mem_cons_self
      unfold validateColumns
      rw [if_neg (by simp [hFirst]),
        if_neg (hNew column List.mem_cons_self)]
      apply ih
      · intro c hMem
        exact hBlank c (List.mem_cons_of_mem _ hMem)
      · exact hNodup.2
      · intro c hMem
        rw [List.mem_cons, not_or]
        refine ⟨?_, hNew c (List.mem_cons_of_mem _ hMem)⟩
        intro hSame
        apply hNodup.1
        rw [← hSame]
        exact List.mem_map_of_mem hMem

/- A schema is accepted by the low 32 bits of its width. -/
theorem validate_wideSchema
    {count : Nat}
    (hPos : 0 < count)
    (hLimit : asU32 count ≤ maxColumnsPerSchema) :
    (wideSchema count).validate = .ok () := by
  have hLength := length_wideSchema count
  have hSome :
      ¬ (wideSchema count).columns.isEmpty = true := by
    rw [List.isEmpty_iff_length_eq_zero, hLength]
    omega
  have hFits :
      ¬ asU32 (wideSchema count).columns.length >
        maxColumnsPerSchema := by
    rw [hLength]
    omega
  unfold SchemaSpec.validate
  rw [if_neg hSome, if_neg hFits]
  apply SchemaSpec.validateColumns_of_nodup
  · intro c hMem
    rcases List.mem_map.mp hMem with ⟨i, _, rfl⟩
    exact isBlank_wideColumn i
  · rw [wideSchema, List.map_map]
    exact List.nodup_range.map wideColumn_name_injective
  · exact fun _ _ => List.not_mem_nil

end Planar
