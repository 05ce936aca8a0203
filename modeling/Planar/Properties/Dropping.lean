import Planar.Properties.TimeTravel

/-
  No table can be dropped.

  Main declarations:
    * `World.Reachable.dropFails`
-/

------------------------------------------------------------
-- Dropping a Table
------------------------------------------------------------

namespace Planar

/-
  The transaction that created a table refers to it, so the
  one `DELETE` of a drop always violates a foreign key.
-/
theorem World.Reachable.dropFails
    {ext : External}
    {ident : TableIdent}
    {row : TableRow}
    {w : World}
    (hReach : w.Reachable ext)
    (hFound : w.database.findTable ident = some row) :
    dropTable ident w.database =
      (fault (.storage .foreignKeyViolation),
        w.database) :=
  hReach.inv.dropTable_eq hFound

theorem dropFails_sample :
    dropTable sampleIdent sampleWorld.database =
      (fault (.storage .foreignKeyViolation),
        sampleWorld.database) := by
  have hFound :
      (sampleWorld.database.findTable
        sampleIdent).isSome = true := by
    decide +kernel
  rcases Option.isSome_iff_exists.mp hFound with
    ⟨row, hRow⟩
  exact (World.reachable_run sampleExternal
    sampleCalls).dropFails hRow

/- A table that was only just created cannot be dropped. -/
theorem dropTable_created :
    let w := World.run sampleExternal [sampleCreate 1]
    w.Reachable sampleExternal ∧
      (w.database.findTable sampleIdent).isSome = true ∧
      (dropTable sampleIdent w.database).1 ≠ .ok () ∧
      (w.drop sampleIdent).database.findTable sampleIdent ≠
        none :=
  ⟨World.reachable_run .., by decide +kernel,
    by decide +kernel, by decide +kernel⟩

end Planar
