import Planar.History.OwnCalls

/-
  The schemas that the calls on a table give, and where they
  stand in its history.

  Main declarations:
    * `Call.givenSchemas`, `World.givenSchemas`
    * `World.specs_schemaPoints`
    * `Lawful.points_sublist`, `Lawful.points_head`
-/

------------------------------------------------------------
-- Schemas in the Arguments
------------------------------------------------------------

namespace Planar

/- The schema that an operation gives. -/
def MutationOp.givenSchema :
    MutationOp → Option SchemaSpec
| .updateSchema spec => some spec
| _ => none

/- The schemas among the arguments of a call. -/
def Call.givenSchemas : Call → List SchemaSpec
| .create call => [call.schema]
| .commit call =>
    call.mutation.operations.filterMap
      MutationOp.givenSchema

/- The schemas of the successful calls on a table. -/
def World.givenSchemas
    (w : World)
    (ident : TableIdent) : List SchemaSpec :=
  (w.callsOn ident).flatMap Call.givenSchemas

/- The changes of a commit bring the schemas it gives. -/
theorem specs_changesFrom
    (draws : Draws)
    (op : Nat)
    (operations : List MutationOp) :
    ((changesFrom draws op operations).filterMap
        Change.schema).map SchemaContents.specs =
      (operations.filterMap MutationOp.givenSchema).map
        SchemaSpec.columns := by
  induction operations generalizing op with
  | nil => rfl
  | cons operation rest ih =>
      rw [changesFrom, List.filterMap_cons,
        List.filterMap_cons]
      cases operation with
      | updateSchema spec =>
          simp only [MutationOp.change, Change.schema,
            MutationOp.givenSchema, List.map_cons,
            SchemaSpec.specs_contents, ih]
      | _ => exact ih _

theorem Call.specs_entry
    (call : Call) :
    call.entry.schemas.map SchemaContents.specs =
      call.givenSchemas.map SchemaSpec.columns := by
  cases call with
  | create call =>
      change [(call.schema.contents call.draws 0).specs] =
        [call.schema.columns]
      rw [SchemaSpec.specs_contents]
  | commit call =>
      exact specs_changesFrom call.draws 0
        call.mutation.operations

/- The points of a history have the given columns. -/
theorem World.specs_schemaPoints
    (w : World)
    (ident : TableIdent) :
    ((w.history ident).schemaPoints.map fun p =>
        p.2.specs) =
      (w.givenSchemas ident).map SchemaSpec.columns := by
  rw [history_eq, givenSchemas]
  induction w.callsOn ident with
  | nil => rfl
  | cons call rest ih =>
      rw [List.map_cons, List.flatMap_cons, List.map_append,
        ← ih, ← Call.specs_entry, ← List.singleton_append,
        History.schemaPoints_append,
        History.schemaPoints_singleton, List.map_append,
        List.map_map]
      rfl

------------------------------------------------------------
-- The Points of a History
------------------------------------------------------------

variable
  {ext : External}
  {h : History}

/- The schemas came in the order of their transactions. -/
theorem Lawful.points_sublist
    (hLawful : Lawful ext h) :
    (h.schemaPoints.map Prod.fst).Sublist h.ids := by
  have hOne := hLawful.oneSchema
  clear hLawful
  induction h with
  | nil => exact .slnil
  | cons e rest ih =>
      have hRest := ih fun e' he =>
        hOne e' (List.mem_cons_of_mem _ he)
      rw [← List.singleton_append,
        History.schemaPoints_append,
        History.schemaPoints_singleton, History.ids_append,
        History.ids_singleton, List.map_append,
        List.map_map]
      refine List.Sublist.append ?_ hRest
      rcases nil_or_singleton
          (hOne e List.mem_cons_self) with
        hNone | ⟨s, hSome⟩
      · rw [hNone]
        exact List.nil_sublist _
      · rw [hSome]
        exact List.Sublist.refl _

/- The first schema came with the first transaction. -/
theorem Lawful.points_head
    (hLawful : Lawful ext h) :
    h.schemaPoints.head?.map Prod.fst = h.ids.head? := by
  rcases hLawful.created with ⟨first, hFirst, hSchemas⟩
  cases h with
  | nil => cases hFirst
  | cons e rest =>
      rw [List.head?_cons, Option.mem_def,
        Option.some.injEq] at hFirst
      subst hFirst
      cases hList : e.schemas with
      | nil => exact absurd hList hSchemas
      | cons s more =>
          rw [← List.singleton_append,
            History.schemaPoints_append,
            History.schemaPoints_singleton, hList]
          rfl

end Planar
