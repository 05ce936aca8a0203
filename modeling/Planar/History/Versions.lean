import Planar.Foundations.Lists
import Planar.Reading.Decoding

/-
  The schema versions of a history: each carries on all
  columns of the versions before it.

  Main declarations:
    * `ColumnSpec.EvolvesTo`, `CarriedOn`
    * `Succeeds.carriedOn`, `Succeeds.keptIn`
    * `Lawful.carriedOn`
-/

------------------------------------------------------------
-- Columns That Are Carried On
------------------------------------------------------------

namespace Planar

/- A column of a later version carries on an earlier one. -/
structure ColumnSpec.EvolvesTo
    (c d : ColumnSpec) : Prop where
  name : d.name = c.name
  columnType : canEvolveTo c.columnType d.columnType = true
  isNullable : c.isNullable = true → d.isNullable = true

theorem ColumnSpec.EvolvesTo.refl
    (c : ColumnSpec) :
    c.EvolvesTo c :=
  ⟨rfl, canEvolveTo_refl _, id⟩

theorem ColumnSpec.EvolvesTo.trans
    {c d e : ColumnSpec}
    (hFirst : c.EvolvesTo d)
    (hSecond : d.EvolvesTo e) :
    c.EvolvesTo e where
  name := hSecond.name.trans hFirst.name
  columnType :=
    canEvolveTo_trans hFirst.columnType hSecond.columnType
  isNullable := hSecond.isNullable ∘ hFirst.isNullable

/- Every column of the first list is carried on. -/
def CarriedOn (columns later : List ColumnSpec) : Prop :=
  ∀ c ∈ columns, ∃ d ∈ later, c.EvolvesTo d

theorem CarriedOn.refl
    (columns : List ColumnSpec) :
    CarriedOn columns columns :=
  fun c hColumn => ⟨c, hColumn, .refl c⟩

theorem CarriedOn.trans
    {columns later latest : List ColumnSpec}
    (hFirst : CarriedOn columns later)
    (hSecond : CarriedOn later latest) :
    CarriedOn columns latest := by
  intro c hColumn
  rcases hFirst c hColumn with ⟨d, hLater, hEvolves⟩
  rcases hSecond d hLater with ⟨e, hLatest, hEvolves'⟩
  exact ⟨e, hLatest, hEvolves.trans hEvolves'⟩

------------------------------------------------------------
-- The Versions of a History
------------------------------------------------------------

/- The types of a history are read back as they were given. -/
def History.ReadsTypes
    (ext : External)
    (h : History) : Prop :=
  ∀ p ∈ h.schemaPoints, ∀ c ∈ p.2.specs,
    ext.ReadsType c.columnType

instance
    (ext : External)
    (h : History) : Decidable (h.ReadsTypes ext) :=
  inferInstanceAs (Decidable
    (∀ p ∈ h.schemaPoints, ∀ c ∈ p.2.specs,
      ext.fbToSchema
          (ext.schemaToFb [.mk "_" c.columnType true []]) =
        .ok [.mk "_" c.columnType true []]))

variable
  {ext : External}
  {h : History}

/-
  The check of a commit reads the types of the current
  columns back, and compares them with the new ones.
-/
theorem Succeeds.carriedOn
    {s s' : SchemaContents}
    (hSucceeds : Succeeds ext s s')
    (hReads : ∀ c ∈ s.specs, ext.ReadsType c.columnType) :
    CarriedOn s.specs s'.specs := by
  intro c hColumn
  rcases mem_of_forall₂ (encodes_columnRows ext s) hColumn
    with ⟨row, hRow, hEncodes⟩
  rcases hSucceeds row hRow with
    ⟨oldType, hDecode, d, hNew, hName, hType, hNullable⟩
  rw [hEncodes.columnType,
    decodeDataType_encodeDataType (hReads c hColumn)]
    at hDecode
  refine ⟨d, hNew, ?name, ?columnType, ?isNullable⟩
  case name => rw [hName, hEncodes.columnName]
  case columnType =>
    rw [Except.ok.inj hDecode]
    exact hType
  case isNullable =>
    rw [← hEncodes.isNullable]
    exact hNullable

/-
  Every column of the first list keeps its name, and stays
  nullable if it was.
-/
def KeptIn (columns later : List ColumnSpec) : Prop :=
  ∀ c ∈ columns, ∃ d ∈ later,
    d.name = c.name ∧
      (c.isNullable = true → d.isNullable = true)

theorem KeptIn.refl
    (columns : List ColumnSpec) :
    KeptIn columns columns :=
  fun c hColumn => ⟨c, hColumn, rfl, id⟩

theorem KeptIn.trans
    {columns later latest : List ColumnSpec}
    (hFirst : KeptIn columns later)
    (hSecond : KeptIn later latest) :
    KeptIn columns latest := by
  intro c hColumn
  rcases hFirst c hColumn with ⟨d, hLater, hName, hNull⟩
  rcases hSecond d hLater with ⟨e, hLatest, hName', hNull'⟩
  exact ⟨e, hLatest, hName'.trans hName, hNull' ∘ hNull⟩

/- Names and nullability do not depend on the types. -/
theorem Succeeds.keptIn
    {s s' : SchemaContents}
    (hSucceeds : Succeeds ext s s') :
    KeptIn s.specs s'.specs := by
  intro c hColumn
  rcases mem_of_forall₂ (encodes_columnRows ext s) hColumn
    with ⟨row, hRow, hEncodes⟩
  rcases hSucceeds row hRow with
    ⟨_, _, d, hNew, hName, _, hNullable⟩
  rw [hEncodes.columnName] at hName
  rw [hEncodes.isNullable] at hNullable
  exact ⟨d, hNew, hName, hNullable⟩

/- The schema of a past is kept in that of the whole. -/
theorem History.keptIn_past
    {past later : History}
    {s last : SchemaContents}
    (hEvolves :
      (History.schemaPoints (past ++ later)).IsChain
        fun p q => Succeeds ext p.2 q.2)
    (hPast : past.schema = some s)
    (hLast : History.schema (past ++ later) = some last) :
    KeptIn s.specs last.specs := by
  let Keeps (p q : TxnId × SchemaContents) : Prop :=
    KeptIn p.2.specs q.2.specs
  have : Trans Keeps Keeps Keeps := ⟨.trans⟩
  have hSteps :
      (History.schemaPoints (past ++ later)).IsChain Keeps :=
    hEvolves.imp fun _ _ hNext => hNext.keptIn
  have hPairs := List.IsChain.pairwise hSteps
  rw [History.schemaPoints_append,
    List.pairwise_append] at hPairs
  rcases Option.map_eq_some_iff.mp hPast with ⟨p, hp, rfl⟩
  rcases Option.map_eq_some_iff.mp hLast with ⟨q, hq, rfl⟩
  rw [History.schemaPoints_append] at hq
  by_cases hNone : History.schemaPoints later = []
  · rw [hNone, List.append_nil, hp, Option.some.injEq] at hq
    rw [hq]
    exact .refl _
  · rw [List.getLast?_append_of_ne_nil _ hNone] at hq
    exact hPairs.2.2 p (List.mem_of_getLast? hp) q
      (List.mem_of_getLast? hq)

/- The single steps compose: carrying on is transitive. -/
theorem Lawful.carriedOn
    (hLawful : Lawful ext h)
    (hReads : h.ReadsTypes ext) :
    h.schemaPoints.Pairwise fun p q =>
      CarriedOn p.2.specs q.2.specs := by
  have hSteps : h.schemaPoints.IsChain fun p q =>
      CarriedOn p.2.specs q.2.specs :=
    hLawful.evolves.imp_of_mem_imp fun p q hPoint _ hNext =>
      hNext.carriedOn (hReads p hPoint)
  let Carries (p q : TxnId × SchemaContents) : Prop :=
    CarriedOn p.2.specs q.2.specs
  have : Trans Carries Carries Carries := ⟨.trans⟩
  exact List.IsChain.pairwise hSteps

/- An earlier version is carried on by the same or a later. -/
theorem Lawful.carriedOn_of_le
    {i j : Nat}
    {p q : TxnId × SchemaContents}
    (hLawful : Lawful ext h)
    (hReads : h.ReadsTypes ext)
    (hEarlier : h.schemaPoints[i]? = some p)
    (hLater : h.schemaPoints[j]? = some q)
    (hOrder : i ≤ j) :
    CarriedOn p.2.specs q.2.specs := by
  rcases List.getElem?_eq_some_iff.mp hEarlier with
    ⟨hi, rfl⟩
  rcases List.getElem?_eq_some_iff.mp hLater with ⟨hj, rfl⟩
  rcases Nat.eq_or_lt_of_le hOrder with rfl | hLess
  · exact .refl _
  · exact List.pairwise_iff_getElem.mp
      (hLawful.carriedOn hReads) i j hi hj hLess

end Planar
