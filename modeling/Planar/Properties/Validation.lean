import Planar.Catalog.Commit
import Planar.Properties.OptionValidation
import Planar.Properties.WideSchemas

/-
  What the validation of arguments accepts, stated without
  the loops that find it out.

  Main declarations:
    * `SchemaSpec.WellFormed`, `SchemaSpec.validate_iff`
    * `FileSpec.WellFormed`, `FileSpec.validate_iff`
    * `Mutation.WellFormed`, `precheck_iff`
-/

------------------------------------------------------------
-- Schema Specifications
------------------------------------------------------------

namespace Planar

/- A schema with a column, and names to tell them apart. -/
structure SchemaSpec.WellFormed
    (spec : SchemaSpec) : Prop where
  nonempty : spec.columns ≠ []
  count : asU32 spec.columns.length ≤ maxColumnsPerSchema
  named : ∀ column ∈ spec.columns,
    isBlank column.name = false
  distinct : (spec.columns.map ColumnSpec.name).Nodup

/- The loop over the columns stops at a blank name. -/
theorem SchemaSpec.validateColumns_named
    {seen : List String}
    {columns : List ColumnSpec}
    (hOk : validateColumns seen columns = .ok ()) :
    ∀ column ∈ columns, isBlank column.name = false := by
  induction columns generalizing seen with
  | nil => simp
  | cons column rest ih =>
      unfold validateColumns at hOk
      split at hOk
      · cases hOk
      rename_i hNamed
      split at hOk
      · cases hOk
      intro other hOther
      rcases List.mem_cons.mp hOther with rfl | hOther
      · exact Bool.eq_false_iff.mpr hNamed
      · exact ih hOk other hOther

theorem SchemaSpec.validate_iff
    {spec : SchemaSpec} :
    spec.validate = .ok () ↔ spec.WellFormed := by
  constructor
  · intro hOk
    rcases validate_ok hOk with
      ⟨hNonempty, hCount, hDistinct⟩
    unfold validate at hOk
    split at hOk
    · cases hOk
    split at hOk
    · cases hOk
    exact ⟨hNonempty, hCount, validateColumns_named hOk,
      hDistinct⟩
  · intro hForm
    unfold validate
    rw [if_neg (by simp [hForm.nonempty]),
      if_neg (Nat.not_lt.mpr hForm.count)]
    exact validateColumns_of_nodup hForm.named
      hForm.distinct fun _ _ => List.not_mem_nil

------------------------------------------------------------
-- File Specifications
------------------------------------------------------------

/- A file with a path, counts and readable values. -/
structure FileSpec.WellFormed
    (ext : External)
    (f : FileSpec) : Prop where
  path : isBlank f.filePath = false
  recordCount : ¬ f.recordCount < 0
  fileSizeBytes : ¬ f.fileSizeBytes < 0
  partitionValues : ∀ value ∈ f.partitionValues,
    value.isObject = true
  formatOptions : ∀ value ∈ f.formatOptions,
    LegalOptions ext f.fileFormat value

theorem FileSpec.validatePartitionValues_iff
    {value : Option Json} :
    validatePartitionValues value = .ok () ↔
      ∀ v ∈ value, v.isObject = true := by
  cases value with
  | none => simp [validatePartitionValues]
  | some v =>
      by_cases hObject : v.isObject = true <;>
        simp [validatePartitionValues, hObject, fault]

/- Legal options are an object. -/
theorem LegalOptions.isObject
    {ext : External}
    {format : Format}
    {options : Json}
    (hLegal : LegalOptions ext format options) :
    options.isObject = true := by
  rcases hLegal with ⟨entries, hEntries, _⟩
  cases options <;>
    first | rfl | cases hEntries

theorem FileSpec.validateOptions_iff
    {ext : External}
    {format : Format}
    {value : Option Json} :
    validateOptions ext format value = .ok () ↔
      ∀ v ∈ value, LegalOptions ext format v := by
  cases value with
  | none => simp [validateOptions]
  | some v =>
      simp only [Option.mem_def, Option.some.injEq,
        forall_eq']
      rw [← validateFormatOptions_ok_iff]
      simp only [validateOptions]
      constructor
      · intro hOk
        by_cases hObject : v.isObject = true
        · rw [if_pos hObject] at hOk
          cases hValid : validateFormatOptions ext
              format.asStr v with
          | ok u => rfl
          | error e =>
              rw [hValid] at hOk
              cases hOk
        · rw [if_neg hObject] at hOk
          cases hOk
      · intro hValid
        have hLegal :=
          (validateFormatOptions_ok_iff ext format v).mp
            hValid
        rw [if_pos hLegal.isObject, hValid]
        rfl

theorem FileSpec.validate_iff
    {ext : External}
    {f : FileSpec} :
    f.validate ext = .ok () ↔ f.WellFormed ext := by
  unfold validate
  constructor
  · intro hOk
    by_cases hPath : isBlank f.filePath = true
    · rw [if_pos hPath] at hOk
      cases hOk
    by_cases hRecords : f.recordCount < 0
    · rw [if_neg hPath, if_pos hRecords] at hOk
      cases hOk
    by_cases hSize : f.fileSizeBytes < 0
    · rw [if_neg hPath, if_neg hRecords, if_pos hSize]
        at hOk
      cases hOk
    rw [if_neg hPath, if_neg hRecords, if_neg hSize] at hOk
    rcases bind_ok.mp hOk with ⟨u, hPartition, hOptions⟩
    exact ⟨Bool.eq_false_iff.mpr hPath, hRecords, hSize,
      validatePartitionValues_iff.mp hPartition,
      validateOptions_iff.mp hOptions⟩
  · intro hForm
    rw [if_neg (Bool.eq_false_iff.mp hForm.path),
      if_neg hForm.recordCount, if_neg hForm.fileSizeBytes]
    exact bind_ok.mpr ⟨(),
      validatePartitionValues_iff.mpr hForm.partitionValues,
      validateOptions_iff.mpr hForm.formatOptions⟩

------------------------------------------------------------
-- Mutations
------------------------------------------------------------

/- The operation replaces the properties. -/
def MutationOp.isSetProperties : MutationOp → Bool
| .setProperties _ => true
| _ => false

/- The operation names nothing twice. -/
def MutationOp.NamesOnce : MutationOp → Prop
| .deleteFiles fileUuids => fileUuids.Nodup
| .removeProperties keys => (keys.map PropertyKey.key).Nodup
| _ => True

/-
  A mutation with some operations and not too many of them,
  at most one of them for the schema and at most one for all
  properties.
-/
structure Mutation.WellFormed
    (mutation : Mutation) : Prop where
  nonempty : mutation.operations ≠ []
  count :
    asU32 mutation.operations.length ≤
      maxOperationsPerMutation
  oneSchema :
    (mutation.operations.filter
      MutationOp.isUpdateSchema).length ≤ 1
  oneProperties :
    (mutation.operations.filter
      MutationOp.isSetProperties).length ≤ 1
  namesOnce : ∀ operation ∈ mutation.operations,
    operation.NamesOnce

theorem rejectDuplicates_iff
    {α : Type}
    [DecidableEq α]
    {message : α → String}
    {seen values : List α} :
    rejectDuplicates message seen values = .ok () ↔
      values.Nodup ∧ ∀ value ∈ values, value ∉ seen := by
  induction values generalizing seen with
  | nil => simp [rejectDuplicates]
  | cons value rest ih =>
      unfold rejectDuplicates
      by_cases hSeen : value ∈ seen
      · rw [if_pos hSeen]
        refine iff_of_false (fun hOk => by cases hOk) ?_
        intro hNew
        exact hNew.2 value List.mem_cons_self hSeen
      · rw [if_neg hSeen, ih, List.nodup_cons]
        simp only [List.mem_cons, not_or,
          forall_eq_or_imp]
        constructor
        · rintro ⟨hNodup, hRest⟩
          exact ⟨⟨fun hIn => (hRest value hIn).1 rfl,
            hNodup⟩, hSeen, fun v hv => (hRest v hv).2⟩
        · rintro ⟨⟨hNotIn, hNodup⟩, _, hRest⟩
          refine ⟨hNodup, fun v hv => ⟨?_, hRest v hv⟩⟩
          rintro rfl
          exact hNotIn hv

/- A loop that starts with nothing seen. -/
theorem rejectDuplicates_nil
    {α : Type}
    [DecidableEq α]
    {message : α → String}
    {values : List α}
    {u : Unit} :
    rejectDuplicates message [] values = .ok u ↔
      values.Nodup := by
  rw [rejectDuplicates_iff]
  exact and_iff_left fun _ _ => List.not_mem_nil

/- The two counters and the operations still to come. -/
theorem Mutation.validateOps_iff
    {updates sets : Nat}
    {operations : List MutationOp}
    (hUpdates : updates ≤ 1)
    (hSets : sets ≤ 1) :
    validateOps updates sets operations = .ok () ↔
      updates +
          (operations.filter
            MutationOp.isUpdateSchema).length ≤ 1 ∧
        sets +
          (operations.filter
            MutationOp.isSetProperties).length ≤ 1 ∧
        ∀ operation ∈ operations, operation.NamesOnce := by
  induction operations generalizing updates sets with
  | nil => simp [validateOps, hUpdates, hSets]
  | cons operation rest ih =>
      cases operation with
      | updateSchema schema =>
          unfold validateOps
          simp only [List.filter_cons,
            MutationOp.isUpdateSchema,
            MutationOp.isSetProperties, if_true,
            Bool.false_eq_true, if_false,
            List.length_cons, List.forall_mem_cons,
            MutationOp.NamesOnce, true_and]
          by_cases hMore : updates + 1 > 1
          · rw [if_pos hMore]
            refine iff_of_false (fun hOk => by cases hOk) ?_
            intro hBounds
            omega
          · rw [if_neg hMore, ih (by omega) hSets]
            refine and_congr ?_ Iff.rfl
            omega
      | setProperties properties =>
          unfold validateOps
          simp only [List.filter_cons,
            MutationOp.isUpdateSchema,
            MutationOp.isSetProperties, if_true,
            Bool.false_eq_true, if_false,
            List.length_cons, List.forall_mem_cons,
            MutationOp.NamesOnce, true_and]
          by_cases hMore : sets + 1 > 1
          · rw [if_pos hMore]
            refine iff_of_false (fun hOk => by cases hOk) ?_
            intro hBounds
            omega
          · rw [if_neg hMore, ih hUpdates (by omega)]
            refine and_congr Iff.rfl
              (and_congr ?_ Iff.rfl)
            omega
      | deleteFiles fileUuids =>
          unfold validateOps
          rw [bind_ok]
          simp only [rejectDuplicates_nil,
            ih hUpdates hSets, List.filter_cons,
            MutationOp.isUpdateSchema,
            MutationOp.isSetProperties,
            Bool.false_eq_true, if_false,
            List.forall_mem_cons, MutationOp.NamesOnce]
          constructor
          · rintro ⟨_, hOnce, hSchema, hProperties, hRest⟩
            exact ⟨hSchema, hProperties, hOnce, hRest⟩
          · rintro ⟨hSchema, hProperties, hOnce, hRest⟩
            exact ⟨(), hOnce, hSchema, hProperties, hRest⟩
      | removeProperties keys =>
          unfold validateOps
          rw [bind_ok]
          simp only [rejectDuplicates_nil,
            ih hUpdates hSets, List.filter_cons,
            MutationOp.isUpdateSchema,
            MutationOp.isSetProperties,
            Bool.false_eq_true, if_false,
            List.forall_mem_cons, MutationOp.NamesOnce]
          constructor
          · rintro ⟨_, hOnce, hSchema, hProperties, hRest⟩
            exact ⟨hSchema, hProperties, hOnce, hRest⟩
          · rintro ⟨hSchema, hProperties, hOnce, hRest⟩
            exact ⟨(), hOnce, hSchema, hProperties, hRest⟩
      | appendFiles files =>
          unfold validateOps
          simp only [ih hUpdates hSets, List.filter_cons,
            MutationOp.isUpdateSchema,
            MutationOp.isSetProperties,
            Bool.false_eq_true, if_false,
            List.forall_mem_cons, MutationOp.NamesOnce,
            true_and]

/- A mutation passes the first checks when well formed. -/
theorem precheck_iff
    {mutation : Mutation} :
    precheck mutation = .ok () ↔ mutation.WellFormed := by
  unfold precheck
  by_cases hEmpty : mutation.operations = []
  · rw [if_pos (by simp [hEmpty])]
    exact iff_of_false (fun hOk => by cases hOk)
      fun hForm => hForm.nonempty hEmpty
  · rw [if_neg (by simpa using hEmpty)]
    by_cases hMany :
        asU32 mutation.operations.length >
          maxOperationsPerMutation
    · rw [if_pos hMany]
      refine iff_of_false (fun hOk => by cases hOk) ?_
      intro hForm
      exact absurd hForm.count (Nat.not_le.mpr hMany)
    · rw [if_neg hMany, Mutation.validate,
        Mutation.validateOps_iff (Nat.zero_le _)
          (Nat.zero_le _), Nat.zero_add, Nat.zero_add]
      constructor
      · rintro ⟨hSchema, hProperties, hOnce⟩
        exact ⟨hEmpty, Nat.le_of_not_lt hMany, hSchema,
          hProperties, hOnce⟩
      · intro hForm
        exact ⟨hForm.oneSchema, hForm.oneProperties,
          hForm.namesOnce⟩

end Planar
