import Planar.Catalog.Commit
import Planar.Foundations.LinkedKeys
import Planar.Foundations.StampedRows
import Planar.Foundations.Succession

/-
  The history of a table: what its successful calls did, in
  order, with all fresh values filled in.

  Main declarations:
    * `FileContents`, `SchemaContents`
    * `Change`, `Entry`, `History`
    * `History.fileLog`, `History.schemaPoints`
    * `History.files`, `History.schema`,
      `History.properties`
-/

------------------------------------------------------------
-- Contents
------------------------------------------------------------

namespace Planar

/- A file as it was given to the catalog. -/
structure FileContents where
  fileUuid : Uuid
  fileFormat : Format
  filePath : String
  recordCount : Int64
  fileSizeBytes : Int64
  partitionValues : Option Json
  formatOptions : Option Json
  deriving DecidableEq

/- A schema as it was given, with its drawn values. -/
structure SchemaContents where
  schemaUuid : Uuid
  createdAt : Timestamp
  columns : List (Uuid × ColumnSpec)
  deriving DecidableEq

/- The columns of the specification, in order. -/
def SchemaContents.specs
    (s : SchemaContents) : List ColumnSpec :=
  s.columns.map Prod.snd

/- The contents of one appended file. -/
def FileSpec.contents
    (fresh : Uuid)
    (f : FileSpec) : FileContents :=
  { fileUuid := f.fileUuid.getD fresh
    fileFormat := f.fileFormat
    filePath := f.filePath
    recordCount := f.recordCount
    fileSizeBytes := f.fileSizeBytes
    partitionValues := f.partitionValues
    formatOptions := f.formatOptions }

/- The contents of the schema drawn by one operation. -/
def SchemaSpec.contents
    (draws : Draws)
    (op : Nat)
    (spec : SchemaSpec) : SchemaContents :=
  { schemaUuid := draws.schemaUuid op
    createdAt := draws.now
    columns := spec.columns.mapIdx fun i column =>
      (draws.columnUuid op i, column) }

@[simp] theorem SchemaSpec.specs_contents
    (draws : Draws)
    (op : Nat)
    (spec : SchemaSpec) :
    (spec.contents draws op).specs = spec.columns := by
  simp [SchemaSpec.contents, SchemaContents.specs]

------------------------------------------------------------
-- Changes and Entries
------------------------------------------------------------

/- One operation with its fresh values. -/
inductive Change where
  | appendFiles (files : List FileContents)
  | deleteFiles (fileUuids : List Uuid)
  | updateSchema (schema : SchemaContents)
  | setProperties (properties : TableProperties)
  | removeProperties (keys : List PropertyKey)
  deriving DecidableEq

/- The change of the operation with a number. -/
def MutationOp.change
    (draws : Draws)
    (op : Nat) : MutationOp → Change
| .appendFiles files =>
    .appendFiles (files.mapIdx fun i f =>
      f.contents (draws.fileUuid op i))
| .deleteFiles fileUuids => .deleteFiles fileUuids
| .updateSchema spec =>
    .updateSchema (spec.contents draws op)
| .setProperties properties => .setProperties properties
| .removeProperties keys => .removeProperties keys

/- The changes of operations numbered from `op`. -/
def changesFrom
    (draws : Draws) :
    Nat → List MutationOp → List Change
| _, [] => []
| op, operation :: rest =>
    operation.change draws op ::
      changesFrom draws (op + 1) rest

/- The changes of operations are numbered in order. -/
theorem mem_changesFrom
    {draws : Draws}
    {op : Nat}
    {operations : List MutationOp}
    {change : Change} :
    change ∈ changesFrom draws op operations ↔
      ∃ (i : Nat) (operation : MutationOp),
        operations[i]? = some operation ∧
          change = operation.change draws (op + i) := by
  induction operations generalizing op with
  | nil => simp [changesFrom]
  | cons first rest ih =>
      rw [changesFrom, List.mem_cons, ih]
      constructor
      · rintro (rfl | ⟨i, operation, hAt, rfl⟩)
        · exact ⟨0, first, rfl, rfl⟩
        · refine ⟨i + 1, operation, hAt, ?_⟩
          rw [Nat.add_assoc, Nat.add_comm 1 i]
      · rintro ⟨i, operation, hAt, rfl⟩
        cases i with
        | zero =>
            left
            rw [List.getElem?_cons_zero,
              Option.some.injEq] at hAt
            rw [hAt, Nat.add_zero]
        | succ i =>
            refine .inr ⟨i, operation, hAt, ?_⟩
            rw [Nat.add_assoc, Nat.add_comm 1 i]

/- The edit of the file set that a change makes. -/
def Change.edit : Change → Option (Edit FileContents)
| .appendFiles files => some (.insert files)
| .deleteFiles fileUuids =>
    some (.retire fun f => f.fileUuid ∈ fileUuids)
| _ => none

/- The schema that a change brings. -/
def Change.schema : Change → Option SchemaContents
| .updateSchema schema => some schema
| _ => none

/- The effect of a change on the properties. -/
def Change.onProperties
    (properties : TableProperties) :
    Change → TableProperties
| .setProperties new => new
| .removeProperties keys => removeKeys properties keys
| _ => properties

/-
  What one successful call did to its table, and which
  transaction it was based on.
-/
structure Entry where
  transactionId : TxnId
  parentTransactionId : Option TxnId
  timestamp : Timestamp
  changes : List Change
  deriving DecidableEq

namespace Entry

def edits (e : Entry) : List (Edit FileContents) :=
  e.changes.filterMap Change.edit

def schemas (e : Entry) : List SchemaContents :=
  e.changes.filterMap Change.schema

/- The id is byte-wise greater than the one of the base. -/
def Ascends (e : Entry) : Prop :=
  match e.parentTransactionId with
  | none => True
  | some parent => parent < e.transactionId

theorem ascends_iff
    {e : Entry} :
    e.Ascends ↔ ∀ parent ∈ e.parentTransactionId,
      parent < e.transactionId := by
  unfold Ascends
  cases e.parentTransactionId <;> simp

instance (e : Entry) : Decidable e.Ascends :=
  match hParent : e.parentTransactionId with
  | none => .isTrue (by simp [ascends_iff, hParent])
  | some parent =>
      decidable_of_iff (parent < e.transactionId)
        (by simp [ascends_iff, hParent])

end Entry

/- The entries of a table, oldest first. -/
abbrev History := List Entry

namespace History

/- The transaction ids of the history. -/
def ids (h : History) : List TxnId :=
  h.map Entry.transactionId

/- Every entry is based on the one before it. -/
def Linked (h : History) : Prop :=
  (h.map fun e =>
      (e.transactionId, e.parentTransactionId)) =
    linkedKeys h.ids

/- The log of edits to the set of files. -/
def fileLog
    (h : History) : List (TxnId × List (Edit FileContents)) :=
  h.map fun e => (e.transactionId, e.edits)

/- The schemas with the transactions that brought them. -/
def schemaPoints
    (h : History) : List (TxnId × SchemaContents) :=
  h.flatMap fun e =>
    e.schemas.map fun s => (e.transactionId, s)

/- The files obtained by replaying the history. -/
def files (h : History) : List FileContents :=
  replayLog h.fileLog

/- The last schema of the history. -/
def schema (h : History) : Option SchemaContents :=
  h.schemaPoints.getLast?.map Prod.snd

/- The properties obtained by replaying the history. -/
def properties (h : History) : TableProperties :=
  h.foldl
    (fun p e => e.changes.foldl Change.onProperties p) {}

@[simp] theorem ids_append
    (h k : History) :
    ids (h ++ k) = ids h ++ ids k := by
  simp [ids]

@[simp] theorem ids_singleton
    (e : Entry) :
    ids [e] = [e.transactionId] := rfl

/- The end of a range is the last id of the past with it. -/
theorem last_append
    {past range : History}
    {t : TxnId}
    (hLast : range.ids.getLast? = some t) :
    (ids (past ++ range)).getLast? = some t := by
  rw [ids_append, List.getLast?_append, hLast]
  rfl

@[simp] theorem fileLog_append
    (h k : History) :
    fileLog (h ++ k) = fileLog h ++ fileLog k := by
  simp [fileLog]

@[simp] theorem fileLog_singleton
    (e : Entry) :
    fileLog [e] = [(e.transactionId, e.edits)] := rfl

@[simp] theorem schemaPoints_append
    (h k : History) :
    schemaPoints (h ++ k) =
      schemaPoints h ++ schemaPoints k := by
  simp [schemaPoints]

@[simp] theorem schemaPoints_singleton
    (e : Entry) :
    schemaPoints [e] =
      e.schemas.map fun s => (e.transactionId, s) := by
  simp [schemaPoints]

/- The time of a schema is an id of the history. -/
theorem mem_ids_of_mem_schemaPoints
    {h : History}
    {p : TxnId × SchemaContents}
    (hPoint : p ∈ schemaPoints h) :
    p.1 ∈ ids h := by
  simp only [schemaPoints, List.mem_flatMap,
    List.mem_map] at hPoint
  rcases hPoint with ⟨e, hEntry, s, _, rfl⟩
  exact List.mem_map_of_mem hEntry

/- The time of a log entry is an id of the history. -/
theorem mem_ids_of_mem_fileLog
    {h : History}
    {p : TxnId × List (Edit FileContents)}
    (hEntry : p ∈ fileLog h) :
    p.1 ∈ ids h := by
  simp only [fileLog, List.mem_map] at hEntry
  rcases hEntry with ⟨e, hEntry, rfl⟩
  exact List.mem_map_of_mem hEntry

end History

end Planar
