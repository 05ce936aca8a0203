import Planar.Catalog.Tables
import Planar.Database.Soundness
import Planar.History.Slices

/-
  Runs of catalog calls, and what the database holds after
  a run.

  Main declarations:
    * `Call`, `Call.perform`, `Call.entry`
    * `World`, `World.perform`, `World.drop`
    * `World.Step`, `World.Reachable`
    * `World.history`
    * `storedProperties`
    * `Stored`, `Tracked`, `Lawful`, `World.Inv`
-/

------------------------------------------------------------
-- Calls
------------------------------------------------------------

namespace Planar

/- The arguments and draws of a `create_table` call. -/
structure CreateCall where
  catalog : SqlCatalog
  ident : TableIdent
  location : String
  schema : SchemaSpec
  properties : Option TableProperties
  draws : Draws

/- The arguments and draws of a `commit` call. -/
structure CommitCall where
  catalog : SqlCatalog
  ident : TableIdent
  base : TxnId
  mutation : Mutation
  draws : Draws

/- A writing call. -/
inductive Call where
  | create (call : CreateCall)
  | commit (call : CommitCall)

namespace Call

/- The table that a call names. -/
def ident : Call → TableIdent
| .create call => call.ident
| .commit call => call.ident

/- What the call does to its table when it succeeds. -/
def entry : Call → Entry
| .create call =>
    createEntry call.schema call.properties call.draws
| .commit call =>
    commitEntry call.base call.mutation call.draws

/- Perform the call against a database. -/
def perform
    (ext : External) :
    Call → Database → Result Unit × Database
| .create call, db =>
    createTable ext call.catalog call.ident call.location
      call.schema call.properties call.draws db
| .commit call, db =>
    let (result, db') :=
      Planar.commit ext call.catalog call.ident call.base
        call.mutation call.draws db
    (result.map fun _ => (), db')

end Call

------------------------------------------------------------
-- Runs
------------------------------------------------------------

/-
  The state of a run: the database, and the calls that have
  succeeded, in order.
-/
structure World where
  database : Database := Database.empty
  calls : List Call := []

namespace World

/- Perform one call; a failed call leaves no record. -/
def perform
    (ext : External)
    (w : World)
    (call : Call) : World :=
  match call.perform ext w.database with
  | (.ok _, db) => ⟨db, w.calls ++ [call]⟩
  | (.error _, db) => ⟨db, w.calls⟩

/- Try to drop a table; a dropped table has no history. -/
def drop (w : World) (ident : TableIdent) : World :=
  ⟨(dropTable ident w.database).2, w.calls⟩

/-
  One writing call, whether it succeeds or not: a creation,
  a commit or an attempt to drop a table.
-/
def Step (ext : External) (w w' : World) : Prop :=
  (∃ call, w' = w.perform ext call) ∨
    ∃ ident, w' = w.drop ident

/- The states after any number of calls. -/
def Reachable (ext : External) (w : World) : Prop :=
  Relation.ReflTransGen (Step ext) {} w

/- The state after calls made one after the other. -/
def run (ext : External) (calls : List Call) : World :=
  calls.foldl (perform ext) {}

/- The history of a table: its successful calls. -/
def history
    (w : World)
    (ident : TableIdent) : History :=
  (w.calls.filter fun call => call.ident = ident).map
    Call.entry

/-
  Every transaction id is byte-wise greater than the one it
  is based on.
-/
def Ordered (w : World) : Prop :=
  ∀ call ∈ w.calls, call.entry.Ascends

instance (w : World) : Decidable w.Ordered :=
  inferInstanceAs (Decidable
    (∀ call ∈ w.calls, call.entry.Ascends))

theorem run_concat
    (ext : External)
    (calls : List Call)
    (call : Call) :
    run ext (calls ++ [call]) =
      (run ext calls).perform ext call := by
  simp [run]

theorem reachable_run
    (ext : External)
    (calls : List Call) :
    Reachable ext (run ext calls) := by
  induction calls using List.reverseRecOn with
  | nil => exact .refl
  | append_singleton calls call ih =>
      exact .tail ih (.inl ⟨call, run_concat ..⟩)

end World

------------------------------------------------------------
-- Properties as They Are Stored
------------------------------------------------------------

/- What is read back of stored properties. -/
def reread
    (ext : External)
    (p : TableProperties) : TableProperties :=
  match parseTableProperties ext
      (some (ext.jsonToString p.toJson)) with
  | .ok q => q
  | .error _ => p

/-
  The properties that are stored after a history: every
  entry starts from what it reads.
-/
def storedProperties
    (ext : External)
    (h : History) : TableProperties :=
  h.foldl
    (fun p e =>
      e.changes.foldl Change.onProperties (reread ext p))
    {}

theorem reread_of_ok
    {ext : External}
    {p q : TableProperties}
    (hOk :
      parseTableProperties ext
        (some (ext.jsonToString p.toJson)) = .ok q) :
    q = reread ext p := by
  simp [reread, hOk]

------------------------------------------------------------
-- What the Database Holds
------------------------------------------------------------

/- The rows that belong to a table are its history's. -/
structure Stored
    (ext : External)
    (db : Database)
    (tableUuid : Uuid)
    (h : History) : Prop where
  transactions :
    db.transactionsOf tableUuid =
      h.map (Entry.transactionRow tableUuid)
  schemas :
    db.schemasOf tableUuid =
      schemaRows tableUuid h.schemaPoints
  columns : ∀ p ∈ h.schemaPoints,
    db.columnsOf p.2.schemaUuid = p.2.columnRows ext
  files :
    db.filesOf tableUuid = fileRowsOf ext tableUuid h

/- Its row of `tables` is that of the end of its history. -/
structure Tracked
    (ext : External)
    (db : Database)
    (row : TableRow)
    (h : History) : Prop
    extends Stored ext db row.tableUuid h where
  head : row.currentTransactionId = h.ids.getLast?
  schemaHead :
    row.currentSchemaUuid =
      h.schema.map SchemaContents.schemaUuid
  properties :
    row.properties =
      some (ext.jsonToString
        (storedProperties ext h).toJson)

/- The next schema version evolves the one before it. -/
def Succeeds
    (ext : External)
    (s s' : SchemaContents) : Prop :=
  ∀ row ∈ s.columnRows ext, Evolves ext row s'.specs

/- What the checks of the calls make true of a history. -/
structure Lawful
    (ext : External)
    (h : History) : Prop where
  linked : h.Linked
  created : ∃ first ∈ h.head?, first.schemas ≠ []
  oneSchema : ∀ e ∈ h, e.schemas.length ≤ 1
  valid : ∀ p ∈ h.schemaPoints,
    (SchemaSpec.mk p.2.specs).validate = .ok ()
  evolves :
    h.schemaPoints.IsChain fun p q =>
      Succeeds ext p.2 q.2

/- The invariant of runs. -/
structure World.Inv
    (ext : External)
    (w : World) : Prop where
  sound : w.database.Sound
  tracked : ∀ row ∈ w.database.tables,
    Tracked ext w.database row (w.history row.ident)
  lawful : ∀ row ∈ w.database.tables,
    Lawful ext (w.history row.ident)
  known : ∀ call ∈ w.calls,
    ∃ row ∈ w.database.tables, row.ident = call.ident
  stats : w.database.tableStats = []

end Planar
