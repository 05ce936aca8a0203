import Planar.Foundations.RenamedStamps
import Planar.History.OwnCalls

/-
  Calls and histories under other transaction ids.

  Main declarations:
    * `Call.rename`, `Entry.rename`
    * `World.history_rename`, `rowOf_rename`
    * `schemaRows_rename`, `fileRowsOf_rename`
    * `storedProperties_rename`
-/

------------------------------------------------------------
-- Calls with Other Ids
------------------------------------------------------------

namespace Planar

def Draws.rename
    (ρ : TxnId → TxnId)
    (draws : Draws) : Draws :=
  { draws with transactionId := ρ draws.transactionId }

/- The call with other ids for its base and its own. -/
def Call.rename (ρ : TxnId → TxnId) : Call → Call
| .create call =>
    .create { call with draws := call.draws.rename ρ }
| .commit call =>
    .commit
      { call with
        base := ρ call.base
        draws := call.draws.rename ρ }

def Entry.rename
    (ρ : TxnId → TxnId)
    (e : Entry) : Entry :=
  { e with
    transactionId := ρ e.transactionId
    parentTransactionId := e.parentTransactionId.map ρ }

/- The history with other ids. -/
def History.rename
    (ρ : TxnId → TxnId)
    (h : History) : History :=
  h.map (Entry.rename ρ)

/- No change depends on the id of its transaction. -/
theorem changesFrom_rename
    (ρ : TxnId → TxnId)
    (draws : Draws)
    (op : Nat)
    (operations : List MutationOp) :
    changesFrom (draws.rename ρ) op operations =
      changesFrom draws op operations := by
  induction operations generalizing op with
  | nil => rfl
  | cons operation rest ih =>
      rw [changesFrom, ih, changesFrom]
      cases operation <;> rfl

theorem Call.entry_rename
    (ρ : TxnId → TxnId)
    (call : Call) :
    (call.rename ρ).entry = call.entry.rename ρ := by
  cases call with
  | create call => rfl
  | commit call =>
      simp only [Call.rename, Call.entry, commitEntry,
        changesFrom_rename, Entry.rename]
      rfl

/- The history of renamed calls is the renamed history. -/
theorem map_entry_rename
    (ρ : TxnId → TxnId)
    (calls : List Call) :
    (calls.map (Call.rename ρ)).map Call.entry =
      History.rename ρ (calls.map Call.entry) := by
  rw [History.rename, List.map_map, List.map_map]
  apply List.map_congr_left
  intro call _
  exact call.entry_rename ρ

theorem World.history_rename
    {w w' : World}
    {ident : TableIdent}
    {ρ : TxnId → TxnId}
    (hCalls :
      w'.callsOn ident =
        (w.callsOn ident).map (Call.rename ρ)) :
    w'.history ident = (w.history ident).rename ρ := by
  rw [history_eq, history_eq, hCalls, map_entry_rename]

------------------------------------------------------------
-- Histories with Other Ids
------------------------------------------------------------

namespace History

variable
  (ρ : TxnId → TxnId)
  (h : History)

@[simp] theorem ids_rename :
    (h.rename ρ).ids = h.ids.map ρ := by
  simp [ids, rename, Entry.rename, Function.comp_def]

theorem fileLog_rename :
    (h.rename ρ).fileLog =
      h.fileLog.map fun entry => (ρ entry.1, entry.2) := by
  unfold fileLog rename
  rw [List.map_map, List.map_map]
  rfl

theorem schemaPoints_rename :
    (h.rename ρ).schemaPoints =
      h.schemaPoints.map fun p => (ρ p.1, p.2) := by
  unfold schemaPoints rename
  rw [List.flatMap_map, List.map_flatMap]
  congr 1
  funext e
  rw [List.map_map]
  rfl

theorem schema_rename :
    (h.rename ρ).schema = h.schema := by
  unfold schema
  rw [schemaPoints_rename, List.getLast?_map,
    Option.map_map]
  rfl

end History

variable {ρ : TxnId → TxnId}

theorem storedProperties_rename
    (ext : External)
    (ρ : TxnId → TxnId)
    (h : History) :
    storedProperties ext (h.rename ρ) =
      storedProperties ext h := by
  unfold storedProperties History.rename
  rw [List.foldl_map]
  rfl

------------------------------------------------------------
-- Rows with Other Ids
------------------------------------------------------------

def TableRow.rename
    (ρ : TxnId → TxnId)
    (row : TableRow) : TableRow :=
  { row with
    currentTransactionId :=
      row.currentTransactionId.map ρ }

/- Renamed calls on a table leave its renamed row. -/
theorem rowOf_rename
    (ext : External)
    (ρ : TxnId → TxnId)
    (calls : List Call) :
    World.rowOf ext (calls.map (Call.rename ρ)) =
      (World.rowOf ext calls).map (TableRow.rename ρ) := by
  rcases calls with _ | ⟨call | call, rest⟩
  · rfl
  · have hEntries :=
      map_entry_rename ρ (.create call :: rest)
    rw [List.map_cons, Call.rename] at hEntries ⊢
    simp only [World.rowOf, hEntries, History.schema_rename,
      History.ids_rename, List.getLast?_map,
      storedProperties_rename]
    rfl
  · rfl

def SchemaRow.rename
    (ρ : TxnId → TxnId)
    (row : SchemaRow) : SchemaRow :=
  { row with
    validFromTransactionId := ρ row.validFromTransactionId
    validToTransactionId := row.validToTransactionId.map ρ }

def FileRow.rename
    (ρ : TxnId → TxnId)
    (row : FileRow) : FileRow :=
  { row with
    addedInTransactionId := ρ row.addedInTransactionId
    removedInTransactionId :=
      row.removedInTransactionId.map ρ }

theorem versionRow_rename
    (ρ : TxnId → TxnId)
    (tableUuid : Uuid)
    (i : Nat)
    (s : Stamped SchemaContents TxnId) :
    versionRow tableUuid i (s.rename ρ) =
      (versionRow tableUuid i s).rename ρ := by
  simp only [versionRow, SchemaRow.rename, Stamped.rename]

theorem schemaRows_rename
    (ρ : TxnId → TxnId)
    (tableUuid : Uuid)
    (points : List (TxnId × SchemaContents)) :
    schemaRows tableUuid
        (points.map fun p => (ρ p.1, p.2)) =
      (schemaRows tableUuid points).map
        (SchemaRow.rename ρ) := by
  unfold schemaRows
  rw [succession_rename, mapIdx_map, map_mapIdx]
  simp only [versionRow_rename]

theorem fileRowsOf_rename
    (ext : External)
    (ρ : TxnId → TxnId)
    (tableUuid : Uuid)
    (h : History) :
    fileRowsOf ext tableUuid (h.rename ρ) =
      (fileRowsOf ext tableUuid h).map
        (FileRow.rename ρ) := by
  unfold fileRowsOf
  rw [History.fileLog_rename, stampLog_rename,
    List.map_map, List.map_map]
  rfl

end Planar
