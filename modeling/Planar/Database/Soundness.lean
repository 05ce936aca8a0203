import Mathlib.Data.List.Nodup
import Planar.Database.Statements

/-
  The constraints of the database hold in every state that
  checked statements lead to.

  Main declarations:
    * `Database.referenceList`, `Database.Sound`
    * `Database.Sound.effect`, `Database.Sound.exec`
    * uniqueness of rows, such as
      `Database.Sound.table_unique`
-/

------------------------------------------------------------
-- Sound Databases
------------------------------------------------------------

namespace Planar

namespace Database

/- Everything that some row refers to. -/
def referenceList (db : Database) : List Key :=
  db.transactions.flatMap TransactionRow.references ++
    (db.schemas.flatMap SchemaRow.references ++
      (db.columns.flatMap ColumnRow.references ++
        db.files.flatMap FileRow.references))

/- Keys are unique and references lead to rows. -/
structure Sound (db : Database) : Prop where
  keys : db.keyList.Nodup
  references : ∀ k ∈ db.referenceList, k ∈ db.keyList

theorem sound_empty : Sound empty where
  keys := List.nodup_nil
  references := by
    intro k hk
    simp [empty, referenceList] at hk

end Database

/- Marking a file adds at most a reference to the mark. -/
theorem FileRow.mem_references_markRemoved
    {transactionId : TxnId}
    {tableUuid : Uuid}
    {fileUuids : List Uuid}
    {row : FileRow}
    {k : Key}
    (hKey :
      k ∈ (row.markRemoved transactionId tableUuid
        fileUuids).references) :
    k ∈ row.references ∨
      (k = .transaction transactionId ∧
        row.isLiveIn tableUuid fileUuids = true) := by
  unfold markRemoved at hKey
  split at hKey
  · rename_i hLive
    simp only [references, Option.toList_some,
      List.map_cons, List.map_nil, List.mem_cons,
      List.not_mem_nil, or_false] at hKey
    rcases hKey with rfl | rfl | rfl
    · exact .inl (by simp [references])
    · exact .inl (by simp [references])
    · exact .inr ⟨rfl, hLive⟩
  · exact .inl hKey

/- Closing a schema adds at most a reference to the end. -/
theorem SchemaRow.mem_references_close
    {transactionId : TxnId}
    {schemaUuid : Uuid}
    {row : SchemaRow}
    {k : Key}
    (hKey :
      k ∈ (row.close transactionId schemaUuid).references) :
    k ∈ row.references ∨
      (k = .transaction transactionId ∧
        row.schemaUuid = schemaUuid) := by
  unfold close at hKey
  split at hKey
  · rename_i hEq
    simp only [references, Option.toList_some,
      List.map_cons, List.map_nil, List.mem_cons,
      List.not_mem_nil, or_false] at hKey
    rcases hKey with rfl | rfl | rfl
    · exact .inl (by simp [references])
    · exact .inl (by simp [references])
    · exact .inr ⟨rfl, hEq⟩
  · exact .inl hKey

namespace Database

/- A statement adds only the references that it checks. -/
theorem mem_referenceList_effect
    {db : Database}
    {s : Statement}
    {k : Key}
    (hKey : k ∈ (db.effect s).referenceList) :
    k ∈ db.referenceList ∨ k ∈ s.references db := by
  cases s with
  | insertTable row => exact .inl hKey
  | insertTransaction row =>
      simp only [effect, referenceList, Statement.references,
        List.flatMap_append, List.flatMap_singleton,
        List.mem_append] at hKey ⊢
      tauto
  | insertSchema row =>
      simp only [effect, referenceList, Statement.references,
        List.flatMap_append, List.flatMap_singleton,
        List.mem_append] at hKey ⊢
      tauto
  | insertColumns rows =>
      simp only [effect, referenceList, Statement.references,
        List.flatMap_append, List.mem_append] at hKey ⊢
      tauto
  | insertFiles rows =>
      simp only [effect, referenceList, Statement.references,
        List.flatMap_append, List.mem_append] at hKey ⊢
      tauto
  | markFilesRemoved transactionId tableUuid fileUuids =>
      simp only [effect, referenceList, List.flatMap_map,
        List.mem_append] at hKey ⊢
      rcases hKey with hKey | hKey | hKey | hKey
      · exact .inl (.inl hKey)
      · exact .inl (.inr (.inl hKey))
      · exact .inl (.inr (.inr (.inl hKey)))
      · rcases List.mem_flatMap.mp hKey with
          ⟨row, hRow, hMarked⟩
        rcases FileRow.mem_references_markRemoved hMarked
          with hOld | ⟨rfl, hLive⟩
        · exact .inl (.inr (.inr (.inr
            (List.mem_flatMap.mpr ⟨row, hRow, hOld⟩))))
        · have hAny :
              db.files.any
                (FileRow.isLiveIn tableUuid fileUuids) =
                  true :=
            List.any_eq_true.mpr ⟨row, hRow, hLive⟩
          exact .inr (by
            simp [Statement.references, hAny])
  | closeSchema transactionId schemaUuid =>
      simp only [effect, referenceList, List.flatMap_map,
        List.mem_append] at hKey ⊢
      rcases hKey with hKey | hKey | hKey | hKey
      · exact .inl (.inl hKey)
      · rcases List.mem_flatMap.mp hKey with
          ⟨row, hRow, hClosed⟩
        rcases SchemaRow.mem_references_close hClosed
          with hOld | ⟨rfl, hEq⟩
        · exact .inl (.inr (.inl
            (List.mem_flatMap.mpr ⟨row, hRow, hOld⟩)))
        · have hAny :
              db.schemas.any (fun row =>
                row.schemaUuid = schemaUuid) = true :=
            List.any_eq_true.mpr
              ⟨row, hRow, by simpa using hEq⟩
          exact .inr (by
            simp [Statement.references, hAny])
      · exact .inl (.inr (.inr (.inl hKey)))
      · exact .inl (.inr (.inr (.inr hKey)))
  | initTableHead schemaUuid transactionId tableUuid =>
      exact .inl hKey
  | advanceTableHead transactionId schemaUuid properties
      tableUuid =>
      exact .inl hKey

/- A checked statement keeps the database sound. -/
theorem Sound.effect
    {db : Database}
    {s : Statement}
    (hSound : Sound db)
    (hCheck : db.check s = .ok ()) :
    Sound (db.effect s) where
  keys := nodup_keyList_effect hSound.keys hCheck
  references := by
    intro k hk
    rw [(keyList_effect db s).mem_iff, List.mem_append]
    left
    rcases mem_referenceList_effect hk with hOld | hNew
    · exact hSound.references k hOld
    · exact (check_ok.mp hCheck).2.2 k hNew

/- A transaction keeps the database sound. -/
theorem Sound.exec
    {ℓ α : Type}
    {p : Tx Database Statement ℓ Fault α}
    {db db' : Database}
    {a : α}
    (hSound : Sound db)
    (hExec : p.exec sqlStore db = .ok (a, db')) :
    Sound db' := by
  induction p generalizing db with
  | done r =>
      cases r with
      | ok b =>
          rcases Prod.mk.inj (Except.ok.inj hExec) with
            ⟨_, rfl⟩
          exact hSound
      | error e => cases hExec
  | ask lock next ih => exact ih db hSound hExec
  | stage s next ih =>
      simp only [Tx.exec] at hExec
      split at hExec
      · rename_i hCheck
        exact ih (hSound.effect hCheck) hExec
      · cases hExec

/- The keys after a list of statements. -/
theorem keyList_apply
    (db : Database)
    (statements : List Statement) :
    (sqlStore.apply db statements).keyList.Perm
      (db.keyList ++ statements.flatMap Statement.keys) := by
  induction statements generalizing db with
  | nil => simp
  | cons s rest ih =>
      rw [Store.apply_cons, List.flatMap_cons,
        ← List.append_assoc]
      exact (ih _).trans
        ((keyList_effect db s).append_right _)

/- What statements bring to a sound database was not there. -/
theorem Sound.fresh
    {db : Database}
    {statements : List Statement}
    (hSound : Sound (sqlStore.apply db statements)) :
    ∀ k ∈ statements.flatMap Statement.keys,
      k ∉ db.keyList := by
  have hNodup :=
    (keyList_apply db statements).nodup_iff.mp hSound.keys
  intro k hNew hOld
  exact (List.nodup_append.mp hNodup).2.2 k hOld k hNew rfl

------------------------------------------------------------
-- Uniqueness of Rows
------------------------------------------------------------

/- Rows that share a key of a list without duplicates agree. -/
theorem eq_of_mem_keys
    {α : Type}
    {rows : List α}
    {keys : α → List Key}
    {a b : α}
    {k : Key}
    (hNodup : (rows.flatMap keys).Nodup)
    (ha : a ∈ rows)
    (hb : b ∈ rows)
    (hKeyA : k ∈ keys a)
    (hKeyB : k ∈ keys b) :
    a = b := by
  induction rows with
  | nil => cases ha
  | cons first rest ih =>
      rw [List.flatMap_cons, List.nodup_append] at hNodup
      rcases hNodup with ⟨_, hRest, hDisjoint⟩
      have hApart :
          ∀ c ∈ rest, k ∈ keys first → k ∉ keys c := by
        intro c hc hFirst hOther
        exact hDisjoint k hFirst k
          (List.mem_flatMap.mpr ⟨c, hc, hOther⟩) rfl
      rcases List.mem_cons.mp ha with rfl | haRest
      · rcases List.mem_cons.mp hb with rfl | hbRest
        · rfl
        · exact absurd hKeyB (hApart b hbRest hKeyA)
      · rcases List.mem_cons.mp hb with rfl | hbRest
        · exact absurd hKeyA (hApart a haRest hKeyB)
        · exact ih hRest haRest hbRest

/- Rows whose keys have no duplicates are distinct. -/
theorem nodup_of_flatMap
    {α : Type}
    {rows : List α}
    {keys : α → List Key}
    (hKeys : ∀ r, keys r ≠ [])
    (hNodup : (rows.flatMap keys).Nodup) :
    rows.Nodup := by
  induction rows with
  | nil => exact List.nodup_nil
  | cons first rest ih =>
      rw [List.flatMap_cons, List.nodup_append] at hNodup
      rcases hNodup with ⟨_, hRest, hDisjoint⟩
      rw [List.nodup_cons]
      refine ⟨?_, ih hRest⟩
      intro hMember
      rcases List.exists_mem_of_ne_nil _ (hKeys first) with
        ⟨k, hk⟩
      exact hDisjoint k hk k
        (List.mem_flatMap.mpr ⟨first, hMember, hk⟩) rfl

variable {db : Database}

theorem Sound.table_unique
    (hSound : Sound db)
    {a b : TableRow}
    (ha : a ∈ db.tables)
    (hb : b ∈ db.tables)
    (hEq : a.tableUuid = b.tableUuid) :
    a = b := by
  have hNodup := (List.nodup_append.mp hSound.keys).1
  apply eq_of_mem_keys hNodup ha hb
    (List.mem_cons_self : Key.table a.tableUuid ∈ a.keys)
  simp [TableRow.keys, hEq]

theorem Sound.ident_unique
    (hSound : Sound db)
    {a b : TableRow}
    (ha : a ∈ db.tables)
    (hb : b ∈ db.tables)
    (hEq : a.ident = b.ident) :
    a = b := by
  have hNodup := (List.nodup_append.mp hSound.keys).1
  apply eq_of_mem_keys (k := .tableIdent a.ident)
    hNodup ha hb
  · simp [TableRow.keys]
  · simp [TableRow.keys, hEq]

theorem Sound.schema_unique
    (hSound : Sound db)
    {a b : SchemaRow}
    (ha : a ∈ db.schemas)
    (hb : b ∈ db.schemas)
    (hEq : a.schemaUuid = b.schemaUuid) :
    a = b := by
  have hNodup := hSound.keys
  simp only [keyList, List.nodup_append] at hNodup
  apply eq_of_mem_keys (k := .schema a.schemaUuid)
    hNodup.2.1.2.1.1 ha hb
  · simp [SchemaRow.keys]
  · simp [SchemaRow.keys, hEq]

theorem nodup_of_single_keys
    {α κ : Type}
    {rows : List α}
    {key : α → κ}
    (wrap : κ → Key)
    (hNodup :
      (rows.flatMap fun r => [wrap (key r)]).Nodup) :
    (rows.map key).Nodup := by
  rw [← List.map_eq_flatMap] at hNodup
  have hMap :
      ((rows.map key).map wrap).Nodup := by
    rw [List.map_map]
    exact hNodup
  exact List.Nodup.of_map wrap hMap

theorem Sound.transactionIds
    (hSound : Sound db) :
    (db.transactions.map
      TransactionRow.transactionId).Nodup := by
  have hNodup := hSound.keys
  simp only [keyList, List.nodup_append] at hNodup
  exact nodup_of_single_keys Key.transaction hNodup.2.1.1

theorem Sound.schemaUuids
    (hSound : Sound db) :
    (db.schemas.map SchemaRow.schemaUuid).Nodup := by
  have hNodup := hSound.keys
  simp only [keyList, List.nodup_append] at hNodup
  exact nodup_of_single_keys Key.schema hNodup.2.1.2.1.1

theorem Sound.fileUuids
    (hSound : Sound db) :
    (db.files.map FileRow.fileUuid).Nodup := by
  have hNodup := hSound.keys
  simp only [keyList, List.nodup_append] at hNodup
  exact nodup_of_single_keys Key.file
    hNodup.2.1.2.1.2.1.2.1

/- The columns of one schema have distinct names. -/
theorem Sound.columnNames
    (hSound : Sound db)
    (schemaUuid : Uuid) :
    ((db.columnsOf schemaUuid).map
      ColumnRow.columnName).Nodup := by
  have hNodup := hSound.keys
  simp only [keyList, List.nodup_append] at hNodup
  have hColumns := hNodup.2.1.2.1.2.1.1
  apply List.Nodup.map_on
  · intro a ha b hb hName
    simp only [columnsOf, List.mem_filter,
      decide_eq_true_eq] at ha hb
    apply eq_of_mem_keys
      (k := .columnName a.schemaUuid a.columnName)
      hColumns ha.1 hb.1
    · simp [ColumnRow.keys]
    · simp [ColumnRow.keys, ha.2, hb.2, hName]
  · apply List.Nodup.filter
    exact nodup_of_flatMap
      (fun r => by simp [ColumnRow.keys]) hColumns

/- A schema row is found by its UUID. -/
theorem Sound.find?_schema
    {row : SchemaRow}
    (hSound : Sound db)
    (hRow : row ∈ db.schemas) :
    (db.schemas.find? fun other =>
      other.schemaUuid = row.schemaUuid) = some row := by
  cases hFind : db.schemas.find? fun other =>
      other.schemaUuid = row.schemaUuid with
  | none =>
      have hNone := List.find?_eq_none.mp hFind row hRow
      simp at hNone
  | some other =>
      have hSame : other.schemaUuid = row.schemaUuid := by
        simpa using List.find?_some hFind
      rw [hSound.schema_unique
        (List.mem_of_find?_eq_some hFind) hRow hSame]

/- A named row of `tables` is found by its name. -/
theorem Sound.findTable
    (hSound : Sound db)
    {row : TableRow}
    (hRow : row ∈ db.tables) :
    db.findTable row.ident = some row := by
  unfold Database.findTable
  cases hFind : db.tables.find? fun other =>
      other.ident = row.ident with
  | none =>
      have hNone := List.find?_eq_none.mp hFind row hRow
      simp at hNone
  | some other =>
      have hIdent : other.ident = row.ident := by
        simpa using List.find?_some hFind
      rw [hSound.ident_unique
        (List.mem_of_find?_eq_some hFind) hRow hIdent]

end Database

end Planar
