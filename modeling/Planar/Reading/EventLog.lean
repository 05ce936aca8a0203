import Planar.Reading.Snapshot

/-
  What a successful listing of events has seen, and that it
  records the entries of the range.

  Main declarations:
    * `EventSeen`, `LogSeen`
    * `runs_listTransactionEvents`,
      `exec_listTransactionEvents`
-/

------------------------------------------------------------
-- What One Event Has Seen
------------------------------------------------------------

namespace Planar

/- The schema rows that a transaction made valid. -/
def Database.newSchemas
    (db : Database)
    (tableUuid : Uuid)
    (t : TxnId) : List SchemaRow :=
  (db.schemasOf tableUuid).filter fun row =>
    row.validFromTransactionId = t

/- The changes of one kind for the files of a query. -/
def changesOf
    (t : TxnId)
    (kind : TxnFileChangeKind)
    (files : List File) : List TxnFileChange :=
  files.map fun file => ⟨t, kind, file⟩

theorem kinds_changesOf
    (t : TxnId)
    (kind : TxnFileChangeKind)
    (files : List File) :
    (changesOf t kind files).map TxnFileChange.kind =
      List.replicate files.length kind := by
  rw [changesOf, List.map_map]
  exact List.map_const' ..

/- The files of one kind of change, read in some database. -/
structure ChangesSeen
    (ext : External)
    (tableUuid : Uuid)
    (Seen : Database → Prop)
    (t : TxnId)
    (kind : TxnFileChangeKind)
    (files : List File) : Prop where
  seen : ∃ db, Seen db ∧
    FilesOf ext (db.changedFiles tableUuid kind t) files

/- The schema change of a transaction, likewise. -/
inductive SchemaChangeSeen
    (ext : External)
    (kind : DbKind)
    (tableUuid : Uuid)
    (Seen : Database → Prop)
    (t : TxnId) : Option TxnSchemaChange → Prop
  | absent {db : Database}
      (hSeen : Seen db)
      (hNone : db.newSchemas tableUuid t = []) :
      SchemaChangeSeen ext kind tableUuid Seen t none
  | brought {rowDb columnDb : Database} {row : SchemaRow}
      {columns : List Column} {schema : Schema}
      (hRowSeen : Seen rowDb)
      (hColumnSeen : Seen columnDb)
      (hRow : rowDb.newSchemas tableUuid t = [row])
      (hLimit :
        (selectColumns row.schemaUuid columnDb).length ≤
          maxColumnsPerSchema)
      (hColumns :
        decodeColumns ext
            (selectColumns row.schemaUuid columnDb) =
          .ok columns)
      (hSchema :
        decodeSchema kind row columns = .ok schema) :
      SchemaChangeSeen ext kind tableUuid Seen t
        (some ⟨row.validFromTransactionId, schema⟩)

/- The event of one transaction. -/
structure EventSeen
    (ext : External)
    (kind : DbKind)
    (tableUuid : Uuid)
    (Seen : Database → Prop)
    (t : TxnId)
    (event : TxnEvent) : Prop where
  transactionId : event.transactionId = t
  fileChanges : ∃ added removed,
    ChangesSeen ext tableUuid Seen t .added added ∧
    ChangesSeen ext tableUuid Seen t .removed removed ∧
    event.fileChanges =
      changesOf t .added added ++ changesOf t .removed removed
  schemaChange :
    SchemaChangeSeen ext kind tableUuid Seen t
      event.schemaChange

/- Events that were seen are those of their ids. -/
theorem transactionIds_of_seen
    {ext : External}
    {kind : DbKind}
    {tableUuid : Uuid}
    {Seen : Database → Prop}
    {ids : List TxnId}
    {events : List TxnEvent}
    (hSeen :
      List.Forall₂ (EventSeen ext kind tableUuid Seen) ids
        events) :
    events.map TxnEvent.transactionId = ids := by
  induction hSeen with
  | nil => rfl
  | cons hEvent _ ih =>
      rw [List.map_cons, hEvent.transactionId, ih]

section Mono

variable
  {ext : External}
  {kind : DbKind}
  {tableUuid : Uuid}
  {Seen Seen' : Database → Prop}
  {t : TxnId}

theorem ChangesSeen.mono
    {changeKind : TxnFileChangeKind}
    {files : List File}
    (hSeen :
      ChangesSeen ext tableUuid Seen t changeKind files)
    (hMore : ∀ db, Seen db → Seen' db) :
    ChangesSeen ext tableUuid Seen' t changeKind files := by
  rcases hSeen.seen with ⟨db, hDb, hDecoded⟩
  exact ⟨db, hMore db hDb, hDecoded⟩

theorem SchemaChangeSeen.mono
    {change : Option TxnSchemaChange}
    (hSeen :
      SchemaChangeSeen ext kind tableUuid Seen t change)
    (hMore : ∀ db, Seen db → Seen' db) :
    SchemaChangeSeen ext kind tableUuid Seen' t change := by
  cases hSeen with
  | absent hDb hNone => exact .absent (hMore _ hDb) hNone
  | brought hRowDb hColumnDb hRow hLimit hColumns hSchema =>
      exact .brought (hMore _ hRowDb) (hMore _ hColumnDb)
        hRow hLimit hColumns hSchema

theorem EventSeen.mono
    {event : TxnEvent}
    (hSeen : EventSeen ext kind tableUuid Seen t event)
    (hMore : ∀ db, Seen db → Seen' db) :
    EventSeen ext kind tableUuid Seen' t event := by
  constructor
  case transactionId => exact hSeen.transactionId
  case fileChanges =>
    rcases hSeen.fileChanges with
      ⟨added, removed, hAdded, hRemoved, hChanges⟩
    exact ⟨added, removed, hAdded.mono hMore,
      hRemoved.mono hMore, hChanges⟩
  case schemaChange =>
    exact hSeen.schemaChange.mono hMore

end Mono

------------------------------------------------------------
-- Runs of One Event
------------------------------------------------------------

/- The states from one world to another, as they are seen. -/
def SeenBetween
    {ω : Type}
    (Step : ω → ω → Prop)
    (see : ω → Database)
    (w w' : ω)
    (db : Database) : Prop :=
  ∃ x, Relation.ReflTransGen Step w x ∧
    Relation.ReflTransGen Step x w' ∧ db = see x

section Runs

variable
  {ω : Type}
  {Step : ω → ω → Prop}
  {see : ω → Database}
  {w w' : ω}
  {ext : External}
  {kind : DbKind}
  {tableUuid : Uuid}
  {t : TxnId}

theorem SeenBetween.wider
    {w₀ w₁ : ω}
    {db : Database}
    (hSeen : SeenBetween Step see w w' db)
    (hBefore : Relation.ReflTransGen Step w₀ w)
    (hAfter : Relation.ReflTransGen Step w' w₁) :
    SeenBetween Step see w₀ w₁ db := by
  rcases hSeen with ⟨x, hx, hx', rfl⟩
  exact ⟨x, hBefore.trans hx, hx'.trans hAfter, rfl⟩

/-
  What the loop over the fetched rows returns: the changes
  of all of them, as long as their number stays within the
  limit.  By induction on the rows.
-/
theorem fileChanges_iff
    {changeKind : TxnFileChangeKind}
    {count count' : Nat}
    {rows : List FileRow}
    {changes : List TxnFileChange}
    (hStamps :
      ∀ row ∈ rows, changeKind.stampOf row = .ok t) :
    fileChanges ext changeKind count rows =
        .ok (changes, count') ↔
      ∃ files,
        decodeFiles ext rows = .ok files ∧
        changes = changesOf t changeKind files ∧
        count' = count + rows.length ∧
        (rows ≠ [] → count' ≤ maxFilesPerQuery) := by
  induction rows generalizing count changes with
  | nil =>
      constructor
      · intro hOk
        rcases Prod.mk.inj (Except.ok.inj hOk) with
          ⟨rfl, rfl⟩
        exact ⟨[], rfl, rfl, rfl, by simp⟩
      · rintro ⟨files, hFiles, rfl, rfl, _⟩
        rw [← Except.ok.inj hFiles]
        rfl
  | cons row rest ih =>
      have hStamp := hStamps row List.mem_cons_self
      have hNext := @ih (count + 1) changes.tail
        (fun r hr => hStamps r (List.mem_cons_of_mem _ hr))
      unfold fileChanges
      by_cases hFull : count + 1 > maxFilesPerQuery
      · rw [if_pos hFull]
        refine iff_of_false (fun hOk => by cases hOk) ?_
        rintro ⟨files, _, _, rfl, hLimit⟩
        have hFew := hLimit (List.cons_ne_nil row rest)
        rw [List.length_cons] at hFew
        omega
      rw [if_neg hFull, bind_ok]
      constructor
      · rintro ⟨stamp, hStamp', hRest⟩
        rw [hStamp, Except.ok.injEq] at hStamp'
        subst hStamp'
        rcases bind_ok.mp hRest with ⟨file, hFile, hRest⟩
        rcases bind_ok.mp hRest with
          ⟨⟨changes', count₁⟩, hChanges, hCons⟩
        rcases Prod.mk.inj (Except.ok.inj hCons) with
          ⟨rfl, rfl⟩
        rcases hNext.mp hChanges with
          ⟨files, hFiles, hSame, rfl, hLimit⟩
        rw [List.tail_cons] at hSame
        refine ⟨file :: files,
          bind_ok.mpr ⟨file, hFile,
            bind_ok.mpr ⟨files, hFiles, rfl⟩⟩,
          hSame ▸ rfl, ?_, ?_⟩
        · rw [List.length_cons]
          omega
        · intro _
          by_cases hNone : rest = []
          · rw [hNone, List.length_nil]
            omega
          · exact hLimit hNone
      · rintro ⟨decoded, hDecoded, rfl, rfl, hLimit⟩
        rcases bind_ok.mp hDecoded with ⟨file, hFile, hRest⟩
        rcases bind_ok.mp hRest with ⟨files, hFiles, hCons⟩
        cases hCons
        have hCount :
            count + (row :: rest).length =
              count + 1 + rest.length := by
          rw [List.length_cons]
          omega
        exact ⟨t, hStamp, bind_ok.mpr ⟨file, hFile,
          bind_ok.mpr ⟨_, hNext.mpr
            ⟨files, hFiles, rfl, hCount,
              fun _ => hLimit (List.cons_ne_nil row rest)⟩,
            rfl⟩⟩⟩

/- The rows of a successful loop are within the limit. -/
theorem length_of_fileChanges
    {changeKind : TxnFileChangeKind}
    {count count' : Nat}
    {rows : List FileRow}
    {changes : List TxnFileChange}
    (hStamps :
      ∀ row ∈ rows, changeKind.stampOf row = .ok t)
    (hOk :
      fileChanges ext changeKind count rows =
        .ok (changes, count')) :
    rows.length ≤ maxFilesPerQuery := by
  rcases (fileChanges_iff hStamps).mp hOk with
    ⟨_, _, _, hCount, hLimit⟩
  by_cases hNone : rows = []
  · rw [hNone]
    exact Nat.zero_le _
  · have hFew := hLimit hNone
    omega

/- Rows in another order have the same changes. -/
theorem fileChanges_perm
    {changeKind : TxnFileChangeKind}
    {count count' : Nat}
    {rows rows' : List FileRow}
    {changes : List TxnFileChange}
    (hStamps :
      ∀ row ∈ rows, changeKind.stampOf row = .ok t)
    (hPerm : rows'.Perm rows)
    (hOk :
      fileChanges ext changeKind count rows =
        .ok (changes, count')) :
    ∃ changes',
      fileChanges ext changeKind count rows' =
          .ok (changes', count') ∧
        changes'.map TxnFileChange.kind =
          changes.map TxnFileChange.kind ∧
        changes'.Perm changes := by
  rcases (fileChanges_iff hStamps).mp hOk with
    ⟨files, hFiles, rfl, hCount, hLimit⟩
  rcases filesOf_perm hPerm.symm hFiles with
    ⟨files', hFiles', hSame⟩
  refine ⟨_, (fileChanges_iff fun row hRow =>
      hStamps row (hPerm.mem_iff.mp hRow)).mpr
    ⟨files', hFiles', rfl, hPerm.length_eq ▸ hCount, ?_⟩,
    ?_, hSame.symm.map _⟩
  · intro hSome
    apply hLimit
    rintro rfl
    exact hSome hPerm.eq_nil
  · rw [kinds_changesOf, kinds_changesOf, hSame.length_eq]

/- The rows of a query carry the stamp they were asked by. -/
theorem stampOf_selectChanged
    (changeKind : TxnFileChangeKind)
    (db : Database) :
    ∀ row ∈ selectChanged ext changeKind tableUuid t db,
      changeKind.stampOf row = .ok t := by
  intro row hRow
  have hStamp := (List.mem_filter.mp
    (RowOrder.mem_arrange.mp (List.mem_of_mem_take hRow))).2
  cases changeKind with
  | added =>
      rw [TxnFileChangeKind.stampOf,
        of_decide_eq_true hStamp]
  | removed =>
      have hRemoved :
          row.removedInTransactionId = some t :=
        of_decide_eq_true hStamp
      simp only [TxnFileChangeKind.stampOf, hRemoved]

theorem runs_changes
    {changeKind : TxnFileChangeKind}
    {count : Nat}
    {β : Type}
    {next : List TxnFileChange × Nat → CatalogQuery β}
    {b : β}
    (hRuns :
      Query.Runs Step see w
        (do
          let rows ← Query.fetch
            (selectChanged ext changeKind tableUuid t)
          let r ← Query.lift
            (fileChanges ext changeKind count rows)
          next r) w' (.ok b)) :
    ∃ w₁ files count',
      Relation.ReflTransGen Step w w₁ ∧
      ChangesSeen ext tableUuid
        (SeenBetween Step see w w₁) t changeKind files ∧
      Query.Runs Step see w₁
        (next (changesOf t changeKind files, count')) w'
        (.ok b) := by
  rcases Query.runs_fetch_bind hRuns with
    ⟨w₁, hWait, hRest⟩
  rcases Query.runs_bind_ok hRest with
    ⟨w₂, ⟨changes, count'⟩, hLift, hNext⟩
  rcases Query.runs_lift_ok hLift with ⟨hChanges, hEnd⟩
  rcases (fileChanges_iff
      (stampOf_selectChanged changeKind (see w₁))).mp
    hChanges with ⟨files, hFiles, rfl, hCount, hLimit⟩
  have hFew : ((see w₁).changedFiles tableUuid changeKind
      t).length ≤ maxFilesPerQuery := by
    by_contra hMany
    have hLong : maxFilesPerQuery < (selectChanged ext
        changeKind tableUuid t (see w₁)).length :=
      length_selectChanged.mpr (not_le.mp hMany)
    have hFew := hLimit (fun hNone => by
      rw [hNone] at hLong
      cases hLong)
    omega
  rw [selectChanged_eq hFew] at hFiles
  refine ⟨w₂, files, count', hWait.trans hEnd, ?_, hNext⟩
  exact ⟨_, ⟨w₁, hWait, hEnd, rfl⟩,
    filesOf_perm (RowOrder.perm ..) hFiles⟩

theorem runs_schemaChange
    {count count' : Nat}
    {rowDb : Database}
    {change : Option TxnSchemaChange}
    (hRuns :
      Query.Runs Step see w
        (schemaChange ext kind count
          (selectSchemas tableUuid t rowDb)) w'
        (.ok (change, count'))) :
    SchemaChangeSeen ext kind tableUuid
      (fun db => db = rowDb ∨ SeenBetween Step see w w' db)
      t change := by
  have hTake :
      selectSchemas tableUuid t rowDb =
        (rowDb.newSchemas tableUuid t).take 2 := rfl
  match hRows : selectSchemas tableUuid t rowDb with
  | [] =>
      rw [hRows] at hRuns
      have hResult := (Query.runs_pure_ok hRuns).1
      rw [(Prod.mk.inj hResult).1]
      refine .absent (.inl rfl) ?_
      rw [hTake, List.take_eq_nil_iff] at hRows
      exact hRows.resolve_left (by simp)
  | [row] =>
      rw [hRows, schemaChange] at hRuns
      split at hRuns
      · cases Query.not_runs_fail_ok hRuns
      rcases Query.runs_bind_ok hRuns with
        ⟨w₁, columns, hColumns, hRest⟩
      rcases runs_fetchColumns hColumns with
        ⟨w₂, hBefore, hAfter, hLimit, hDecoded⟩
      rcases Query.runs_bind_ok hRest with
        ⟨w₃, schema, hLift, hPure⟩
      rcases Query.runs_lift_ok hLift with
        ⟨hSchema, hWait⟩
      rcases Query.runs_pure_ok hPure with ⟨hResult, hEnd⟩
      rw [(Prod.mk.inj hResult).1]
      have hOne : rowDb.newSchemas tableUuid t = [row] := by
        rw [hTake] at hRows
        match hAll : rowDb.newSchemas tableUuid t with
        | [] => simp [hAll] at hRows
        | [only] => simpa [hAll] using hRows
        | _ :: _ :: _ => simp [hAll] at hRows
      exact .brought (.inl rfl)
        (.inr ⟨w₂, hBefore,
          hAfter.trans (hWait.trans hEnd), rfl⟩)
        hOne hLimit hDecoded hSchema
  | _ :: _ :: _ =>
      rw [hRows, schemaChange] at hRuns
      · cases Query.not_runs_fail_ok hRuns
      · simp
      · simp

theorem runs_readEvent
    {counts counts' : EventCounts}
    {event : TxnEvent}
    (hRuns :
      Query.Runs Step see w
        (readEvent ext kind tableUuid counts t) w'
        (.ok (event, counts'))) :
    EventSeen ext kind tableUuid
      (SeenBetween Step see w w') t event := by
  rcases runs_changes hRuns with
    ⟨w₁, added, count₁, h₁, hAdded, hRest₁⟩
  rcases runs_changes hRest₁ with
    ⟨w₂, removed, count₂, h₂, hRemoved, hRest₂⟩
  rcases Query.runs_fetch_bind hRest₂ with
    ⟨w₃, h₃, hRest₃⟩
  rcases Query.runs_bind_ok hRest₃ with
    ⟨w₄, ⟨change, count₃⟩, hChange, hPure⟩
  have hSchema := runs_schemaChange hChange
  have h₄ := hChange.steps
  rcases Query.runs_pure_ok hPure with ⟨hResult, h₅⟩
  rw [(Prod.mk.inj hResult).1]
  constructor
  case transactionId => rfl
  case fileChanges =>
    refine ⟨added, removed, ?_, ?_, rfl⟩
    · exact hAdded.mono fun db hDb => hDb.wider .refl
        (h₂.trans (h₃.trans (h₄.trans h₅)))
    · exact hRemoved.mono fun db hDb => hDb.wider h₁
        (h₃.trans (h₄.trans h₅))
  case schemaChange =>
    apply hSchema.mono
    rintro db (rfl | hDb)
    · exact ⟨w₃, h₁.trans (h₂.trans h₃), h₄.trans h₅, rfl⟩
    · exact hDb.wider (h₁.trans (h₂.trans h₃)) h₅

theorem runs_readEvents
    {counts : EventCounts}
    {path : List TxnId}
    {events : List TxnEvent}
    (hRuns :
      Query.Runs Step see w
        (readEvents ext kind tableUuid counts path) w'
        (.ok events)) :
    List.Forall₂
      (EventSeen ext kind tableUuid
        (SeenBetween Step see w w')) path events := by
  induction path generalizing w w' counts events with
  | nil =>
      rw [(Query.runs_pure_ok hRuns).1]
      exact .nil
  | cons t rest ih =>
      rcases Query.runs_bind_ok hRuns with
        ⟨w₁, ⟨event, counts'⟩, hEvent, hRest⟩
      rcases Query.runs_bind_ok hRest with
        ⟨w₂, events', hEvents, hPure⟩
      rcases Query.runs_pure_ok hPure with ⟨rfl, hEnd⟩
      refine .cons ?_ ?_
      · exact (runs_readEvent hEvent).mono fun db hDb =>
          hDb.wider .refl (hEvents.steps.trans hEnd)
      · apply (ih hEvents).imp
        intro t event hSeen
        exact hSeen.mono fun db hDb =>
          hDb.wider hEvent.steps hEnd

end Runs

------------------------------------------------------------
-- Runs of a Listing
------------------------------------------------------------

/-
  A successful listing: the range was found in the history
  at some world, and the events were seen after it.
-/
structure LogSeen
    (ext : External)
    (catalog : SqlCatalog)
    (ident : TableIdent)
    (cursor : TxnRangeCursor)
    (w : World)
    (Seen : Database → Prop)
    (row : TableRow)
    (earlier range later : History)
    (events : List TxnEvent) : Prop where
  found : row ∈ w.database.tables
  rowIdent : row.ident = ident
  split : w.history ident = earlier ++ range ++ later
  start : earlier.ids.getLast? = cursor.fromExclusive
  stop : range.ids.getLast? = some cursor.toInclusive
  events :
    List.Forall₂
      (EventSeen ext catalog.kind row.tableUuid Seen)
      range.ids events

/- A split of the ids is one of the history. -/
theorem History.split_of_ids
    {h : History}
    {before after : List TxnId}
    (hIds : h.ids = before ++ after) :
    ∃ past later, h = past ++ later ∧ past.ids = before ∧
      History.ids later = after := by
  rcases List.map_eq_append_iff.mp hIds with
    ⟨past, later, hSplit, hPast, hLater⟩
  exact ⟨past, later, hSplit, hPast, hLater⟩

/- The end of a range is the head or has a row. -/
theorem runs_checkEndExists
    {ω : Type}
    {Step : ω → ω → Prop}
    {see : ω → Database}
    {w w' : ω}
    {kind : DbKind}
    {tableUuid : Uuid}
    {current toInclusive : TxnId}
    {u : Unit}
    (hRuns :
      Query.Runs Step see w
        (checkEndExists kind tableUuid current toInclusive)
        w' (.ok u)) :
    current = toInclusive ∨
      ∃ x row, Relation.ReflTransGen Step w x ∧
        Relation.ReflTransGen Step x w' ∧
        (see x).findTransaction tableUuid toInclusive =
          some row := by
  unfold checkEndExists at hRuns
  split at hRuns
  · rename_i hHead
    exact .inl hHead
  rcases Query.runs_fetch_bind hRuns with
    ⟨x, hBefore, hRest⟩
  rcases Query.runs_bind_ok hRest with
    ⟨x', exists_, hLift, hRest'⟩
  rcases Query.runs_lift_ok hLift with ⟨hDecode, hWait⟩
  refine .inr ?_
  cases hFind :
      (see x).findTransaction tableUuid toInclusive with
  | some row =>
      exact ⟨x, row, hBefore, hWait.trans hRest'.steps,
        hFind⟩
  | none =>
      simp only [hFind, Option.isSome_none] at hDecode
      have hFalse : exists_ = false := by
        cases kind <;>
          exact (Except.ok.inj hDecode).symm
      simp only [hFalse, Bool.false_eq_true, if_false]
        at hRest'
      cases Query.not_runs_fail_ok hRest'

/-
  The specification of `listTransactionEvents`: the world
  may move by any of its steps between the queries.
-/
theorem runs_listTransactionEvents
    {Step : World → World → Prop}
    {ext : External}
    {catalog : SqlCatalog}
    {ident : TableIdent}
    {cursor : TxnRangeCursor}
    {w w' : World}
    {events : List TxnEvent}
    (hStep : ∀ a b, Step a b → World.Step ext a b)
    (hInv : w.Inv ext)
    (hRuns :
      Query.Runs Step World.database w
        (listTransactionEvents ext catalog ident cursor) w'
        (.ok events)) :
    ∃ w₁ row earlier range later,
      Relation.ReflTransGen Step w w₁ ∧
      Relation.ReflTransGen Step w₁ w' ∧
      LogSeen ext catalog ident cursor w₁
        (SeenBetween Step World.database w₁ w') row earlier
        range later events := by
  have hSteps {a b : World}
      (hSome : Relation.ReflTransGen Step a b) :
      Relation.ReflTransGen (World.Step ext) a b :=
    Relation.ReflTransGen.mono hStep _ _ hSome
  rcases Query.runs_fetch_bind hRuns with
    ⟨w₀, hWait₀, hRest₀⟩
  split at hRest₀
  · cases Query.not_runs_fail_ok hRest₀
  rename_i row hFound
  have hRow : row ∈ w₀.database.tables :=
    List.mem_of_find?_eq_some hFound
  have hIdent : row.ident = ident := by
    simpa using List.find?_some hFound
  have hInv₀ := hInv.steps (hSteps hWait₀)
  rcases Query.runs_bind_ok hRest₀ with
    ⟨w₁, current, hCurrent, hRest₁⟩
  rcases Query.runs_lift_ok hCurrent with ⟨hHead, hWait₁⟩
  rcases Query.runs_bind_ok hRest₁ with
    ⟨w₂, u, hCheck, hRest₂⟩
  have hWait₂ := hCheck.steps
  have hInv₂ :=
    hInv₀.steps (hSteps (hWait₁.trans hWait₂))
  rcases hInv₀.steps_keeps (hSteps (hWait₁.trans hWait₂))
    hRow with ⟨row₂, hRow₂, hUuid₂, hIdent₂⟩
  have hEnd :
      cursor.toInclusive ∈ (w₂.history row.ident).ids := by
    rcases runs_checkEndExists hCheck with
      hIsHead | ⟨x, found, hx, hx', hFind⟩
    · rcases hInv₀.steps_history
        (hSteps (hWait₁.trans hWait₂)) row.ident with
        ⟨more, hMore⟩
      rw [hMore, History.ids_append]
      apply List.mem_append_left
      apply List.mem_of_getLast?
      rw [← (hInv₀.tracked row hRow).head, ← hIsHead]
      cases hRowHead : row.currentTransactionId with
      | none => rw [hRowHead] at hHead; cases hHead
      | some id =>
          rw [hRowHead] at hHead
          rw [Except.ok.inj hHead]
    · have hBefore := hSteps (hWait₁.trans hx)
      have hMember :=
        (hInv₀.holds_later hBefore
          hRow).chained.mem_of_findTransaction hFind
      rcases (hInv₀.steps hBefore).steps_history (hSteps hx')
        row.ident with ⟨more, hMore⟩
      rw [hMore, History.ids_append]
      exact List.mem_append_left _ hMember
  rcases List.append_of_mem hEnd with ⟨before, after, hIds⟩
  rcases Query.runs_bind_ok hRest₂ with
    ⟨w₃, path, hPath, hEvents⟩
  have hGrows := (hInv₂.growsFrom hRow₂).of_steps hStep
  rw [hUuid₂, hIdent₂, hIds, ← List.singleton_append,
    ← List.append_assoc] at hGrows
  rcases runs_transactionPath hGrows hPath with
    hError | hError | ⟨range, hResult, hRange⟩
  · cases hError
  · cases hError
  rw [Except.ok.injEq] at hResult
  subst hResult
  rcases hRange with
    ⟨earlierIds, hSplitIds, hBoundary, hNonempty⟩
  rw [← List.singleton_append, ← List.append_assoc,
    hSplitIds] at hIds
  rcases History.split_of_ids hIds with
    ⟨past, later, hSplit, hPastIds, _⟩
  rcases History.split_of_ids hPastIds with
    ⟨earlier, mid, rfl, hEarlier, hMid⟩
  refine ⟨w₂, row₂, earlier, mid, later,
    hWait₀.trans (hWait₁.trans hWait₂),
    hPath.steps.trans hEvents.steps, ?_⟩
  constructor
  case found => exact hRow₂
  case rowIdent => exact hIdent₂.trans hIdent
  case split => rw [← hIdent, hSplit]
  case start => rw [hEarlier, hBoundary]
  case stop =>
    have hLast := congrArg List.getLast? hSplitIds
    rw [List.getLast?_concat,
      List.getLast?_append_of_ne_nil _ hNonempty] at hLast
    rw [hMid, ← hLast]
  case events =>
    rw [hMid, hUuid₂]
    apply (runs_readEvents hEvents).imp
    intro t event hSeen
    exact hSeen.mono fun db hDb =>
      hDb.wider hPath.steps .refl

/- A listing with nothing in between sees one database. -/
theorem exec_listTransactionEvents
    {ext : External}
    {catalog : SqlCatalog}
    {ident : TableIdent}
    {cursor : TxnRangeCursor}
    {w : World}
    {events : List TxnEvent}
    (hInv : w.Inv ext)
    (hList :
      (listTransactionEvents ext catalog ident cursor).exec
        w.database = .ok events) :
    ∃ row earlier range later,
      LogSeen ext catalog ident cursor w
        (fun db => db = w.database) row earlier range later
        events := by
  have hRuns :
      Query.Runs (fun _ _ => False) World.database w
        (listTransactionEvents ext catalog ident cursor) w
        (.ok events) := by
    rw [← hList]
    exact Query.runs_exec w _
  rcases runs_listTransactionEvents
    (fun _ _ hNo => hNo.elim) hInv hRuns with
    ⟨w₁, row, earlier, range, later, h₁, _, hSeen⟩
  have hw₁ := eq_of_still h₁
  subst hw₁
  refine ⟨row, earlier, range, later,
    { hSeen with events := ?_ }⟩
  apply hSeen.events.imp
  intro t event hEvent
  apply hEvent.mono
  rintro db ⟨x, hx, _, rfl⟩
  rw [eq_of_still hx]

end Planar
