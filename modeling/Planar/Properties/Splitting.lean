import Planar.Foundations.KeyedLists
import Planar.Properties.Acceptance
import Planar.Reading.Snapshot

/-
  A commit against the commits of its parts: the operations
  may go to the catalog at once, or the first ones before
  the others.

  Main declarations:
    * `CommitCall.first`, `CommitCall.rest`
    * `History.SameEnd`, `sameEnd_parts`
    * `CommitCall.CutAt`
    * `World.Reachable.splits`
-/

------------------------------------------------------------
-- The Parts of a Commit
------------------------------------------------------------

namespace Planar

variable
  {ext : External}
  {draws : Draws}
  {call : CommitCall}
  {calls : List Call}
  {t : TxnId}
  {n : Nat}

/- What is drawn for the operations from a number on. -/
def Draws.skip (draws : Draws) (n : Nat) : Draws :=
  { draws with
    schemaUuid := fun op => draws.schemaUuid (n + op)
    columnUuid := fun op => draws.columnUuid (n + op)
    fileUuid := fun op => draws.fileUuid (n + op) }

/- The first operations, in a transaction of their own. -/
def CommitCall.first
    (call : CommitCall)
    (t : TxnId)
    (n : Nat) : CommitCall :=
  { call with
    mutation := ⟨call.mutation.operations.take n⟩
    draws := { call.draws with transactionId := t } }

/- The other operations, on top of the first ones. -/
def CommitCall.rest
    (call : CommitCall)
    (t : TxnId)
    (n : Nat) : CommitCall :=
  { call with
    base := t
    mutation := ⟨call.mutation.operations.drop n⟩
    draws := call.draws.skip n }

theorem changesFrom_skip
    {op : Nat}
    (operations : List MutationOp) :
    changesFrom (draws.skip n) op operations =
      changesFrom draws (n + op) operations := by
  induction operations generalizing op with
  | nil => rfl
  | cons operation rest ih =>
      rw [changesFrom, changesFrom, ih, Nat.add_assoc]
      cases operation <;> rfl

theorem changesFrom_append
    {op : Nat}
    (front back : List MutationOp) :
    changesFrom draws op (front ++ back) =
      changesFrom draws op front ++
        changesFrom draws (op + front.length) back := by
  induction front generalizing op with
  | nil => rfl
  | cons operation rest ih =>
      rw [List.cons_append, changesFrom, ih, changesFrom,
        List.cons_append, List.length_cons,
        Nat.add_assoc, Nat.add_comm 1]

theorem changesFrom_withId
    {op : Nat}
    (operations : List MutationOp) :
    changesFrom { draws with transactionId := t } op
        operations =
      changesFrom draws op operations := by
  induction operations generalizing op with
  | nil => rfl
  | cons operation rest ih =>
      rw [changesFrom, changesFrom, ih]
      cases operation <;> rfl

/- The parts make the changes of the whole, in order. -/
theorem CommitCall.changes_parts
    (hLength : n ≤ call.mutation.operations.length) :
    (Call.commit call).entry.changes =
      (Call.commit (call.first t n)).entry.changes ++
        (Call.commit (call.rest t n)).entry.changes := by
  have hWhole :=
    List.take_append_drop n call.mutation.operations
  have hTaken :
      (call.mutation.operations.take n).length = n :=
    List.length_take_of_le hLength
  have hFirst :
      (Call.commit (call.first t n)).entry.changes =
        changesFrom call.draws 0
          (call.mutation.operations.take n) :=
    changesFrom_withId _
  have hRest :
      (Call.commit (call.rest t n)).entry.changes =
        changesFrom call.draws n
          (call.mutation.operations.drop n) :=
    changesFrom_skip _
  calc changesFrom call.draws 0 call.mutation.operations
    _ = changesFrom call.draws 0
        (call.mutation.operations.take n ++
          call.mutation.operations.drop n) := by
      rw [hWhole]
    _ = changesFrom call.draws 0
          (call.mutation.operations.take n) ++
        changesFrom call.draws n
          (call.mutation.operations.drop n) := by
      rw [changesFrom_append, hTaken, Nat.zero_add]
    _ = _ := by
      rw [← hFirst, ← hRest]

/- So they bring its values, and one more transaction. -/
theorem CommitCall.keys_parts
    (hLength : n ≤ call.mutation.operations.length) :
    ∃ firstKeys restKeys,
      (Call.commit call).keys =
        .transaction call.draws.transactionId ::
          (firstKeys ++ restKeys) ∧
      (Call.commit (call.first t n)).keys =
        .transaction t :: firstKeys ∧
      (Call.commit (call.rest t n)).keys =
        .transaction call.draws.transactionId ::
          restKeys := by
  refine ⟨(Call.commit (call.first t
      n)).entry.changes.flatMap Change.keys,
    (Call.commit (call.rest t n)).entry.changes.flatMap
      Change.keys, ?_, rfl, rfl⟩
  rw [← List.flatMap_append, ← changes_parts hLength]
  rfl

------------------------------------------------------------
-- Histories with the Same End
------------------------------------------------------------

/- A reader of the end finds the same in both of them. -/
structure History.SameEnd (h k : History) : Prop where
  last : h.ids.getLast? = k.ids.getLast?
  files : h.files = k.files
  schema : h.schema = k.schema
  properties : h.properties = k.properties

/- An entry may be taken apart between its changes. -/
theorem History.sameEnd_parts
    {h : History}
    {whole first rest : Entry}
    (hId : whole.transactionId = rest.transactionId)
    (hChanges :
      whole.changes = first.changes ++ rest.changes) :
    SameEnd (h ++ [whole]) (h ++ [first] ++ [rest]) where
  last := by
    rw [ids_append, ids_append, ids_singleton,
      ids_singleton, List.getLast?_concat,
      List.getLast?_concat, hId]
  files := by
    have hEdits :
        whole.edits = first.edits ++ rest.edits := by
      unfold Entry.edits
      rw [hChanges, List.filterMap_append]
    unfold files
    rw [fileLog_append, fileLog_append, fileLog_append,
      fileLog_singleton, fileLog_singleton,
      fileLog_singleton, replayLog_concat,
      replayLog_concat, replayLog_concat]
    dsimp only
    rw [hEdits, replayEdits, replayEdits, replayEdits,
      List.foldl_append]
  schema := by
    have hSchemas :
        whole.schemas = first.schemas ++ rest.schemas := by
      unfold Entry.schemas
      rw [hChanges, List.filterMap_append]
    rw [schema_concat, schema_concat, schema_concat,
      hSchemas, List.getLast?_append, Option.or_assoc]
  properties := by
    rw [properties_concat, properties_concat,
      properties_concat, hChanges, List.foldl_append]

------------------------------------------------------------
-- Parts That Are Admissible
------------------------------------------------------------

/- The text of the properties can be stored and read. -/
structure TableProperties.Keeps
    (ext : External)
    (properties : TableProperties) : Prop where
  fits : properties.toJson.Fits ext
  reads : ext.ReadsJson properties.toJson

theorem TableProperties.Keeps.parsed
    {properties : TableProperties}
    (hKeeps : properties.Keeps ext) :
    parseTableProperties ext
        (some (ext.jsonToString properties.toJson)) =
      .ok properties := by
  have hSize : checkJsonSize
      (ext.jsonToString properties.toJson) = .ok () :=
    if_neg (Nat.not_lt.mpr hKeeps.fits)
  have hText : parseJsonText ext
      (ext.jsonToString properties.toJson) =
        .ok properties.toJson := by
    refine bind_ok.mpr ⟨(), hSize, ?_⟩
    rw [hKeeps.reads]
  exact bind_ok.mpr ⟨properties.toJson, hText,
    TableProperties.fromJson_toJson properties⟩

/- Some of the operations of a mutation make another. -/
theorem Mutation.WellFormed.of_sublist
    {mutation : Mutation}
    {operations : List MutationOp}
    (hForm : mutation.WellFormed)
    (hSome : operations.Sublist mutation.operations)
    (hNonempty : operations ≠ [])
    (hSize : mutation.operations.length < 2 ^ 32) :
    (Mutation.mk operations).WellFormed where
  nonempty := hNonempty
  count := by
    have hCount := hForm.count
    have hLess := hSome.length_le
    rw [asU32_of_lt hSize] at hCount
    rw [asU32_of_lt (lt_of_le_of_lt hLess hSize)]
    exact hLess.trans hCount
  oneSchema :=
    (hSome.filter _).length_le.trans hForm.oneSchema
  oneProperties :=
    (hSome.filter _).length_le.trans hForm.oneProperties
  namesOnce := fun operation hOperation =>
    hForm.namesOnce operation (hSome.mem hOperation)

/- Only the last schema of a history is asked for. -/
theorem MutationOp.acceptedBy_congr
    {operation : MutationOp}
    {h k : History}
    (hSchema : operation.isUpdateSchema = true →
      h.schema = k.schema) :
    operation.AcceptedBy ext h ↔
      operation.AcceptedBy ext k := by
  cases operation with
  | updateSchema spec =>
      unfold AcceptedBy
      rw [hSchema rfl]
  | _ => exact Iff.rfl

/- The one new schema comes in one of the parts. -/
theorem CommitCall.schema_before_rest
    {h : History}
    {operation : MutationOp}
    (hForm : call.mutation.WellFormed)
    (hOperation :
      operation ∈ (call.rest t n).mutation.operations)
    (hUpdate : operation.isUpdateSchema = true) :
    History.schema
        (h ++ [(Call.commit (call.first t n)).entry]) =
      h.schema := by
  have hOne := hForm.oneSchema
  rw [← List.take_append_drop n call.mutation.operations,
    List.filter_append, List.length_append] at hOne
  have hThere : 0 < ((call.mutation.operations.drop
      n).filter MutationOp.isUpdateSchema).length :=
    List.length_pos_of_mem
      (List.mem_filter.mpr ⟨hOperation, hUpdate⟩)
  have hNone :
      (Call.commit (call.first t n)).entry.schemas = [] := by
    rw [← List.length_eq_zero_iff]
    have hLength := length_schemas_changesFrom
      (call.first t n).draws 0
      (call.first t n).mutation.operations
    change _ = ((call.mutation.operations.take n).filter
      MutationOp.isUpdateSchema).length at hLength
    change ((changesFrom (call.first t n).draws 0
      (call.first t n).mutation.operations).filterMap
        Change.schema).length = 0
    omega
  rw [schema_concat, hNone]
  rfl

/- What the properties are between the two parts. -/
def CommitCall.midway
    (ext : External)
    (calls : List Call)
    (call : CommitCall)
    (t : TxnId)
    (n : Nat) : TableProperties :=
  storedProperties ext
    (tableHistory calls call.ident ++
      [(Call.commit (call.first t n)).entry])

/-
  A commit can be cut after some, but not all, of its
  operations: the transaction in between is new, and the
  properties in between can be kept.
-/
structure CommitCall.CutAt
    (ext : External)
    (calls : List Call)
    (call : CommitCall)
    (t : TxnId)
    (n : Nat) : Prop where
  front : 0 < n
  back : n < call.mutation.operations.length
  size : call.mutation.operations.length < 2 ^ 32
  fresh : Key.transaction t ∉
    calls.flatMap Call.keys ++ (Call.commit call).keys
  keeps : (call.midway ext calls t n).Keeps ext

theorem tableCalls_first
    (calls : List Call)
    (call : CommitCall) :
    tableCalls (calls ++ [.commit (call.first t n)])
        call.ident =
      tableCalls calls call.ident ++
        [.commit (call.first t n)] := by
  have hIdent :
      (Call.commit (call.first t n)).ident = call.ident :=
    rfl
  unfold tableCalls
  rw [List.filter_append, List.filter_singleton, hIdent,
    decide_eq_true rfl]
  rfl

theorem tableHistory_first
    (calls : List Call)
    (call : CommitCall) :
    tableHistory (calls ++ [.commit (call.first t n)])
        call.ident =
      tableHistory calls call.ident ++
        [(Call.commit (call.first t n)).entry] :=
  tableHistory_concat_self calls
    (.commit (call.first t n))

namespace CommitCall.CutAt

/- Both ways end with the same properties. -/
theorem properties
    (hCut : call.CutAt ext calls t n) :
    storedProperties ext
        (tableHistory calls call.ident ++
          [(Call.commit (call.first t n)).entry] ++
          [(Call.commit (call.rest t n)).entry]) =
      storedProperties ext
        (tableHistory calls call.ident ++
          [(Call.commit call).entry]) := by
  have hMidway := reread_of_readsJson hCut.keeps.reads
  unfold midway at hMidway
  rw [storedProperties_concat, hMidway,
    storedProperties_concat, storedProperties_concat,
    changes_parts hCut.back.le, List.foldl_append]

/- The values are new at once as they are part by part. -/
theorem keys
    (hCut : call.CutAt ext calls t n) :
    ((Call.commit call).keys.Nodup ∧
      ∀ k ∈ (Call.commit call).keys,
        k ∉ calls.flatMap Call.keys) ↔
    ((Call.commit (call.first t n)).keys.Nodup ∧
      ∀ k ∈ (Call.commit (call.first t n)).keys,
        k ∉ calls.flatMap Call.keys) ∧
    (Call.commit (call.rest t n)).keys.Nodup ∧
      ∀ k ∈ (Call.commit (call.rest t n)).keys,
        k ∉ (calls ++
          [Call.commit (call.first t n)]).flatMap
            Call.keys := by
  have hFresh := hCut.fresh
  rcases @keys_parts call t n hCut.back.le with
    ⟨firstKeys, restKeys, hKeys, hFirst, hRest⟩
  rw [hKeys] at hFresh
  rw [List.flatMap_append, List.flatMap_singleton, hKeys,
    hFirst, hRest]
  exact KeyedLists.fresh_parts_iff hFresh

/- The first part is admissible when the whole is. -/
theorem admissible_first
    (hCut : call.CutAt ext calls t n)
    (hCall : call.Admissible ext calls) :
    (call.first t n).Admissible ext calls := by
  rcases hCut.keys.mp ⟨hCall.distinct, hCall.fresh⟩ with
    ⟨⟨hDistinct, hFresh⟩, _⟩
  constructor
  case wellFormed =>
    refine hCall.wellFormed.of_sublist
      (List.take_sublist _ _) ?_ hCut.size
    intro hNone
    have hLength := congrArg List.length hNone
    rw [List.length_take_of_le hCut.back.le] at hLength
    exact hCut.front.ne' hLength
  case writer => exact hCall.writer
  case base => exact hCall.base
  case readable => exact hCall.readable
  case accepted =>
    exact fun operation hOperation =>
      hCall.accepted operation
        (List.mem_of_mem_take hOperation)
  case fits => exact hCut.keeps.fits
  case distinct => exact hDistinct
  case fresh => exact hFresh

/- After it, so is the other part. -/
theorem admissible_rest
    (hCut : call.CutAt ext calls t n)
    (hCall : call.Admissible ext calls) :
    (call.rest t n).Admissible ext
      (calls ++ [.commit (call.first t n)]) := by
  rcases hCut.keys.mp ⟨hCall.distinct, hCall.fresh⟩ with
    ⟨_, hDistinct, hFresh⟩
  have hHistory :
      tableHistory (calls ++ [.commit (call.first t n)])
          (call.rest t n).ident =
        tableHistory calls call.ident ++
          [(Call.commit (call.first t n)).entry] :=
    tableHistory_first calls call
  constructor
  case wellFormed =>
    refine hCall.wellFormed.of_sublist
      (List.drop_sublist _ _) ?_ hCut.size
    intro hNone
    exact absurd (List.drop_eq_nil_iff.mp hNone)
      (Nat.not_le.mpr hCut.back)
  case writer =>
    rcases hCall.writer with ⟨create, hHead, hVersion⟩
    refine ⟨create, ?_, hVersion⟩
    change (tableCalls _ call.ident).head? = _
    rw [tableCalls_first, List.head?_append, hHead]
    rfl
  case base =>
    rw [hHistory, History.ids_append,
      History.ids_singleton, List.getLast?_concat]
    rfl
  case readable =>
    rw [hHistory]
    exact ⟨_, hCut.keeps.parsed⟩
  case accepted =>
    intro operation hOperation
    rw [hHistory, MutationOp.acceptedBy_congr
      (schema_before_rest hCall.wellFormed hOperation)]
    exact hCall.accepted operation
      (List.mem_of_mem_drop hOperation)
  case fits =>
    rw [hHistory, hCut.properties]
    exact hCall.fits
  case distinct => exact hDistinct
  case fresh => exact hFresh

/- The whole is admissible when the parts are. -/
theorem admissible_of_parts
    (hCut : call.CutAt ext calls t n)
    (hForm : call.mutation.WellFormed)
    (hFirst : (call.first t n).Admissible ext calls)
    (hRest : (call.rest t n).Admissible ext
      (calls ++ [.commit (call.first t n)])) :
    call.Admissible ext calls := by
  rcases hCut.keys.mpr
    ⟨⟨hFirst.distinct, hFirst.fresh⟩, hRest.distinct,
      hRest.fresh⟩ with ⟨hDistinct, hFresh⟩
  have hHistory :
      tableHistory (calls ++ [.commit (call.first t n)])
          (call.rest t n).ident =
        tableHistory calls call.ident ++
          [(Call.commit (call.first t n)).entry] :=
    tableHistory_first calls call
  constructor
  case wellFormed => exact hForm
  case writer => exact hFirst.writer
  case base => exact hFirst.base
  case readable => exact hFirst.readable
  case accepted =>
    intro operation hOperation
    rw [← List.take_append_drop n call.mutation.operations,
      List.mem_append] at hOperation
    rcases hOperation with hOperation | hOperation
    · exact hFirst.accepted operation hOperation
    · have hAccepted := hRest.accepted operation hOperation
      rwa [hHistory, MutationOp.acceptedBy_congr
        (schema_before_rest hForm hOperation)]
          at hAccepted
  case fits =>
    have hFits := hRest.fits
    rwa [hHistory, hCut.properties] at hFits
  case distinct => exact hDistinct
  case fresh => exact hFresh

end CommitCall.CutAt

------------------------------------------------------------
-- Committing in Parts
------------------------------------------------------------

/- A call that succeeds is recorded at the end. -/
theorem World.calls_perform_of_ok
    {w : World}
    {call : Call}
    (hOk : ∃ u, (call.perform ext w.database).1 = .ok u) :
    (w.perform ext call).calls = w.calls ++ [call] := by
  rcases @World.perform_cases ext w call with
    ⟨_, hCalls⟩ | ⟨hError, _⟩
  · exact hCalls
  · exact absurd hOk hError

/- The types of a part are among those of the whole. -/
theorem CommitCall.readsTypes_first
    (hTypes : (Call.commit call).ReadsTypes ext) :
    (Call.commit (call.first t n)).ReadsTypes ext :=
  fun spec hSpec => hTypes spec
    (((List.take_sublist n _).filterMap _).mem hSpec)

/-
  A commit of many operations is accepted exactly when it is
  well formed and its parts are accepted one after the
  other, and either way leads to the same table.
-/
theorem World.Reachable.splits
    {w : World}
    (hReach : w.Reachable ext)
    (hReads : ∀ other ∈ w.calls, other.ReadsTypes ext)
    (hTypes : (Call.commit call).ReadsTypes ext)
    (hCut : call.CutAt ext w.calls t n) :
    let w₁ := w.perform ext (.commit (call.first t n))
    let w₂ := w₁.perform ext (.commit (call.rest t n))
    ((∃ u, ((Call.commit call).perform ext
        w.database).1 = .ok u) ↔
      call.mutation.WellFormed ∧
        (∃ u, ((Call.commit (call.first t n)).perform ext
          w.database).1 = .ok u) ∧
        ∃ u, ((Call.commit (call.rest t n)).perform ext
          w₁.database).1 = .ok u) ∧
    ((∃ u, ((Call.commit call).perform ext
        w.database).1 = .ok u) →
      History.SameEnd
        ((w.perform ext (.commit call)).history call.ident)
        (w₂.history call.ident)) := by
  intro w₁ w₂
  have hReach₁ : w₁.Reachable ext :=
    .tail hReach (.inl ⟨_, rfl⟩)
  have hWhole :
      (∃ u, ((Call.commit call).perform ext
          w.database).1 = .ok u) ↔
        call.Admissible ext w.calls :=
    hReach.accepts_commit (World.readsTypes hReads _)
  have hFirst :
      (∃ u, ((Call.commit (call.first t n)).perform ext
          w.database).1 = .ok u) ↔
        (call.first t n).Admissible ext w.calls :=
    hReach.accepts_commit (World.readsTypes hReads _)
  have hCalls₁ (hOk : ∃ u, ((Call.commit (call.first t
      n)).perform ext w.database).1 = .ok u) :
      w₁.calls = w.calls ++ [.commit (call.first t n)] :=
    World.calls_perform_of_ok hOk
  have hRest (hOk : ∃ u, ((Call.commit (call.first t
      n)).perform ext w.database).1 = .ok u) :
      (∃ u, ((Call.commit (call.rest t n)).perform ext
          w₁.database).1 = .ok u) ↔
        (call.rest t n).Admissible ext
          (w.calls ++ [.commit (call.first t n)]) := by
    rw [← hCalls₁ hOk]
    refine hReach₁.accepts_commit
      (World.readsTypes (fun other hOther => ?_) _)
    rw [hCalls₁ hOk, List.mem_append,
      List.mem_singleton] at hOther
    rcases hOther with hOther | rfl
    · exact hReads other hOther
    · exact CommitCall.readsTypes_first hTypes
  have hParts :
      (∃ u, ((Call.commit call).perform ext
          w.database).1 = .ok u) ↔
        call.mutation.WellFormed ∧
          (∃ u, ((Call.commit (call.first t n)).perform ext
            w.database).1 = .ok u) ∧
          ∃ u, ((Call.commit (call.rest t n)).perform ext
            w₁.database).1 = .ok u := by
    constructor
    · intro hOk
      have hCall := hWhole.mp hOk
      have hOk₁ := hFirst.mpr (hCut.admissible_first hCall)
      exact ⟨hCall.wellFormed, hOk₁,
        (hRest hOk₁).mpr (hCut.admissible_rest hCall)⟩
    · rintro ⟨hForm, hOk₁, hOk₂⟩
      exact hWhole.mpr (hCut.admissible_of_parts hForm
        (hFirst.mp hOk₁) ((hRest hOk₁).mp hOk₂))
  refine ⟨hParts, fun hOk => ?_⟩
  rcases hParts.mp hOk with ⟨_, hOk₁, hOk₂⟩
  have hHistory :
      (w.perform ext (.commit call)).history call.ident =
        w.history call.ident ++
          [(Call.commit call).entry] := by
    unfold World.history
    rw [World.calls_perform_of_ok hOk]
    exact tableHistory_concat_self w.calls (.commit call)
  have hHistory₂ :
      w₂.history call.ident =
        w.history call.ident ++
          [(Call.commit (call.first t n)).entry] ++
          [(Call.commit (call.rest t n)).entry] := by
    have hCalls₂ := World.calls_perform_of_ok hOk₂
    rw [hCalls₁ hOk₁] at hCalls₂
    unfold World.history
    rw [hCalls₂]
    refine (tableHistory_concat_self _
      (.commit (call.rest t n))).trans ?_
    exact congrArg (· ++ [_])
      (tableHistory_first w.calls call)
  rw [hHistory, hHistory₂]
  exact History.sameEnd_parts rfl
    (CommitCall.changes_parts hCut.back.le)

/- A file comes and goes, and the schema gets a column. -/
def sampleMany : CommitCall :=
  { catalog := sampleCatalog
    ident := sampleIdent
    base := 3
    mutation := ⟨[.appendFiles [sampleFile],
      .updateSchema
        ⟨[⟨"a", .int64, false⟩, ⟨"b", .utf8, true⟩,
          ⟨"c", .int32, true⟩]⟩,
      .deleteFiles [4000]]⟩
    draws := sampleDraws 4 }

theorem splits_sample :
    let w₁ := sampleWorld.perform sampleExternal
      (.commit (sampleMany.first 9 2))
    let w₂ := w₁.perform sampleExternal
      (.commit (sampleMany.rest 9 2))
    (sampleMany.mutation.WellFormed ∧
      (∃ u, ((Call.commit (sampleMany.first 9 2)).perform
        sampleExternal sampleWorld.database).1 = .ok u) ∧
      ∃ u, ((Call.commit (sampleMany.rest 9 2)).perform
        sampleExternal w₁.database).1 = .ok u) ∧
    History.SameEnd
      ((sampleWorld.perform sampleExternal
        (.commit sampleMany)).history sampleIdent)
      (w₂.history sampleIdent) := by
  have hCut : sampleMany.CutAt sampleExternal
      sampleWorld.calls 9 2 := by
    constructor
    case front => decide
    case back => decide
    case size => decide
    case fresh => decide +kernel
    case keeps =>
      constructor
      · unfold Json.Fits
        decide +kernel
      · unfold External.ReadsJson
        decide +kernel
  have hOk : ∃ u, ((Call.commit sampleMany).perform
      sampleExternal sampleWorld.database).1 = .ok u :=
    ⟨(), by decide +kernel⟩
  have hSplits :=
    (World.reachable_run sampleExternal
      sampleCalls).splits (by decide +kernel)
        (by decide +kernel) hCut
  exact ⟨hSplits.1.mp hOk, hSplits.2 hOk⟩

end Planar
