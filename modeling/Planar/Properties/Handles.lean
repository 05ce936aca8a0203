import Planar.Catalog.Handles
import Planar.Foundations.Attempts
import Planar.History.Outcomes
import Planar.Properties.Interleaving

/-
  Clients that update a table through its handles: a commit
  meets a conflict exactly when another one was faster, and
  what a client has read is still true when it commits.

  Main declarations:
    * `MutationBuilder.pushAll`, `MutationBuilder.call`
    * `World.Reachable.conflict_iff`
    * `World.Reachable.readModifyWrite`
    * `Clients`, `Clients.Step`, `Clients.attempts`
    * `Clients.conflicts_le`
-/

------------------------------------------------------------
-- Builders as Calls
------------------------------------------------------------

namespace Planar

variable
  {ext : External}
  {w w' w'' : World}
  {handle : TableHandle}
  {builder : MutationBuilder}
  {operations : List MutationOp}
  {draws : Draws}

namespace MutationBuilder

/- Put operations at the end, in their order. -/
def pushAll
    (builder : MutationBuilder)
    (operations : List MutationOp) : MutationBuilder :=
  operations.foldl push builder

/- The writing call that committing the builder makes. -/
def call
    (builder : MutationBuilder)
    (draws : Draws) : CommitCall :=
  { catalog := builder.catalog
    ident := builder.ident
    base := builder.baseTransactionId
    mutation := builder.mutation
    draws := draws }

/- All operations are there, and nothing else has changed. -/
theorem pushAll_eq
    (builder : MutationBuilder)
    (operations : List MutationOp) :
    builder.pushAll operations =
      { builder with
        mutation :=
          ⟨builder.mutation.operations ++ operations⟩ } := by
  induction operations generalizing builder with
  | nil => simp [pushAll]
  | cons operation rest ih =>
      change (builder.push operation).pushAll rest = _
      rw [ih]
      simp [push]

theorem commit_eq
    (builder : MutationBuilder)
    (draws : Draws)
    (db : Database) :
    builder.commit ext draws db =
      Planar.commit ext (builder.call draws).catalog
        (builder.call draws).ident
        (builder.call draws).base
        (builder.call draws).mutation
        (builder.call draws).draws db := rfl

/- The commit of a builder that was just made. -/
theorem call_pushAll_new
    (catalog : SqlCatalog)
    (ident : TableIdent)
    (base : TxnId)
    (operations : List MutationOp)
    (draws : Draws) :
    ((new catalog ident base).pushAll operations).call
        draws =
      { catalog := catalog
        ident := ident
        base := base
        mutation := ⟨operations⟩
        draws := draws } := by
  rw [pushAll_eq]
  rfl

end MutationBuilder

------------------------------------------------------------
-- Conflicts
------------------------------------------------------------

/- The transactions of a table are distinct. -/
theorem World.Reachable.ids_nodup
    (hReach : w.Reachable ext)
    (ident : TableIdent) :
    (tableHistory w.calls ident).ids.Nodup := by
  cases hFound : w.database.findTable ident with
  | none =>
      rw [tableHistory, hReach.findTable_none.mp hFound]
      exact List.nodup_nil
  | some row =>
      exact (hReach.of_findTable hFound).1.ids_nodup
        hReach.inv.sound

/- Later the table has the same calls, and maybe more. -/
theorem World.Reachable.tableCalls_later
    (hReach : w.Reachable ext)
    (hSteps : Relation.ReflTransGen (World.Step ext) w w')
    (ident : TableIdent) :
    ∃ more, tableCalls w'.calls ident =
      tableCalls w.calls ident ++ more := by
  rcases hReach.inv.steps_calls hSteps with ⟨more, hMore⟩
  refine ⟨tableCalls more ident, ?_⟩
  rw [hMore]
  exact List.filter_append ..

/-
  The head of a table never comes back: it is the same later
  exactly when the table has had no more calls.
-/
theorem World.Reachable.sameHead_iff
    {ident : TableIdent}
    (hReach : w.Reachable ext)
    (hSteps :
      Relation.ReflTransGen (World.Step ext) w w') :
    (tableHistory w'.calls ident).ids.getLast? =
        (tableHistory w.calls ident).ids.getLast? ↔
      tableCalls w'.calls ident =
        tableCalls w.calls ident := by
  constructor
  · intro hHead
    rcases hReach.tableCalls_later hSteps ident with
      ⟨more, hMore⟩
    have hNodup :=
      World.Reachable.ids_nodup (hReach.trans hSteps) ident
    have hHistory :
        tableHistory w'.calls ident =
          tableHistory w.calls ident ++
            more.map Call.entry := by
      rw [tableHistory, hMore, List.map_append]
      rfl
    rw [hHistory] at hNodup hHead
    rw [← List.append_nil (more.map Call.entry)] at hNodup
    have hNone :=
      History.eq_nil_of_last hNodup hHead.symm
    rw [List.map_eq_nil_iff] at hNone
    rw [hMore, hNone, List.append_nil]
  · intro hCalls
    rw [tableHistory, hCalls]
    rfl

/-
  A builder that was pinned to the head meets a conflict
  exactly when its commit passes the earlier checks and the
  table has had another successful call since.
-/
theorem World.Reachable.conflict_iff
    (hReach : w.Reachable ext)
    (hWrite :
      (handle.write none).exec w.database = .ok builder)
    (hSteps :
      Relation.ReflTransGen (World.Step ext) w w') :
    endedAt ((builder.pushAll operations).commit ext draws
        w'.database).1 = some .base ↔
      ((builder.pushAll operations).call draws).Passes ext
          w'.calls ∧
        tableCalls w'.calls handle.ident ≠
          tableCalls w.calls handle.ident := by
  rcases TableHandle.exec_write hWrite with
    ⟨base, rfl, _, hHead⟩
  rcases hHead rfl with ⟨row, hFound, hBase⟩
  rw [(hReach.of_findTable hFound).1.head] at hBase
  have hLater : w'.Reachable ext := hReach.trans hSteps
  have hEnd := hLater.commit_endedAt
    (((MutationBuilder.new handle.catalog handle.ident
      base).pushAll operations).call draws)
  change endedAt (MutationBuilder.commit ext _ draws _).1 =
    _ at hEnd
  rw [hEnd, CommitCall.gate_base_iff,
    MutationBuilder.call_pushAll_new]
  refine and_congr_right fun _ => not_congr ?_
  dsimp only
  rw [← hBase]
  exact hReach.sameHead_iff hSteps

def sampleHandle : TableHandle :=
  ⟨sampleCatalog, sampleIdent⟩

/- The third sample call has come first. -/
theorem conflict_iff_sample :
    endedAt (((MutationBuilder.new sampleCatalog sampleIdent
        2).pushAll [.deleteFiles [7]]).commit sampleExternal
          (sampleDraws 4) (samplePast 3).database).1 =
        some .base ↔
      (((MutationBuilder.new sampleCatalog sampleIdent
        2).pushAll [.deleteFiles [7]]).call
          (sampleDraws 4)).Passes sampleExternal
            (samplePast 3).calls ∧
        tableCalls (samplePast 3).calls sampleIdent ≠
          tableCalls (samplePast 2).calls sampleIdent := by
  have hWrite :
      (sampleHandle.write none).exec
        (samplePast 2).database =
          .ok (.new sampleCatalog sampleIdent 2) := by
    decide +kernel
  exact (World.reachable_run ..).conflict_iff hWrite
    (samplePast_steps (by decide))

------------------------------------------------------------
-- Read, Modify, Write
------------------------------------------------------------

/- A commit that succeeds is recorded. -/
theorem World.calls_perform_commit
    {call : CommitCall}
    {r : CommitResult}
    (hOk :
      (commit ext call.catalog call.ident call.base
        call.mutation call.draws w.database).1 = .ok r) :
    (w.perform ext (.commit call)).calls =
      w.calls ++ [.commit call] := by
  have hDone := Call.perform_commit_iff.mpr ⟨r, hOk⟩
  rcases @World.perform_cases ext w (.commit call) with
    ⟨_, hCalls⟩ | ⟨hError, _⟩
  · exact hCalls
  · exact absurd hDone hError

/- A commit that succeeds is based on the head. -/
theorem World.Reachable.base_of_ok
    {call : CommitCall}
    {r : CommitResult}
    (hReach : w.Reachable ext)
    (hOk :
      (commit ext call.catalog call.ident call.base
        call.mutation call.draws w.database).1 = .ok r) :
    (tableHistory w.calls call.ident).ids.getLast? =
      some call.base := by
  have hPair : commit ext call.catalog call.ident call.base
      call.mutation call.draws w.database =
        (.ok r, (commit ext call.catalog call.ident
          call.base call.mutation call.draws
            w.database).2) := by
    rw [← hOk]
  rcases commit_iff.mp hPair with
    ⟨_, row, _, hFound, _, _, hHead, _⟩
  rw [← hHead]
  exact (hReach.of_findTable hFound).1.head.symm

/-
  A client reads the head, while others commit, computes
  operations from its view and commits them to what it has
  read.  If the commit succeeds then nothing has happened in
  between: the view shows the table right before the commit.
-/
theorem World.Reachable.readModifyWrite
    {view : TableView}
    {update : TableView → List MutationOp}
    {r : CommitResult}
    (hReach : w.Reachable ext)
    (hRuns :
      Query.Runs (World.Step ext) World.database w
        (handle.read ext) w' (.ok view))
    (hWrite :
      (handle.write (some view.transactionId)).exec
        w'.database = .ok builder)
    (hSteps :
      Relation.ReflTransGen (World.Step ext) w' w'')
    (hOrdered : w''.Ordered)
    (hReads : ReadsBack ext (w''.history handle.ident))
    (hCommit :
      ((builder.pushAll (update view)).commit ext draws
        w''.database).1 = .ok r) :
    view.Shows (w''.history handle.ident) ∧
      view.properties =
        (w''.history handle.ident).properties ∧
      (w''.perform ext (.commit
          ((builder.pushAll (update view)).call
            draws))).history handle.ident =
        w''.history handle.ident ++
          [commitEntry view.transactionId ⟨update view⟩
            draws] := by
  rcases TableHandle.exec_write hWrite with
    ⟨base, rfl, hBase, _⟩
  rcases hBase _ rfl with rfl
  have hMiddle : w'.Reachable ext :=
    hReach.trans hRuns.steps
  have hLater : w''.Reachable ext := hMiddle.trans hSteps
  rcases hMiddle.inv.steps_history hSteps handle.ident with
    ⟨late, hLate⟩
  have hReads' := hReads
  rw [hLate] at hReads'
  rcases hReach.inv.interleavedRead
    (hOrdered.before hMiddle.inv hSteps) hReads'.past hRuns
    with ⟨past, later, hSplit, hLast, hShows, hProperties⟩
  let call : CommitCall :=
    { catalog := handle.catalog
      ident := handle.ident
      base := view.transactionId
      mutation := ⟨update view⟩
      draws := draws }
  have hCall := MutationBuilder.call_pushAll_new
    handle.catalog handle.ident view.transactionId
    (update view) draws
  rw [MutationBuilder.commit_eq, hCall] at hCommit
  have hHead := @World.Reachable.base_of_ok ext w'' call r
    hLater hCommit
  have hPast : w''.history handle.ident = past := by
    have hNodup := hLater.ids_nodup handle.ident
    have hWhole : w''.history handle.ident ++ [] =
        past ++ (later ++ late) := by
      rw [List.append_nil, hLate, hSplit,
        List.append_assoc]
    refine History.split_unique ?_ hWhole
      (hHead.trans hLast.symm)
    rw [List.append_nil]
    exact hNodup
  refine ⟨hPast ▸ hShows, hPast ▸ hProperties, ?_⟩
  rw [hCall]
  change tableHistory _ handle.ident = _
  rw [@World.calls_perform_commit ext w'' call r hCommit]
  exact tableHistory_concat_self w''.calls (.commit call)

/- One more property on top of what the view has. -/
def sampleUpdate (view : TableView) : List MutationOp :=
  [.setProperties
    ⟨view.properties.values ++ [("k", .string "v")]⟩]

theorem readModifyWrite_sample :
    ∃ view,
      view.Shows
          ((samplePast 2).history sampleHandle.ident) ∧
        view.properties =
          ((samplePast 2).history
            sampleHandle.ident).properties ∧
        ((samplePast 2).perform sampleExternal (.commit
            (((MutationBuilder.new sampleCatalog sampleIdent
              view.transactionId).pushAll
                (sampleUpdate view)).call
                  (sampleDraws 3)))).history
                    sampleHandle.ident =
          (samplePast 2).history sampleHandle.ident ++
            [commitEntry view.transactionId
              ⟨sampleUpdate view⟩ (sampleDraws 3)] := by
  have hRead :
      ((sampleHandle.read sampleExternal).exec
        (samplePast 2).database).isOk = true := by
    decide +kernel
  rcases exists_of_isOk hRead with ⟨view, hView⟩
  have hCommit :
      ((sampleHandle.read sampleExternal).exec
          (samplePast 2).database).toOption.all (fun view =>
        (((MutationBuilder.new sampleCatalog sampleIdent
          view.transactionId).pushAll
            (sampleUpdate view)).commit sampleExternal
              (sampleDraws 3)
              (samplePast 2).database).1.isOk) = true := by
    decide +kernel
  rw [hView] at hCommit
  rcases exists_of_isOk hCommit with ⟨r, hOk⟩
  have hRuns :
      Query.Runs (World.Step sampleExternal) World.database
        (samplePast 2) (sampleHandle.read sampleExternal)
        (samplePast 2) (.ok view) := by
    rw [← hView]
    exact Query.runs_exec ..
  exact ⟨view, (World.reachable_run ..).readModifyWrite
    hRuns rfl .refl (by decide +kernel) (by decide +kernel)
    hOk⟩

------------------------------------------------------------
-- Clients of One Table
------------------------------------------------------------

/-
  Clients of one table, each with the builder that it has
  open, and how many of their commits have met a conflict
  and have succeeded.
-/
structure Clients (ι : Type) where
  world : World
  builders : ι → Option MutationBuilder
  conflicts : Nat := 0
  commits : Nat := 0

namespace Clients

variable {ι : Type} [DecidableEq ι]

/- A client commits its builder, which is then gone. -/
def commit
    (ext : External)
    (c : Clients ι)
    (i : ι)
    (builder : MutationBuilder)
    (draws : Draws) : Clients ι :=
  let result := (builder.commit ext draws
    c.world.database).1
  { world := c.world.perform ext
      (.commit (builder.call draws))
    builders := Attempts.withObserved c.builders i none
    conflicts :=
      if endedAt result = some .base then c.conflicts + 1
      else c.conflicts
    commits :=
      if result.isOk then c.commits + 1 else c.commits }

/-
  A client pins a builder to the head, puts operations into
  it and commits it.  Any other call may happen at any time,
  as long as it does not change the table.
-/
inductive Step
    (ext : External)
    (ident : TableIdent) :
    Clients ι → Clients ι → Prop
  | write {c : Clients ι} {i : ι} {handle : TableHandle}
      {builder : MutationBuilder}
      (hIdent : handle.ident = ident)
      (hWrite : (handle.write none).exec c.world.database =
        .ok builder) :
      Step ext ident c { c with
        builders :=
          Attempts.withObserved c.builders i
            (some builder) }
  | push {c : Clients ι} {i : ι}
      {builder : MutationBuilder} {operation : MutationOp}
      (hOpen : c.builders i = some builder) :
      Step ext ident c { c with
        builders :=
          Attempts.withObserved c.builders i
            (some (builder.push operation)) }
  | commit {c : Clients ι} {i : ι}
      {builder : MutationBuilder} {draws : Draws}
      (hOpen : c.builders i = some builder) :
      Step ext ident c (c.commit ext i builder draws)
  | others {c : Clients ι} {w : World}
      (hStep : World.Step ext c.world w)
      (hSame : tableCalls w.calls ident =
        tableCalls c.world.calls ident) :
      Step ext ident c { c with world := w }

/- All open builders are for the table. -/
structure Inv
    (ext : External)
    (ident : TableIdent)
    (c : Clients ι) : Prop where
  reachable : c.world.Reachable ext
  idents : ∀ i builder, c.builders i = some builder →
    builder.ident = ident

/- The clients as parties that update one cell. -/
def attempts
    (ident : TableIdent)
    (c : Clients ι) : Attempts ι (Option TxnId) :=
  { current :=
      (tableHistory c.world.calls ident).ids.getLast?
    observed := fun i => (c.builders i).map fun builder =>
      some builder.baseTransactionId
    conflicts := c.conflicts
    successes := c.commits }

theorem observed_withObserved
    (builders : ι → Option MutationBuilder)
    (i : ι)
    (builder : Option MutationBuilder) :
    (fun j =>
      (Attempts.withObserved builders i builder j).map
        fun builder => some builder.baseTransactionId) =
      Attempts.withObserved
        (fun j => (builders j).map fun builder =>
          some builder.baseTransactionId) i
        (builder.map fun builder =>
          some builder.baseTransactionId) := by
  funext j
  unfold Attempts.withObserved
  split <;> rfl

variable
  {ident : TableIdent}
  {c c' : Clients ι}

/- Committing uses up what the client has observed. -/
theorem attempts_commit
    (c : Clients ι)
    (i : ι)
    (builder : MutationBuilder)
    (draws : Draws) :
    (c.commit ext i builder draws).attempts ident =
      { current :=
          (tableHistory (c.commit ext i builder
            draws).world.calls ident).ids.getLast?
        observed :=
          Attempts.withObserved (c.attempts ident).observed
            i none
        conflicts :=
          (c.commit ext i builder draws).conflicts
        successes :=
          (c.commit ext i builder draws).commits } := by
  have hObserved :=
    observed_withObserved c.builders i none
  unfold attempts
  congr 1

/- A call that succeeds is one more on its table. -/
theorem length_tableCalls
    (calls : List Call)
    (call : Call) :
    (tableCalls (calls ++ [call]) call.ident).length =
      (tableCalls calls call.ident).length + 1 := by
  unfold tableCalls
  rw [List.filter_append, List.filter_singleton,
    decide_eq_true rfl]
  exact List.length_append

/-
  What committing a builder of the table does: it succeeds
  and is one more call, it meets a conflict because the head
  has moved, or it fails otherwise.
-/
theorem commit_cases
    {builder : MutationBuilder}
    (hReach : c.world.Reachable ext)
    (hIdent : builder.ident = ident)
    (i : ι)
    (draws : Draws) :
    ((c.commit ext i builder draws).conflicts =
        c.conflicts ∧
      (c.commit ext i builder draws).commits =
        c.commits + 1 ∧
      (tableCalls (c.commit ext i builder
          draws).world.calls ident).length =
        (tableCalls c.world.calls ident).length + 1) ∨
    ((c.commit ext i builder draws).world = c.world ∧
      (c.commit ext i builder draws).commits = c.commits ∧
      ((c.commit ext i builder draws).conflicts =
          c.conflicts ∨
        ((c.commit ext i builder draws).conflicts =
            c.conflicts + 1 ∧
          some builder.baseTransactionId ≠
            (c.attempts ident).current))) := by
  subst hIdent
  have hEnd := hReach.commit_endedAt (builder.call draws)
  rw [← MutationBuilder.commit_eq] at hEnd
  have hDone := @Call.perform_commit_iff ext
    c.world.database (builder.call draws)
  rw [← MutationBuilder.commit_eq] at hDone
  rcases @World.perform_cases ext c.world
      (.commit (builder.call draws)) with
    ⟨hOk, hCalls⟩ | ⟨hError, hSame⟩
  · left
    rcases hDone.mp hOk with ⟨r, hResult⟩
    refine ⟨?_, ?_, ?_⟩
    · dsimp only [commit]
      rw [hResult]
      rfl
    · dsimp only [commit]
      rw [hResult]
      rfl
    · dsimp only [commit]
      rw [hCalls]
      exact length_tableCalls _ _
  · right
    have hNone : (builder.commit ext draws
        c.world.database).1.isOk = false := by
      cases hResult : (builder.commit ext draws
          c.world.database).1 with
      | ok r => exact absurd (hDone.mpr ⟨r, hResult⟩) hError
      | error e => rfl
    refine ⟨hSame, ?_, ?_⟩
    · dsimp only [commit]
      rw [hNone]
      rfl
    · dsimp only [commit]
      split
      · rename_i hBase
        rw [hEnd, CommitCall.gate_base_iff] at hBase
        exact .inr ⟨rfl, hBase.2.symm⟩
      · exact .inl rfl

theorem Inv.step
    (hInv : c.Inv ext ident)
    (hStep : Step ext ident c c') :
    c'.Inv ext ident := by
  have hBuilders {i : ι} {builder : Option MutationBuilder}
      (hIdent : ∀ b ∈ builder, b.ident = ident) :
      ∀ j b, Attempts.withObserved c.builders i builder j =
        some b → b.ident = ident := by
    intro j b hAt
    unfold Attempts.withObserved at hAt
    split at hAt
    · exact hIdent b hAt
    · exact hInv.idents j b hAt
  cases hStep with
  | @write i handle builder hIdent hWrite =>
      refine ⟨hInv.reachable, hBuilders ?_⟩
      rcases TableHandle.exec_write hWrite with
        ⟨base, rfl, _, _⟩
      rintro b ⟨rfl⟩
      exact hIdent
  | @push i builder operation hOpen =>
      refine ⟨hInv.reachable, hBuilders ?_⟩
      rintro b ⟨rfl⟩
      exact hInv.idents i builder hOpen
  | commit hOpen =>
      refine ⟨hInv.reachable.tail (.inl ⟨_, rfl⟩),
        hBuilders ?_⟩
      rintro b ⟨⟩
  | others hStep hSame =>
      exact ⟨hInv.reachable.tail hStep, hInv.idents⟩

/- A step of a client is a step of its attempt, or none. -/
theorem Inv.simulates
    (hInv : c.Inv ext ident)
    (hStep : Step ext ident c c') :
    Relation.ReflTransGen Attempts.Step (c.attempts ident)
        (c'.attempts ident) ∧
      (tableCalls c'.world.calls ident).length + c.commits =
        (tableCalls c.world.calls ident).length +
          c'.commits := by
  cases hStep with
  | @write i handle builder hIdent hWrite =>
      refine ⟨.single ?_, rfl⟩
      rcases TableHandle.exec_write hWrite with
        ⟨base, rfl, _, hHead⟩
      rcases hHead rfl with ⟨row, hFound, hBase⟩
      rw [(hInv.reachable.of_findTable hFound).1.head,
        hIdent] at hBase
      have hObserve := @Attempts.Step.observe ι _ _
        (c.attempts ident) i
      unfold attempts at hObserve ⊢
      rw [observed_withObserved]
      dsimp only at hObserve
      rw [hBase] at hObserve ⊢
      exact hObserve
  | @push i builder operation hOpen =>
      refine ⟨?_, rfl⟩
      have hSame :
          { c with
            builders :=
              Attempts.withObserved c.builders i
                (some (builder.push operation)) }.attempts
            ident = c.attempts ident := by
        unfold attempts
        rw [observed_withObserved]
        congr 1
        funext j
        unfold Attempts.withObserved
        split
        · rename_i hAt
          rw [hAt, hOpen]
          rfl
        · rfl
      rw [hSame]
  | @commit i builder draws hOpen =>
      rcases commit_cases hInv.reachable
          (hInv.idents i builder hOpen) i draws with
        ⟨hConflicts, hCommits, hLength⟩ |
          ⟨hWorld, hCommits, hConflicts⟩
      · refine ⟨.single ?_, by omega⟩
        rw [attempts_commit, hConflicts, hCommits]
        exact .succeed
      · refine ⟨.single ?_, by rw [hWorld, hCommits]⟩
        rw [attempts_commit, hWorld, hCommits]
        rcases hConflicts with hSame | ⟨hMore, hMoved⟩
        · rw [hSame]
          exact .abandon
        · rw [hMore]
          refine .conflict ?_ hMoved
          dsimp only [attempts]
          rw [hOpen]
          rfl
  | @others w hStep hSame =>
      refine ⟨?_, by rw [hSame]⟩
      have hNone : { c with world := w }.attempts ident =
          c.attempts ident := by
        unfold attempts tableHistory
        rw [hSame]
      rw [hNone]

/-
  The clients always make progress together: in any run each
  successful commit causes at most one conflict for each of
  the other clients, and the successful commits are the new
  calls of the table.
-/
theorem conflicts_le
    [Fintype ι]
    {w : World}
    (hReach : w.Reachable ext)
    (hSteps :
      Relation.ReflTransGen (Step ext ident)
        { world := w, builders := fun _ => none } c) :
    c.conflicts ≤ (Fintype.card ι - 1) * c.commits ∧
      (tableCalls c.world.calls ident).length =
        (tableCalls w.calls ident).length + c.commits := by
  have hAll :
      c.Inv ext ident ∧
        Relation.ReflTransGen Attempts.Step
          (attempts ident
            { world := w
              builders := fun _ : ι => none })
          (c.attempts ident) ∧
        (tableCalls c.world.calls ident).length =
          (tableCalls w.calls ident).length +
            c.commits := by
    induction hSteps with
    | refl => exact ⟨⟨hReach, nofun⟩, .refl, rfl⟩
    | tail _ hStep ih =>
        rcases ih with ⟨hInv, hRun, hLength⟩
        rcases hInv.simulates hStep with ⟨hMore, hCount⟩
        exact ⟨hInv.step hStep, hRun.trans hMore, by omega⟩
  exact ⟨Attempts.conflicts_bounded rfl rfl hAll.2.1, hAll.2.2⟩

end Clients

------------------------------------------------------------
-- Two Sample Clients
------------------------------------------------------------

/- Two clients start from the created table. -/
def sampleClients : Clients Bool :=
  { world := samplePast 1, builders := fun _ => none }

/- The builder of both, with one operation. -/
def sampleBuilder : MutationBuilder :=
  .new sampleCatalog sampleIdent 1

/- Both pin builders to the head; one of them is faster. -/
def sampleClientRace : Clients Bool :=
  let opened : Clients Bool :=
    { sampleClients with
      builders := Attempts.withObserved
        (Attempts.withObserved sampleClients.builders true
          (some sampleBuilder)) false
            (some sampleBuilder) }
  let pushed (c : Clients Bool) (i : Bool) : Clients Bool :=
    { c with
      builders := Attempts.withObserved c.builders i
        (some (sampleBuilder.push (.deleteFiles []))) }
  let builder := sampleBuilder.push (.deleteFiles [])
  let both := pushed (pushed opened true) false
  (both.commit sampleExternal false builder
    (sampleDraws 2)).commit sampleExternal true builder
      (sampleDraws 3)

theorem conflicts_le_sample :
    sampleClientRace.conflicts ≤
        (Fintype.card Bool - 1) * sampleClientRace.commits ∧
      (tableCalls sampleClientRace.world.calls
          sampleIdent).length =
        (tableCalls (samplePast 1).calls
          sampleIdent).length + sampleClientRace.commits := by
  have hWrite :
      (sampleHandle.write none).exec
        (samplePast 1).database = .ok sampleBuilder := by
    decide +kernel
  refine Clients.conflicts_le (World.reachable_run ..) ?_
  refine .tail (.tail (.tail (.tail (.tail (.tail .refl
    (.write rfl hWrite)) (.write rfl hWrite))
      (.push rfl)) (.push rfl)) (.commit rfl))
        (.commit rfl)

/- The slower client has met its conflict. -/
example :
    sampleClientRace.conflicts = 1 ∧ sampleClientRace.commits = 1 := by
  decide +kernel

end Planar
