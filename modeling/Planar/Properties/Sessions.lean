import Planar.Properties.Handles
import Planar.Properties.Interleaving

/-
  What one client observes of a table, call after call,
  while others write to it.

  Main declarations:
    * `World.Inv.readMoment`
    * `Observation`, `Session`
    * `Observation.At`, `Moments`
    * `Session.observes`
-/

------------------------------------------------------------
-- The Moment of a Read
------------------------------------------------------------

namespace Planar

variable
  {ext : External}
  {catalog : SqlCatalog}
  {ident : TableIdent}
  {w w' : World}

/- A view of the head shows all that a history leaves. -/
structure TableView.ShowsAll
    (view : TableView)
    (h : History) : Prop where
  head : h.ids.getLast? = some view.transactionId
  shows : view.Shows h
  properties : view.properties = h.properties

/-
  A read that interleaves with writes shows the table as it
  is at one moment between the beginning and the end.
-/
theorem World.Inv.readMoment
    {view : TableView}
    (hInv : w.Inv ext)
    (hOrdered : w'.Ordered)
    (hReads : ReadsBack ext (w'.history ident))
    (hRuns :
      Query.Runs (World.Step ext) World.database w
        (readTable ext catalog ident none) w' (.ok view)) :
    ∃ w₀, Relation.ReflTransGen (World.Step ext) w w₀ ∧
      Relation.ReflTransGen (World.Step ext) w₀ w' ∧
      view.ShowsAll (w₀.history ident) := by
  rcases runs_readTable (fun _ _ hStep => hStep) hInv hRuns
    with ⟨w₀, w₁, w₂, w₃, row, h₀, h₁, h₂, h₃, h', hSeen⟩
  have hInv₀ := hInv.steps h₀
  have hAfter := h₁.trans (h₂.trans (h₃.trans h'))
  rcases hInv₀.steps_history hAfter ident with
    ⟨more, hMore⟩
  rw [hMore] at hReads
  rcases History.exists_split hSeen.member with
    ⟨past, later, hSplit, hLast⟩
  have hHead := hSeen.current hInv₀ hSplit hLast
  rw [hHead, List.append_nil] at hSplit
  have hShows := hSeen.shows hInv₀ h₁ h₂ h₃ h' hOrdered
    hReads.past (hSplit.trans (List.append_nil past).symm)
    hLast
  have hTracked := hInv₀.tracked row hSeen.found
  rw [hSeen.rowIdent] at hTracked
  rw [← hSplit] at hLast hShows
  exact ⟨w₀, h₀, hAfter, hLast, hShows,
    hTracked.readProperties hSeen.properties hReads.past⟩

------------------------------------------------------------
-- Sessions
------------------------------------------------------------

/- What a client observes: a view, or its own commit. -/
inductive Observation where
  | read (view : TableView)
  | wrote (call : CommitCall) (result : CommitResult)

/-
  The states of a world and what one client has observed of
  a table.  Its reads and commits follow one another; others
  write at any time, also between the queries of a read.
  Calls of its own that fail are steps of the world, too.
-/
inductive Session
    (ext : External)
    (catalog : SqlCatalog)
    (ident : TableIdent) : World → List Observation → Prop
  | start {w : World}
      (hReach : w.Reachable ext) :
      Session ext catalog ident w []
  | write {w w' : World} {observed : List Observation}
      (hSession : Session ext catalog ident w observed)
      (hStep : w.Step ext w') :
      Session ext catalog ident w' observed
  | read {w w' : World} {observed : List Observation}
      {view : TableView}
      (hSession : Session ext catalog ident w observed)
      (hRuns :
        Query.Runs (World.Step ext) World.database w
          (readTable ext catalog ident none) w'
          (.ok view)) :
      Session ext catalog ident w'
        (observed ++ [.read view])
  | commit {w : World} {observed : List Observation}
      {call : CommitCall} {r : CommitResult}
      (hSession : Session ext catalog ident w observed)
      (hIdent : call.ident = ident)
      (hOk :
        (Planar.commit ext call.catalog call.ident call.base
          call.mutation call.draws w.database).1 = .ok r) :
      Session ext catalog ident
        (w.perform ext (.commit call))
        (observed ++ [.wrote call r])

theorem Session.reachable
    {observed : List Observation}
    (hSession : Session ext catalog ident w observed) :
    w.Reachable ext := by
  induction hSession with
  | start hReach => exact hReach
  | write _ hStep ih => exact .tail ih hStep
  | read _ hRuns ih => exact ih.trans hRuns.steps
  | commit _ _ _ ih => exact .tail ih (.inl ⟨_, rfl⟩)

------------------------------------------------------------
-- What a Session Observes
------------------------------------------------------------

/-
  The observation is made at one moment, where the history
  of the table goes from the first to the second: a read
  shows all of it and adds nothing; a commit is based on its
  end and adds one entry.
-/
inductive Observation.At :
    Observation → History → History → Prop
  | read {view : TableView} {h : History}
      (hShows : view.ShowsAll h) :
      At (.read view) h h
  | wrote {call : CommitCall} {r : CommitResult}
      {h : History}
      (hBase : h.ids.getLast? = some call.base)
      (hResult : r.transactionId =
        (Call.commit call).entry.transactionId) :
      At (.wrote call r) h
        (h ++ [(Call.commit call).entry])

/-
  The observations are made one after the other: each of
  them starts from a history that has all that the earlier
  ones have shown and added.
-/
structure Moments
    (observed : List Observation)
    (moments : List (History × History))
    (h : History) : Prop where
  observed :
    List.Forall₂ (fun o m => o.At m.1 m.2) observed moments
  ordered : moments.Pairwise fun m n => m.2.IsPrefix n.1
  past : ∀ m ∈ moments, m.2.IsPrefix h

theorem Moments.append
    {observed : List Observation}
    {moments : List (History × History)}
    {h : History}
    (hMoments : Moments observed moments h)
    (more : History) :
    Moments observed moments (h ++ more) where
  observed := hMoments.observed
  ordered := hMoments.ordered
  past m hm :=
    (hMoments.past m hm).trans (List.prefix_append h more)

/- One more observation, made after the others. -/
theorem Moments.concat
    {observed : List Observation}
    {moments : List (History × History)}
    {o : Observation}
    {h h₁ h₂ : History}
    (hMoments : Moments observed moments h)
    (hAt : o.At h₁ h₂)
    (hBefore : h.IsPrefix h₁) :
    Moments (observed ++ [o]) (moments ++ [(h₁, h₂)]) h₂ := by
  have hAdds : h₁.IsPrefix h₂ := by
    cases hAt with
    | read _ => exact List.prefix_rfl
    | wrote _ _ => exact List.prefix_append ..
  constructor
  case observed =>
    exact List.rel_append hMoments.observed
      (.cons hAt .nil)
  case ordered =>
    rw [List.pairwise_append]
    refine ⟨hMoments.ordered, List.pairwise_singleton .., ?_⟩
    intro m hm n hn
    rw [List.mem_singleton] at hn
    subst hn
    exact (hMoments.past m hm).trans hBefore
  case past =>
    intro m hm
    rcases List.mem_append.mp hm with hOld | hNew
    · exact ((hMoments.past m hOld).trans hBefore).trans
        hAdds
    · rw [List.mem_singleton] at hNew
      subst hNew
      exact List.prefix_rfl

/-
  A client never observes the table going back: its reads
  and commits are made at moments of the one history of the
  table, in the order in which it makes them.  So a read
  shows all that an earlier read has shown and all that the
  client has committed before, and a commit is made on top
  of all that it has observed.
-/
theorem Session.observes
    {observed : List Observation}
    (hSession : Session ext catalog ident w observed)
    (hOrdered : w.Ordered)
    (hReads : ReadsBack ext (w.history ident)) :
    ∃ moments, Moments observed moments
      (w.history ident) := by
  induction hSession with
  | start _ => exact ⟨[], .nil, .nil, nofun⟩
  | @write w w' observed hSession hStep ih =>
      have hInv := hSession.reachable.inv
      rcases hInv.steps_history (.single hStep) ident with
        ⟨more, hMore⟩
      rw [hMore] at hReads ⊢
      rcases ih (hOrdered.before hInv (.single hStep))
          hReads.past with ⟨moments, hMoments⟩
      exact ⟨moments, hMoments.append more⟩
  | @read w w' observed view hSession hRuns ih =>
      have hInv := hSession.reachable.inv
      rcases hInv.readMoment hOrdered hReads hRuns with
        ⟨w₀, hBefore, hAfter, hShows⟩
      rcases hInv.steps_history hBefore ident with
        ⟨more, hMore⟩
      rcases (hInv.steps hBefore).steps_history hAfter ident
        with ⟨more', hMore'⟩
      rw [hMore', hMore] at hReads
      rcases ih (hOrdered.before hInv hRuns.steps)
          hReads.past.past with ⟨moments, hMoments⟩
      have hFirst : (w.history ident).IsPrefix
          (w₀.history ident) := by
        rw [hMore]
        exact List.prefix_append ..
      rw [hMore']
      exact ⟨_, (hMoments.concat (.read hShows)
        hFirst).append more'⟩
  | @commit w observed call r hSession hIdent hOk ih =>
      subst hIdent
      have hReach := hSession.reachable
      have hCalls := World.calls_perform_commit hOk
      have hNext :
          (w.perform ext (.commit call)).history
              call.ident =
            w.history call.ident ++
              [(Call.commit call).entry] := by
        change tableHistory
          (w.perform ext (.commit call)).calls _ = _
        rw [hCalls]
        exact tableHistory_concat_self w.calls
          (.commit call)
      have hResult : r.transactionId =
          (Call.commit call).entry.transactionId := by
        have hPair : Planar.commit ext call.catalog
            call.ident call.base call.mutation call.draws
            w.database = (.ok r, (Planar.commit ext
              call.catalog call.ident call.base
              call.mutation call.draws w.database).2) := by
          rw [← hOk]
        rw [(commit_ok hPair).1]
        rfl
      rw [hNext] at hReads ⊢
      rcases ih
          (hOrdered.before hReach.inv
            (.single (.inl ⟨_, rfl⟩)))
          hReads.past with ⟨moments, hMoments⟩
      exact ⟨_, hMoments.concat
        (.wrote (hReach.base_of_ok hOk) hResult)
        List.prefix_rfl⟩

/- A commit of the client between two of its reads. -/
def sampleWrite : CommitCall :=
  { catalog := sampleCatalog
    ident := sampleIdent
    base := 1
    mutation := ⟨[.appendFiles [sampleFile]]⟩
    draws := sampleDraws 2 }

def sampleWritten : World :=
  (samplePast 1).perform sampleExternal
    (.commit sampleWrite)

theorem observes_sample :
    ∃ view r view' moments,
      Moments
        [.read view, .wrote sampleWrite r, .read view']
        moments (sampleWritten.history sampleIdent) := by
  have hRead :
      ((readTable sampleExternal sampleCatalog sampleIdent
        none).exec (samplePast 1).database).isOk =
          true := by
    decide +kernel
  have hWrite :
      (Planar.commit sampleExternal sampleWrite.catalog
        sampleWrite.ident sampleWrite.base
        sampleWrite.mutation sampleWrite.draws
        (samplePast 1).database).1.isOk = true := by
    decide +kernel
  have hReread :
      ((readTable sampleExternal sampleCatalog sampleIdent
        none).exec sampleWritten.database).isOk = true := by
    decide +kernel
  rcases exists_of_isOk hRead with ⟨view, hView⟩
  rcases exists_of_isOk hWrite with ⟨r, hOk⟩
  rcases exists_of_isOk hReread with ⟨view', hView'⟩
  have hStart : Session sampleExternal sampleCatalog
      sampleIdent (samplePast 1) [] :=
    .start (World.reachable_run ..)
  have hFirst := hStart.read
    (hView ▸ Query.runs_exec (samplePast 1) _)
  have hSecond := hFirst.commit rfl hOk
  have hThird := hSecond.read
    (hView' ▸ Query.runs_exec sampleWritten _)
  exact ⟨view, r, view', Session.observes hThird
    (by decide +kernel) (by decide +kernel)⟩

end Planar
