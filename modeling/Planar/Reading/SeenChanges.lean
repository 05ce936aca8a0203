import Planar.Foundations.KeyedLists
import Planar.Reading.RangeChanges

/-
  The events of a listing that interleaves with commits take
  the files before its range to those past it, too.

  Main declarations:
    * `SeenPast`, `History.Lists`
    * `takes_seen`
    * `netOf_seen`, `perm_listed`
    * `World.Inv.seenRange`, `World.Inv.lists_of_readTable`,
      `World.Inv.lists_of_diff`
-/

------------------------------------------------------------
-- Databases That Hold a Past
------------------------------------------------------------

namespace Planar

/-
  What is seen holds a past of the table, and no more than
  the whole history has.
-/
def SeenPast
    (ext : External)
    (tableUuid : Uuid)
    (whole past : History)
    (Seen : Database → Prop) : Prop :=
  ∀ db, Seen db → ∃ later,
    Holds ext db tableUuid (past ++ later) ∧
    (past ++ later).IsPrefix whole

/- The file is one that the history appended. -/
def History.Lists
    (h : History)
    (file : File) : Prop :=
  file.listed ∈ h.appended.map FileContents.listed

variable
  {ext : External}
  {kind : DbKind}
  {tableUuid : Uuid}
  {whole past range : History}
  {Seen : Database → Prop}
  {e : Entry}

theorem SeenPast.early
    {first : History}
    (hPast : SeenPast ext tableUuid whole past Seen)
    (hFirst : first.IsPrefix past) :
    SeenPast ext tableUuid whole first Seen := by
  intro db hDb
  rcases hPast db hDb with ⟨later, hHolds, hWhole⟩
  rcases hFirst with ⟨rest, rfl⟩
  rw [List.append_assoc] at hHolds hWhole
  exact ⟨_, hHolds, hWhole⟩

theorem SeenPast.after
    (hPast :
      SeenPast ext tableUuid whole (past ++ [e]) Seen) :
    SeenAfter ext tableUuid past e Seen := by
  intro db hDb
  rcases hPast db hDb with ⟨later, hHolds, _⟩
  rw [List.append_assoc, List.singleton_append] at hHolds
  exact ⟨later, hHolds⟩

theorem ReadsBack.early
    {first : History}
    (hReads : ReadsBack ext whole)
    (hFirst : first.IsPrefix whole) :
    ReadsBack ext first := by
  rcases hFirst with ⟨rest, rfl⟩
  exact hReads.past

/- Rows of what a history appended decode to its files. -/
theorem lists_of_decoded
    {items : List (Stamped FileContents TxnId)}
    {files : List File}
    (hItems : ∀ s ∈ items, s.item ∈ past.appended)
    (hReads : ReadsBack ext past)
    (hOk :
      decodeFiles ext
        (items.map (stampedRow ext tableUuid)) =
          .ok files) :
    ∀ f ∈ files, past.Lists f := by
  rw [decodeFiles_stampedRows ?_ hOk]
  · intro f hFile
    rcases List.mem_map.mp hFile with ⟨s, hs, rfl⟩
    exact List.mem_map_of_mem (hItems s hs)
  · intro s hs
    rcases List.mem_flatMap.mp (hItems s hs) with
      ⟨e, hEntry, hIn⟩
    exact hReads.files e hEntry s.item hIn

theorem History.mem_appended_of_filter
    {h : History}
    {p : Stamped FileContents TxnId → Bool} :
    ∀ s ∈ (stampLog h.fileLog).filter p,
      s.item ∈ h.appended := by
  intro s hs
  rw [← History.items_fileLog]
  exact List.mem_map_of_mem (List.mem_of_mem_filter hs)

theorem History.Lists.of_early
    {file : File}
    (hLists : past.Lists file)
    (hWhole : past.IsPrefix whole) :
    whole.Lists file := by
  rcases hWhole with ⟨more, rfl⟩
  rw [History.Lists, History.appended_append,
    List.map_append]
  exact List.mem_append_left _ hLists

/- The changed files are those that the history appended. -/
theorem ChangesSeen.lists
    {t : TxnId}
    {changeKind : TxnFileChangeKind}
    {files : List File}
    (hSeen :
      ChangesSeen ext tableUuid Seen t changeKind files)
    (hPast : SeenPast ext tableUuid whole past Seen)
    (hReads : ReadsBack ext whole) :
    ∀ f ∈ files, whole.Lists f := by
  intro f hFile
  rcases hSeen.seen with ⟨db, hDb, decoded, hOk, hPerm⟩
  rcases hPast db hDb with ⟨later, hHolds, hWhole⟩
  rw [hHolds.changedFiles_eq] at hOk
  exact (lists_of_decoded History.mem_appended_of_filter
    (hReads.early hWhole) hOk f
    (hPerm.mem_iff.mp hFile)).of_early hWhole

------------------------------------------------------------
-- The Changes of an Entry
------------------------------------------------------------

/- The changes of a range, read in whatever databases. -/
structure RangeTakes
    (whole past range : History)
    (changes : List TxnFileChange) : Prop where
  takes :
    Takes {k | k ∈ past.fileUuids}
      {k | k ∈ History.fileUuids (past ++ range)} changes
  added : ∀ k, AddedIn changes k →
    k ∈ range.appended.map FileContents.fileUuid
  files : ∀ change ∈ changes, whole.Lists change.file

theorem EventSeen.rangeTakes
    {event : TxnEvent}
    (hSeen :
      EventSeen ext kind tableUuid Seen e.transactionId
        event)
    (hPast :
      SeenPast ext tableUuid whole (past ++ [e]) Seen)
    (hReads : ReadsBack ext whole) :
    RangeTakes whole past [e] event.fileChanges := by
  rcases hSeen.fileChanges with
    ⟨added, removed, hAdded, hRemoved, hChanges⟩
  have hAfter := hPast.after
  rw [hChanges]
  constructor
  case takes =>
    rcases hAdded.seen with ⟨db, hDb, _⟩
    rcases hAfter db hDb with ⟨later, hHolds⟩
    exact takes_entry hHolds (hAdded.uuids hAfter)
      (hRemoved.uuids hAfter)
  case added =>
    intro k hIn
    rw [addedIn_append, addedIn_changesOf,
      addedIn_changesOf] at hIn
    rw [History.appended_singleton]
    rcases hIn with ⟨_, hIn⟩ | ⟨hKind, _⟩
    · exact (hAdded.uuids hAfter).mem_iff.mp hIn
    · cases hKind
  case files =>
    intro change hChange
    rcases List.mem_append.mp hChange with hIn | hIn
    · rcases List.mem_map.mp hIn with ⟨f, hFile, rfl⟩
      exact hAdded.lists hPast hReads f hFile
    · rcases List.mem_map.mp hIn with ⟨f, hFile, rfl⟩
      exact hRemoved.lists hPast hReads f hFile

theorem RangeTakes.append
    {first second : History}
    {changes changes' : List TxnFileChange}
    (hFirst : RangeTakes whole past first changes)
    (hSecond :
      RangeTakes whole (past ++ first) second changes') :
    RangeTakes whole past (first ++ second)
      (changes ++ changes') where
  takes := by
    rw [← List.append_assoc]
    exact hFirst.takes.append hSecond.takes
  added k hIn := by
    rw [History.appended_append, List.map_append,
      List.mem_append]
    rcases (addedIn_append k).mp hIn with hIn | hIn
    · exact .inl (hFirst.added k hIn)
    · exact .inr (hSecond.added k hIn)
  files change hChange := by
    rcases List.mem_append.mp hChange with hIn | hIn
    · exact hFirst.files change hIn
    · exact hSecond.files change hIn

/- By induction on the range, one event after the other. -/
theorem takes_seen
    {events : List TxnEvent}
    (hSeen :
      List.Forall₂ (EventSeen ext kind tableUuid Seen)
        range.ids events)
    (hPast :
      SeenPast ext tableUuid whole (past ++ range) Seen)
    (hReads : ReadsBack ext whole) :
    RangeTakes whole past range
      (events.flatMap TxnEvent.fileChanges) := by
  induction range generalizing past events with
  | nil =>
      cases hSeen
      refine ⟨?_, ?_, nofun⟩
      · rw [List.append_nil]
        exact takes_nil _
      · rintro k ⟨change, hChange, _⟩
        cases hChange
  | cons e rest ih =>
      cases hSeen with
      | cons hEvent hRest =>
          have hNext :
              past ++ e :: rest = past ++ [e] ++ rest := by
            rw [List.append_assoc, List.singleton_append]
          rw [hNext] at hPast
          have hHere := hPast.early
            (List.prefix_append (past ++ [e]) rest)
          rw [List.flatMap_cons, ← List.singleton_append]
          exact (hEvent.rangeTakes hHere hReads).append
            (ih hRest hPast)

------------------------------------------------------------
-- Net Changes of a Range
------------------------------------------------------------

/- The net changes of a range are those past the range. -/
theorem netOf_seen
    {later : History}
    {events : List TxnEvent}
    (hSeen :
      List.Forall₂ (EventSeen ext kind tableUuid Seen)
        range.ids events)
    (hPast :
      SeenPast ext tableUuid whole (past ++ range) Seen)
    (hReads : ReadsBack ext whole)
    (hWhole : whole = past ++ range ++ later)
    (hNodup :
      (whole.appended.map FileContents.fileUuid).Nodup) :
    NetOf whole.Lists
      {k | k ∈ past.fileUuids}
      {k | k ∈ History.fileUuids (past ++ range)}
      ((events.flatMap TxnEvent.fileChanges).foldl
        projectChange {}) := by
  have hTakes := takes_seen hSeen hPast hReads
  refine hTakes.takes.netOf ?_ hTakes.files
  -- a UUID is appended once in the whole history
  intro k hAdded hIn
  rw [hWhole, History.appended_append, List.map_append]
    at hNodup
  have hFirst := (List.nodup_append.mp hNodup).1
  rw [History.appended_append, List.map_append] at hFirst
  exact (List.nodup_append.mp hFirst).2.2 k
    ((past.files_sublist.map _).subset hIn) k
    (hTakes.added k hAdded) rfl

/-
  Files that a history appended are given by their UUIDs,
  up to their order.
-/
theorem perm_listed
    {files : List File}
    {contents : List FileContents}
    (hNodup :
      (whole.appended.map FileContents.fileUuid).Nodup)
    (hLists : ∀ f ∈ files, whole.Lists f)
    (hContents : contents.Sublist whole.appended)
    (hFiles : (files.map File.fileUuid).Nodup)
    (hUuids : ∀ k, k ∈ files.map File.fileUuid ↔
      k ∈ contents.map FileContents.fileUuid) :
    (files.map File.listed).Perm
      (contents.map FileContents.listed) := by
  have hKeys (l : List File) :
      (l.map File.listed).map ListedFile.fileUuid =
        l.map File.fileUuid := by
    rw [List.map_map]
    rfl
  have hKeys' (l : List FileContents) :
      (l.map FileContents.listed).map ListedFile.fileUuid =
        l.map FileContents.fileUuid := by
    rw [List.map_map]
    rfl
  rw [← hKeys'] at hNodup
  rw [← hKeys] at hFiles
  apply KeyedLists.perm_of_keys hNodup
  case hFirst =>
    intro f hFile
    rcases List.mem_map.mp hFile with ⟨g, hg, rfl⟩
    exact hLists g hg
  case hSecond => exact (hContents.map _).subset
  case hNodup => exact hFiles
  case hNodup' =>
    exact hNodup.sublist ((hContents.map _).map _)
  case hKeys =>
    rw [hKeys, hKeys']
    exact hUuids

------------------------------------------------------------
-- Runs of Reads
------------------------------------------------------------

variable
  {catalog : SqlCatalog}
  {ident : TableIdent}
  {w w' : World}

/- What a listing has seen of its range, with what follows. -/
theorem World.Inv.seenRange
    {cursor : TxnRangeCursor}
    {w₁ : World}
    {events : List TxnEvent}
    (hInv : w.Inv ext)
    (hRuns :
      Query.Runs (World.Step ext) World.database w
        (listTransactionEvents ext catalog ident cursor)
        w₁ (.ok events))
    (hAfter : Relation.ReflTransGen (World.Step ext) w₁ w') :
    ∃ (tableUuid : Uuid) (before range later : History)
        (Seen : Database → Prop),
      w₁.history ident = before ++ range ++ later ∧
      before.ids.getLast? = cursor.fromExclusive ∧
      range.ids.getLast? = some cursor.toInclusive ∧
      Holds ext w'.database tableUuid
        (w'.history ident) ∧
      SeenPast ext tableUuid (w'.history ident)
        (before ++ range) Seen ∧
      List.Forall₂
        (EventSeen ext catalog.kind tableUuid Seen)
        range.ids events := by
  rcases runs_listTransactionEvents
    (fun _ _ hStep => hStep) hInv hRuns with
    ⟨w₂, row, before, range, later, h₂, h₁, hSeen⟩
  have hInv₂ := hInv.steps h₂
  rcases hInv₂.steps_history h₁ ident with ⟨more, hMore⟩
  have hHolds :=
    hInv₂.holds_later (h₁.trans hAfter) hSeen.found
  rw [hSeen.rowIdent] at hHolds
  refine ⟨row.tableUuid, before, range, later ++ more, _,
    ?_, hSeen.start, hSeen.stop, hHolds, ?_, hSeen.events⟩
  · rw [hMore, hSeen.split, List.append_assoc]
  · rintro _ ⟨x, hx, hx', rfl⟩
    rcases hInv₂.steps_history hx ident with
      ⟨grown, hGrown⟩
    rcases (hInv₂.steps hx).steps_history
      (hx'.trans hAfter) ident with ⟨grown', hGrown'⟩
    have hSplit : x.history ident =
        before ++ range ++ (later ++ grown) := by
      rw [hGrown, hSeen.split, List.append_assoc]
    have hThere := hInv₂.holds_later hx hSeen.found
    rw [hSeen.rowIdent, hSplit] at hThere
    refine ⟨_, hThere, ?_⟩
    rw [hGrown', hSplit]
    exact List.prefix_append ..

/- The files of a view are those that its table appended. -/
theorem World.Inv.lists_of_readTable
    {atTransactionId : Option TxnId}
    {view : TableView}
    (hInv : w.Inv ext)
    (hReads : ReadsBack ext (w'.history ident))
    (hRuns :
      Query.Runs (World.Step ext) World.database w
        (readTable ext catalog ident atTransactionId) w'
        (.ok view)) :
    ∀ f ∈ view.files, (w'.history ident).Lists f := by
  rcases runs_readTable (fun _ _ hStep => hStep) hInv hRuns
    with ⟨w₀, w₁, w₂, w₃, row, h₀, h₁, h₂, h₃, h', hSeen⟩
  have hInv₀ := hInv.steps h₀
  have hSteps := h₁.trans (h₂.trans h₃)
  have hHolds := hInv₀.holds_later hSteps hSeen.found
  rw [hSeen.rowIdent] at hHolds
  rcases (hInv₀.steps hSteps).steps_history h' ident with
    ⟨more, hMore⟩
  have hWhole : (w₃.history ident).IsPrefix
      (w'.history ident) := ⟨more, hMore.symm⟩
  rcases hSeen.files.decoded with ⟨decoded, hOk, hPerm⟩
  rw [hHolds.visibleFiles_eq] at hOk
  intro f hFile
  exact (lists_of_decoded History.mem_appended_of_filter
    (hReads.early hWhole) hOk f
    (hPerm.mem_iff.mp hFile)).of_early hWhole

/- So are the files of the events of a listing. -/
theorem World.Inv.lists_of_events
    {cursor : TxnRangeCursor}
    {w₁ : World}
    {events : List TxnEvent}
    (hInv : w.Inv ext)
    (hReads : ReadsBack ext (w'.history ident))
    (hRuns :
      Query.Runs (World.Step ext) World.database w
        (listTransactionEvents ext catalog ident cursor)
        w₁ (.ok events))
    (hAfter : Relation.ReflTransGen (World.Step ext) w₁ w') :
    ∀ change ∈ events.flatMap TxnEvent.fileChanges,
      (w'.history ident).Lists change.file := by
  rcases hInv.seenRange hRuns hAfter with
    ⟨tableUuid, before, range, later, Seen, _, _, _, _,
      hPast, hEvents⟩
  exact (takes_seen hEvents hPast hReads).files

/- And so are the files of a diff. -/
theorem World.Inv.lists_of_diff
    {s t : TxnId}
    {delta : TableDelta}
    (hInv : w.Inv ext)
    (hReads : ReadsBack ext (w'.history ident))
    (hRuns :
      Query.Runs (World.Step ext) World.database w
        (diffTable ext catalog ident s t) w' (.ok delta)) :
    ∀ f ∈ delta.addedFiles ++ delta.removedFiles,
      (w'.history ident).Lists f := by
  rcases Query.runs_bind_ok hRuns with
    ⟨w₁, events, hList, hRest₁⟩
  have hFiles := hInv.lists_of_events hReads hList
    hRest₁.steps
  rcases Query.runs_bind_ok hRest₁ with
    ⟨w₂, fromView, _, hRest₂⟩
  rcases Query.runs_bind_ok hRest₂ with
    ⟨w₃, toView, _, hRest₃⟩
  rcases Query.runs_pure_ok hRest₃ with ⟨rfl, _⟩
  have hValues := @forall_entries_foldl
    (events.flatMap TxnEvent.fileChanges) {}
    (fun p => (w'.history ident).Lists p.2) hFiles
    (fun p hp => by cases hp) (fun p hp => by cases hp)
  intro f hFile
  rcases List.mem_append.mp hFile with hIn | hIn
  · rcases List.mem_map.mp hIn with ⟨p, hp, rfl⟩
    exact hValues.1 p hp
  · rcases List.mem_map.mp hIn with ⟨p, hp, rfl⟩
    exact hValues.2 p hp

end Planar
