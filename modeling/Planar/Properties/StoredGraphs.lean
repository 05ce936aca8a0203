import Planar.Catalog.Events
import Planar.Foundations.PointerWalk
import Mathlib.Data.Fintype.Card

/-
  The walks over the parents of transactions, on whatever
  rows the database has.

  Main declarations:
    * `Database.parentLink`
    * `historyBody`, `pathBody`
    * `HistoryWalkExact`, `RangeWalkExact`
    * `Database.walks_exact`
-/

------------------------------------------------------------
-- One Iteration of Each Walk
------------------------------------------------------------

namespace Planar

/- Where the row of a transaction of the table points. -/
def Database.parentLink
    (db : Database)
    (tableUuid : Uuid)
    (transactionId : TxnId) : Option (Option TxnId) :=
  (db.findTransaction tableUuid transactionId).map
    (·.parentTransactionId)

/- One iteration of the walk of `readTable`. -/
def historyBody
    (db : Database)
    (tableUuid : Uuid)
    (target : TxnId) :
    List TxnId × TxnId →
      (List TxnId × TxnId) ⊕ Result Bool
| (visited, cursor) =>
    if cursor ∈ visited then
      .inr (fault (.invalidArgument
        "transaction parent chain contains a cycle"))
    else if cursor = target then .inr (.ok true)
    else
      match db.parentLink tableUuid cursor with
      | none =>
          .inr (fault (.invalidArgument
            "table transaction chain is broken"))
      | some none => .inr (.ok false)
      | some (some parent) =>
          .inl (cursor :: visited, parent)

/- One iteration of the walk of `listTransactionEvents`. -/
def pathBody
    (db : Database)
    (tableUuid : Uuid)
    (fromExclusive : Option TxnId) :
    List TxnId × TxnId →
      (List TxnId × TxnId) ⊕ Result (List TxnId × Bool)
| (path, cursor) =>
    if cursor ∈ path then
      .inr (fault (.invalidArgument
        "transaction parent chain contains a cycle"))
    else
      match db.parentLink tableUuid cursor with
      | none =>
          .inr (fault (.invalidArgument
            "requested transaction does not exist for table"))
      | some parent =>
          if (cursor :: path).length >
              maxTransactionsPerScan then
            .inr (fault (.limitExceeded
              ("transaction scan exceeds limit of " ++
                s!"{maxTransactionsPerScan}")))
          else
            match parent with
            | none =>
                .inr (.ok
                  (cursor :: path, fromExclusive.isNone))
            | some parent =>
                if some parent = fromExclusive then
                  .inr (.ok (cursor :: path, true))
                else .inl (cursor :: path, parent)

variable {db : Database}
variable {tableUuid : Uuid}
variable {fromExclusive : Option TxnId}
variable {target cursor head : TxnId}
variable {visited path ids : List TxnId}

theorem exec_walkHistory_succ
    (fuel : Nat)
    (s : List TxnId × TxnId) :
    Query.exec db
        (walkHistory tableUuid target (fuel + 1)
          s.1 s.2) =
      Sum.elim
        (fun s' => Query.exec db
          (walkHistory tableUuid target fuel s'.1 s'.2))
        id
        (historyBody db tableUuid target s) := by
  rcases s with ⟨visited, cursor⟩
  simp only [walkHistory, historyBody]
  by_cases hSeen : cursor ∈ visited
  · rw [if_pos hSeen, if_pos hSeen]
    rfl
  rw [if_neg hSeen, if_neg hSeen]
  by_cases hTarget : cursor = target
  · rw [if_pos hTarget, if_pos hTarget]
    rfl
  rw [if_neg hTarget, if_neg hTarget]
  unfold Database.parentLink
  rw [Query.exec_bind, Query.exec_fetch]
  cases db.findTransaction tableUuid cursor with
  | none => rfl
  | some row =>
      change Query.exec db
        (match row.parentTransactionId with
          | none => pure false
          | some parent => _) = _
      simp only [Option.map_some]
      cases row.parentTransactionId with
      | none => rfl
      | some parent => rfl

/- The recursion with fuel runs the iterations. -/
theorem exec_walkHistory_of_stops
    {s : List TxnId × TxnId}
    {n fuel : Nat}
    {r : Result Bool}
    (hStops : Stops (historyBody db tableUuid target) n s r)
    (hFuel : n ≤ fuel) :
    Query.exec db
        (walkHistory tableUuid target fuel s.1 s.2) = r := by
  induction hStops generalizing fuel with
  | last hBody =>
      rcases Nat.exists_eq_add_of_le' hFuel with ⟨less, rfl⟩
      rw [exec_walkHistory_succ, hBody]
      rfl
  | next hBody hRest ih =>
      rcases Nat.exists_eq_add_of_le' hFuel with ⟨less, rfl⟩
      rw [← Nat.add_assoc, exec_walkHistory_succ, hBody]
      exact ih (Nat.le_add_left _ _)

theorem exec_collectPath_eq
    (s : List TxnId × TxnId) :
    Query.exec db
        (collectPath tableUuid fromExclusive
          (maxTransactionsPerScan - s.1.length) s.1 s.2) =
      Sum.elim
        (fun s' => Query.exec db
          (collectPath tableUuid fromExclusive
            (maxTransactionsPerScan - s'.1.length)
            s'.1 s'.2))
        id
        (pathBody db tableUuid fromExclusive s) := by
  rcases s with ⟨path, cursor⟩
  simp only [pathBody, List.length_cons]
  conv_lhs => unfold collectPath
  by_cases hSeen : cursor ∈ path
  · rw [if_pos hSeen, if_pos hSeen]
    rfl
  rw [if_neg hSeen, if_neg hSeen, Query.exec_bind,
    Query.exec_fetch]
  unfold Database.parentLink
  cases db.findTransaction tableUuid cursor with
  | none => rfl
  | some row =>
      simp only [Option.map_some]
      cases hRoom : maxTransactionsPerScan - path.length with
      | zero =>
          have hFull :
              path.length + 1 > maxTransactionsPerScan := by
            omega
          rw [if_pos hFull]
          rfl
      | succ remaining =>
          have hFits :
              ¬ path.length + 1 > maxTransactionsPerScan := by
            omega
          have hLess :
              maxTransactionsPerScan - (path.length + 1) =
                remaining := by
            omega
          rw [if_neg hFits]
          change Query.exec db
            (match row.parentTransactionId with
              | none => _
              | some parent => _) = _
          cases row.parentTransactionId with
          | none => rfl
          | some parent =>
              by_cases hStop : some parent = fromExclusive
              · simp only [if_pos hStop]
                rfl
              · simp only [if_neg hStop]
                rw [← hLess]
                rfl

theorem exec_collectPath_of_stops
    {s : List TxnId × TxnId}
    {n : Nat}
    {r : Result (List TxnId × Bool)}
    (hStops :
      Stops (pathBody db tableUuid fromExclusive) n s r) :
    Query.exec db
        (collectPath tableUuid fromExclusive
          (maxTransactionsPerScan - s.1.length) s.1 s.2) =
      r := by
  induction hStops with
  | last hBody =>
      rw [exec_collectPath_eq, hBody]
      rfl
  | next hBody _ ih =>
      rw [exec_collectPath_eq, hBody]
      exact ih

------------------------------------------------------------
-- The Number of Iterations
------------------------------------------------------------

/- A transaction with a row is one of the table's. -/
theorem Database.mem_transactionsOf_of_parentLink
    {t : TxnId}
    {parent : Option TxnId}
    (hRow : db.parentLink tableUuid t = some parent) :
    t ∈ (db.transactionsOf tableUuid).map
      (·.transactionId) := by
  rcases Option.map_eq_some_iff.mp hRow with
    ⟨row, hFind, _⟩
  have hTest := List.find?_some hFind
  rw [Bool.and_eq_true, decide_eq_true_iff,
    decide_eq_true_iff] at hTest
  apply List.mem_map.mpr
  refine ⟨row, ?_, hTest.2⟩
  apply List.mem_filter.mpr
  exact ⟨List.mem_of_find?_eq_some hFind,
    decide_eq_true hTest.1⟩

/- What the states of both walks keep. -/
structure Visiting
    (db : Database)
    (tableUuid : Uuid)
    (start : TxnId)
    (s : List TxnId × TxnId) : Prop where
  walked :
    Walked (db.parentLink tableUuid) start s.1 s.2
  nodup : s.1.Nodup

namespace Visiting

variable {start : TxnId}
variable {s s' : List TxnId × TxnId}

theorem initial
    (db : Database)
    (tableUuid : Uuid)
    (start : TxnId) :
    Visiting db tableUuid start ([], start) :=
  ⟨.start, List.nodup_nil⟩

/- The visited transactions are distinct and have rows. -/
theorem length_le
    (hVisiting : Visiting db tableUuid start s) :
    s.1.length ≤ (db.transactionsOf tableUuid).length := by
  have hSub : s.1 ⊆
      (db.transactionsOf tableUuid).map
        (·.transactionId) := by
    intro t hMem
    rcases hVisiting.walked.linked hMem with ⟨b, hLink⟩
    exact Database.mem_transactionsOf_of_parentLink hLink
  calc s.1.length
      ≤ ((db.transactionsOf tableUuid).map
          (·.transactionId)).length :=
        (hVisiting.nodup.subperm hSub).length_le
    _ = (db.transactionsOf tableUuid).length :=
        List.length_map _

/- There are fewer transactions than the fuel allows. -/
theorem length_le_card
    (hVisiting : Visiting db tableUuid start s) :
    s.1.length ≤ 2 ^ 128 := by
  have hCard := hVisiting.nodup.length_le_card
  rwa [Fintype.card_fin] at hCard

/- Both walks go on from a new transaction to its parent. -/
theorem next
    (hVisiting : Visiting db tableUuid start s)
    (hNew : s.2 ∉ s.1)
    {parent : TxnId}
    (hLink :
      Links (db.parentLink tableUuid) s.2 parent) :
    Visiting db tableUuid start (s.2 :: s.1, parent) :=
  ⟨hVisiting.walked.step hLink,
    List.nodup_cons.mpr ⟨hNew, hVisiting.nodup⟩⟩

end Visiting

theorem historyBody_next
    {s s' : List TxnId × TxnId}
    (hBody : historyBody db tableUuid target s = .inl s') :
    s.2 ∉ s.1 ∧
      s.2 ≠ target ∧
      ∃ parent,
        Links (db.parentLink tableUuid) s.2 parent ∧
          s' = (s.2 :: s.1, parent) := by
  rcases s with ⟨visited, cursor⟩
  simp only [historyBody] at hBody
  by_cases hSeen : cursor ∈ visited
  · rw [if_pos hSeen] at hBody
    cases hBody
  by_cases hTarget : cursor = target
  · rw [if_neg hSeen, if_pos hTarget] at hBody
    cases hBody
  rw [if_neg hSeen, if_neg hTarget] at hBody
  cases hLink : db.parentLink tableUuid cursor with
  | none =>
      rw [hLink] at hBody
      cases hBody
  | some parent =>
      rw [hLink] at hBody
      cases parent with
      | none => cases hBody
      | some parent =>
          exact ⟨hSeen, hTarget, parent, hLink,
            (Sum.inl.inj hBody).symm⟩

theorem pathBody_next
    {s s' : List TxnId × TxnId}
    (hBody :
      pathBody db tableUuid fromExclusive s = .inl s') :
    s.2 ∉ s.1 ∧
      ∃ parent,
        Links (db.parentLink tableUuid) s.2 parent ∧
          s' = (s.2 :: s.1, parent) := by
  rcases s with ⟨path, cursor⟩
  simp only [pathBody] at hBody
  by_cases hSeen : cursor ∈ path
  · rw [if_pos hSeen] at hBody
    cases hBody
  rw [if_neg hSeen] at hBody
  cases hLink : db.parentLink tableUuid cursor with
  | none =>
      rw [hLink] at hBody
      cases hBody
  | some parent =>
      rw [hLink] at hBody
      dsimp only at hBody
      by_cases hFull :
          (cursor :: path).length > maxTransactionsPerScan
      · rw [if_pos hFull] at hBody
        cases hBody
      rw [if_neg hFull] at hBody
      cases parent with
      | none => cases hBody
      | some parent =>
          dsimp only at hBody
          by_cases hStop : some parent = fromExclusive
          · rw [if_pos hStop] at hBody
            cases hBody
          · rw [if_neg hStop] at hBody
            exact ⟨hSeen, parent, hLink,
              (Sum.inl.inj hBody).symm⟩

------------------------------------------------------------
-- The Walk of `readTable`
------------------------------------------------------------

/- The walk ends soon, and well before its fuel. -/
theorem historyBody_stops
    (db : Database)
    (tableUuid : Uuid)
    (head target : TxnId) :
    ∃ n r,
      n ≤ (db.transactionsOf tableUuid).length + 1 ∧
        n ≤ walkFuel ∧
        Stops (historyBody db tableUuid target) n
          ([], head) r := by
  have hStep : ∀ s s', Visiting db tableUuid head s →
      historyBody db tableUuid target s = .inl s' →
        Visiting db tableUuid head s' ∧
          s'.1.length = s.1.length + 1 := by
    intro s s' hVisiting hBody
    rcases historyBody_next hBody with
      ⟨hNew, _, parent, hLink, rfl⟩
    exact ⟨hVisiting.next hNew hLink, List.length_cons⟩
  have hBound : ∀ s, Visiting db tableUuid head s →
      s.1.length ≤
        min (db.transactionsOf tableUuid).length
          (2 ^ 128) := by
    intro s hVisiting
    exact le_min hVisiting.length_le
      hVisiting.length_le_card
  rcases exists_stops hStep hBound
      (Visiting.initial db tableUuid head) with
    ⟨n, r, hCount, hStops⟩
  have hRows := min_le_left
    (db.transactionsOf tableUuid).length (2 ^ 128)
  have hFuel := min_le_right
    (db.transactionsOf tableUuid).length (2 ^ 128)
  refine ⟨n, r, ?_, ?_, hStops⟩
  · exact hCount.trans (Nat.add_le_add_right hRows 1)
  · exact hCount.trans (Nat.add_le_add_right hFuel 1)

/- The walk finds the target when parents lead there. -/
theorem historyBody_found_iff
    {n : Nat}
    {r : Result Bool}
    (hStops :
      Stops (historyBody db tableUuid target) n
        ([], head) r) :
    r = .ok true ↔
      Relation.ReflTransGen
        (Links (db.parentLink tableUuid)) head target := by
  have hStep : ∀ s s',
      Visiting db tableUuid head s ∧ target ∉ s.1 →
      historyBody db tableUuid target s = .inl s' →
        Visiting db tableUuid head s' ∧ target ∉ s'.1 := by
    rintro s s' ⟨hVisiting, hUnseen⟩ hBody
    rcases historyBody_next hBody with
      ⟨hNew, hOther, parent, hLink, rfl⟩
    refine ⟨hVisiting.next hNew hLink, ?_⟩
    rw [List.mem_cons, not_or]
    exact ⟨hOther.symm, hUnseen⟩
  rcases hStops.last_state hStep
      ⟨Visiting.initial db tableUuid head,
        List.not_mem_nil⟩ with
    ⟨⟨visited, cursor⟩, ⟨hVisiting, hUnseen⟩, hBody⟩
  simp only [historyBody] at hBody
  by_cases hTarget : cursor = target
  · subst hTarget
    rw [if_neg hUnseen, if_pos rfl] at hBody
    exact iff_of_true (Sum.inr.inj hBody).symm
      hVisiting.walked.reaches
  · -- All places that there are to reach have been seen.
    have hMissed :
        (cursor ∈ visited ∨
          ∀ b, ¬ Links (db.parentLink tableUuid) cursor b) →
        ¬ Relation.ReflTransGen
          (Links (db.parentLink tableUuid)) head target := by
      intro hEnd hReach
      rcases hVisiting.walked.mem_of_reaches hEnd hReach
        with hMem | hEq
      · exact hUnseen hMem
      · exact hTarget hEq.symm
    by_cases hSeen : cursor ∈ visited
    · rw [if_pos hSeen] at hBody
      refine iff_of_false ?_ (hMissed (.inl hSeen))
      rw [← Sum.inr.inj hBody]
      exact nofun
    · rw [if_neg hSeen, if_neg hTarget] at hBody
      cases hLink : db.parentLink tableUuid cursor with
      | none =>
          rw [hLink] at hBody
          refine iff_of_false ?_ (hMissed (.inr ?_))
          · rw [← Sum.inr.inj hBody]
            exact nofun
          · intro b hNext
            cases hLink.symm.trans hNext
      | some parent =>
          rw [hLink] at hBody
          cases parent with
          | none =>
              refine iff_of_false ?_ (hMissed (.inr ?_))
              · rw [← Sum.inr.inj hBody]
                exact nofun
              · intro b hNext
                cases hLink.symm.trans hNext
          | some parent => cases hBody

/- The test for the head itself changes no answer. -/
theorem exec_checkInHistory_ok_iff :
    Query.exec db
        (checkInHistory tableUuid head target) = .ok () ↔
      Query.exec db
        (walkHistory tableUuid target walkFuel [] head) =
          .ok true := by
  unfold checkInHistory
  by_cases hHead : target = head
  · rw [if_pos hHead, hHead]
    exact iff_of_true rfl
      (exec_walkHistory_of_stops
        (s := ([], head)) (.last (by simp [historyBody]))
        (Nat.le_add_left 1 _))
  · rw [if_neg hHead, Query.exec_bind]
    cases Query.exec db
        (walkHistory tableUuid target walkFuel [] head) with
    | error e => exact iff_of_false nofun nofun
    | ok found =>
        cases found with
        | false => exact iff_of_false nofun nofun
        | true => exact iff_of_true rfl rfl

/-
  The walk of `readTable` ends after at most one iteration
  more than the table has transactions, and it accepts what
  parents lead to.
-/
structure HistoryWalkExact
    (db : Database)
    (tableUuid : Uuid)
    (head target : TxnId) : Prop where
  stops : ∃ n r,
    n ≤ (db.transactionsOf tableUuid).length + 1 ∧
      Stops (historyBody db tableUuid target) n
        ([], head) r ∧
      Query.exec db
        (walkHistory tableUuid target walkFuel [] head) = r
  accepts :
    Query.exec db
        (checkInHistory tableUuid head target) = .ok () ↔
      Relation.ReflTransGen
        (Links (db.parentLink tableUuid)) head target

theorem historyWalkExact
    (db : Database)
    (tableUuid : Uuid)
    (head target : TxnId) :
    HistoryWalkExact db tableUuid head target := by
  rcases historyBody_stops db tableUuid head target with
    ⟨n, r, hCount, hFuel, hStops⟩
  have hExec := exec_walkHistory_of_stops hStops hFuel
  refine ⟨⟨n, r, hCount, hStops, hExec⟩, ?_⟩
  rw [exec_checkInHistory_ok_iff,
    ← historyBody_found_iff hStops, hExec]

------------------------------------------------------------
-- The Walk of `listTransactionEvents`
------------------------------------------------------------

/-
  The transactions of a range, the newest first: parents
  lead from its end to the lower boundary, or to a root when
  there is no boundary, within the limit.  They meet the
  boundary for the first time and no row twice.
-/
structure Database.InRange
    (db : Database)
    (tableUuid : Uuid)
    (cursor : TxnRangeCursor)
    (places : List TxnId) : Prop where
  steps :
    Steps (db.parentLink tableUuid) cursor.toInclusive
      places cursor.fromExclusive
  length_le : places.length ≤ maxTransactionsPerScan
  first : ∀ boundary,
    cursor.fromExclusive = some boundary →
      boundary ∉ places.tail ∧ places.Nodup

/- What a scan with a part of the limit left collects. -/
structure Collects
    (db : Database)
    (tableUuid : Uuid)
    (fromExclusive : Option TxnId)
    (remaining : Nat)
    (path : List TxnId)
    (cursor : TxnId)
    (places : List TxnId) : Prop where
  steps :
    Steps (db.parentLink tableUuid) cursor places
      fromExclusive
  length_le : places.length ≤ remaining
  fresh : ∀ t ∈ places, t ∉ path
  nodup : places.Nodup
  first : ∀ boundary,
    fromExclusive = some boundary → boundary ∉ places.tail

namespace Collects

variable {remaining : Nat}
variable {places : List TxnId}

/- The boundary or the root is right behind the cursor. -/
theorem single
    (hNew : cursor ∉ path)
    (hLink :
      db.parentLink tableUuid cursor = some fromExclusive) :
    Collects db tableUuid fromExclusive (remaining + 1)
      path cursor [cursor] := by
  refine ⟨.last hLink, Nat.le_add_left 1 _, ?_,
    List.nodup_singleton _, fun _ _ => List.not_mem_nil⟩
  intro t hMem
  rwa [List.mem_singleton.mp hMem]

/- The scan goes on behind the cursor. -/
theorem cons
    {next : TxnId}
    (hNew : cursor ∉ path)
    (hLink : Links (db.parentLink tableUuid) cursor next)
    (hInside : some next ≠ fromExclusive)
    (hRest :
      Collects db tableUuid fromExclusive remaining
        (cursor :: path) next places) :
    Collects db tableUuid fromExclusive (remaining + 1)
      path cursor (cursor :: places) := by
  refine ⟨.next hLink hRest.steps, ?_, ?_, ?_, ?_⟩
  · rw [List.length_cons]
    exact Nat.succ_le_succ hRest.length_le
  · intro t hMem
    rcases List.mem_cons.mp hMem with rfl | hLater
    · exact hNew
    · have hFresh := hRest.fresh t hLater
      rw [List.mem_cons, not_or] at hFresh
      exact hFresh.2
  · refine List.nodup_cons.mpr ⟨?_, hRest.nodup⟩
    intro hMem
    exact hRest.fresh cursor hMem List.mem_cons_self
  · intro boundary hBoundary
    rcases hRest.steps.eq_cons with ⟨rest, hPlaces⟩
    have hFirst := hRest.first boundary hBoundary
    rw [hPlaces, List.tail_cons] at hFirst
    rw [List.tail_cons, hPlaces, List.mem_cons, not_or]
    refine ⟨?_, hFirst⟩
    rintro rfl
    exact hInside hBoundary.symm

/- One of these two is how a scan collects its places. -/
theorem cases
    (hCollects :
      Collects db tableUuid fromExclusive remaining
        path cursor places) :
    cursor ∉ path ∧
      ∃ less, remaining = less + 1 ∧
        ((db.parentLink tableUuid cursor =
            some fromExclusive ∧
          places = [cursor]) ∨
        ∃ next rest,
          Links (db.parentLink tableUuid) cursor next ∧
            some next ≠ fromExclusive ∧
            places = cursor :: rest ∧
            Collects db tableUuid fromExclusive less
              (cursor :: path) next rest) := by
  rcases hCollects with
    ⟨hSteps, hLength, hFresh, hNodup, hFirst⟩
  cases hSteps with
  | last hLink =>
      refine ⟨hFresh cursor List.mem_cons_self,
        remaining - 1, ?_, .inl ⟨hLink, rfl⟩⟩
      rw [List.length_singleton] at hLength
      omega
  | @next _ next rest _ hLink hRest =>
      rw [List.length_cons] at hLength
      refine ⟨hFresh cursor List.mem_cons_self,
        remaining - 1, by omega, .inr ⟨next, rest, hLink,
          ?_, rfl, hRest, by omega, ?_,
          (List.nodup_cons.mp hNodup).2, ?_⟩⟩
      · intro hBoundary
        rcases hRest.eq_cons with ⟨later, rfl⟩
        exact hFirst next hBoundary.symm List.mem_cons_self
      · intro t hMem
        rw [List.mem_cons, not_or]
        refine ⟨?_, hFresh t (List.mem_cons_of_mem _ hMem)⟩
        rintro rfl
        exact (List.nodup_cons.mp hNodup).1 hMem
      · intro boundary hBoundary hMem
        exact hFirst boundary hBoundary
          (List.mem_of_mem_tail hMem)

end Collects

/- A scan ends at a root. -/
theorem exec_collectPath_root
    {remaining : Nat}
    (hNew : cursor ∉ path)
    (hLink : db.parentLink tableUuid cursor = some none) :
    Query.exec db
        (collectPath tableUuid fromExclusive (remaining + 1)
          path cursor) =
      .ok (cursor :: path, fromExclusive.isNone) := by
  rcases Option.map_eq_some_iff.mp hLink with
    ⟨row, hFind, hRoot⟩
  conv_lhs => unfold collectPath
  rw [if_neg hNew, Query.exec_bind, Query.exec_fetch, hFind]
  change Query.exec db
    (match row.parentTransactionId with
      | none => _
      | some parent => _) = _
  rw [hRoot]
  rfl

/- A scan ends before the boundary or goes on behind. -/
theorem exec_collectPath_next
    {remaining : Nat}
    {next : TxnId}
    (hNew : cursor ∉ path)
    (hLink : Links (db.parentLink tableUuid) cursor next) :
    Query.exec db
        (collectPath tableUuid fromExclusive (remaining + 1)
          path cursor) =
      if some next = fromExclusive then
        .ok (cursor :: path, true)
      else
        Query.exec db
          (collectPath tableUuid fromExclusive remaining
            (cursor :: path) next) := by
  rcases Option.map_eq_some_iff.mp hLink with
    ⟨row, hFind, hParent⟩
  conv_lhs => unfold collectPath
  rw [if_neg hNew, Query.exec_bind, Query.exec_fetch, hFind]
  change Query.exec db
    (match row.parentTransactionId with
      | none => _
      | some parent => _) = _
  rw [hParent]
  by_cases hStop : some next = fromExclusive
  · simp only [if_pos hStop]
    rfl
  · simp only [if_neg hStop]

/- A scan that returns has found a row with room for it. -/
theorem exec_collectPath_ok
    {remaining : Nat}
    {result : List TxnId × Bool}
    (hOk :
      Query.exec db
        (collectPath tableUuid fromExclusive remaining
          path cursor) = .ok result) :
    cursor ∉ path ∧
      (∃ less, remaining = less + 1) ∧
      ∃ parent,
        db.parentLink tableUuid cursor = some parent := by
  unfold collectPath at hOk
  by_cases hSeen : cursor ∈ path
  · rw [if_pos hSeen] at hOk
    cases hOk
  rw [if_neg hSeen, Query.exec_bind, Query.exec_fetch] at hOk
  unfold Database.parentLink
  cases hFind : db.findTransaction tableUuid cursor with
  | none =>
      rw [hFind] at hOk
      cases hOk
  | some row =>
      rw [hFind] at hOk
      cases remaining with
      | zero => cases hOk
      | succ less => exact ⟨hSeen, ⟨less, rfl⟩, _, rfl⟩

/- A scan collects exactly the places of the range. -/
theorem exec_collectPath_iff
    {remaining : Nat} :
    Query.exec db
        (collectPath tableUuid fromExclusive remaining
          path cursor) = .ok (ids, true) ↔
      ∃ places,
        Collects db tableUuid fromExclusive remaining
            path cursor places ∧
          ids = places.reverse ++ path := by
  induction remaining generalizing path cursor with
  | zero =>
      constructor
      · intro hOk
        rcases (exec_collectPath_ok hOk).2.1 with
          ⟨less, hLess⟩
        cases hLess
      · rintro ⟨places, hCollects, -⟩
        rcases hCollects.cases with ⟨-, less, hLess, -⟩
        cases hLess
  | succ remaining ih =>
      constructor
      · intro hOk
        rcases exec_collectPath_ok hOk with
          ⟨hNew, -, parent, hLink⟩
        cases parent with
        | none =>
            rw [exec_collectPath_root hNew hLink] at hOk
            cases fromExclusive with
            | none =>
                cases hOk
                exact ⟨[cursor], .single hNew hLink, rfl⟩
            | some boundary => cases hOk
        | some next =>
            rw [exec_collectPath_next hNew hLink] at hOk
            by_cases hStop : some next = fromExclusive
            · rw [if_pos hStop] at hOk
              cases hOk
              subst hStop
              exact ⟨[cursor], .single hNew hLink, rfl⟩
            · rw [if_neg hStop] at hOk
              rcases ih.mp hOk with ⟨places, hRest, rfl⟩
              refine ⟨cursor :: places,
                .cons hNew hLink hStop hRest, ?_⟩
              rw [List.reverse_cons, List.append_assoc]
              rfl
      · rintro ⟨places, hCollects, rfl⟩
        rcases hCollects.cases with
          ⟨hNew, less, hLess, ⟨hLink, rfl⟩ |
            ⟨next, rest, hLink, hStop, rfl, hRest⟩⟩
        · cases fromExclusive with
          | none => exact exec_collectPath_root hNew hLink
          | some boundary =>
              rw [exec_collectPath_next hNew hLink]
              exact if_pos rfl
        · cases hLess
          rw [exec_collectPath_next hNew hLink,
            if_neg hStop]
          apply ih.mpr
          refine ⟨rest, hRest, ?_⟩
          rw [List.reverse_cons, List.append_assoc]
          rfl

/- From the end of a range, nothing has been visited yet. -/
theorem Database.inRange_iff
    {cursor : TxnRangeCursor}
    {places : List TxnId} :
    db.InRange tableUuid cursor places ↔
      Collects db tableUuid cursor.fromExclusive
        maxTransactionsPerScan [] cursor.toInclusive
        places := by
  constructor
  · intro hRange
    refine ⟨hRange.steps, hRange.length_le,
      fun _ _ => List.not_mem_nil, ?_,
      fun boundary hBoundary =>
        (hRange.first boundary hBoundary).1⟩
    cases hFrom : cursor.fromExclusive with
    | none =>
        have hSteps := hRange.steps
        rw [hFrom] at hSteps
        exact hSteps.nodup
    | some boundary => exact (hRange.first boundary hFrom).2
  · intro hCollects
    exact ⟨hCollects.steps, hCollects.length_le,
      fun boundary hBoundary =>
        ⟨hCollects.first boundary hBoundary,
          hCollects.nodup⟩⟩

/- The check of the end and then the scan. -/
def rangeWalk
    (kind : DbKind)
    (tableUuid : Uuid)
    (current : TxnId)
    (cursor : TxnRangeCursor) :
    CatalogQuery (List TxnId) := do
  checkEndExists kind tableUuid current cursor.toInclusive
  transactionPath tableUuid cursor

/- Listing events walks the range and reads along it. -/
theorem listTransactionEvents_rangeWalk
    (ext : External)
    (catalog : SqlCatalog)
    (ident : TableIdent)
    (cursor : TxnRangeCursor) :
    listTransactionEvents ext catalog ident cursor =
      (do
        let row ← Query.fetch fun db => db.findTable ident
        match row with
        | none =>
            Query.fail (.returned (.notFound ident.toText))
        | some row => do
            let current ← Query.lift
              (requireHead row.currentTransactionId)
            let path ←
              rangeWalk catalog.kind row.tableUuid current
                cursor
            readEvents ext catalog.kind row.tableUuid {}
              path) := by
  unfold listTransactionEvents rangeWalk
  congr 1
  funext row
  cases row with
  | none => rfl
  | some row =>
      dsimp only
      simp only [Query.bind_assoc]

theorem exec_transactionPath_ok_iff
    {cursor : TxnRangeCursor} :
    Query.exec db (transactionPath tableUuid cursor) =
        .ok ids ↔
      ∃ places,
        db.InRange tableUuid cursor places ∧
          ids = places.reverse := by
  have hWalk :
      Query.exec db
          (collectPath tableUuid cursor.fromExclusive
            maxTransactionsPerScan [] cursor.toInclusive) =
          .ok (ids, true) ↔
        ∃ places,
          db.InRange tableUuid cursor places ∧
            ids = places.reverse := by
    simp only [exec_collectPath_iff, Database.inRange_iff,
      List.append_nil]
  rw [← hWalk]
  unfold transactionPath
  rw [Query.exec_bind]
  cases Query.exec db
      (collectPath tableUuid cursor.fromExclusive
        maxTransactionsPerScan [] cursor.toInclusive) with
  | error e => exact iff_of_false nofun nofun
  | ok result =>
      rcases result with ⟨path, reached⟩
      cases reached with
      | false => exact iff_of_false nofun nofun
      | true =>
          rw [Except.ok.injEq, Prod.mk.injEq,
            and_iff_left rfl]
          exact ⟨Except.ok.inj, congrArg Except.ok⟩

/- The end of a range that is scanned has a row. -/
theorem exec_checkEndExists_of_range
    {cursor : TxnRangeCursor}
    {places : List TxnId}
    (hRange : db.InRange tableUuid cursor places)
    (current : TxnId) :
    Query.exec db
        (checkEndExists .sqlite tableUuid current
          cursor.toInclusive) = .ok () := by
  unfold checkEndExists
  by_cases hHead : current = cursor.toInclusive
  · rw [if_pos hHead]
    rfl
  have hRow : ∃ parent,
      db.parentLink tableUuid cursor.toInclusive =
        some parent := by
    cases hRange.steps with
    | last hLink => exact ⟨_, hLink⟩
    | next hLink _ => exact ⟨_, hLink⟩
  rcases hRow with ⟨parent, hLink⟩
  rcases Option.map_eq_some_iff.mp hLink with
    ⟨row, hFind, -⟩
  rw [if_neg hHead, Query.exec_bind, Query.exec_fetch, hFind]
  rfl

theorem exec_rangeWalk_ok_iff
    {current : TxnId}
    {cursor : TxnRangeCursor} :
    Query.exec db (rangeWalk .sqlite tableUuid current cursor) =
        .ok ids ↔
      ∃ places,
        db.InRange tableUuid cursor places ∧
          ids = places.reverse := by
  unfold rangeWalk
  constructor
  · intro hOk
    rw [Query.exec_bind] at hOk
    cases hEnd : Query.exec db
        (checkEndExists .sqlite tableUuid current
          cursor.toInclusive) with
    | error e =>
        rw [hEnd] at hOk
        cases hOk
    | ok _ =>
        rw [hEnd] at hOk
        exact exec_transactionPath_ok_iff.mp hOk
  · rintro ⟨places, hRange, hIds⟩
    rw [Query.exec_bind_of_ok
      (exec_checkEndExists_of_range hRange current)]
    exact exec_transactionPath_ok_iff.mpr
      ⟨places, hRange, hIds⟩

/-
  The walk of `listTransactionEvents` ends after at most one
  iteration more than the table has transactions, it returns
  the transactions of the range with the oldest first, and
  it fails when there is no such range.
-/
structure RangeWalkExact
    (db : Database)
    (tableUuid : Uuid)
    (current : TxnId)
    (cursor : TxnRangeCursor) : Prop where
  stops : ∃ n r,
    n ≤ (db.transactionsOf tableUuid).length + 1 ∧
      Stops
        (pathBody db tableUuid cursor.fromExclusive) n
        ([], cursor.toInclusive) r ∧
      Query.exec db
        (collectPath tableUuid cursor.fromExclusive
          maxTransactionsPerScan [] cursor.toInclusive) = r
  returns : ∀ ids,
    Query.exec db (rangeWalk .sqlite tableUuid current cursor) =
        .ok ids ↔
      ∃ places,
        db.InRange tableUuid cursor places ∧
          ids = places.reverse
  fails :
    (∃ e,
      Query.exec db (rangeWalk .sqlite tableUuid current cursor) =
        .error e) ↔
      ¬ ∃ places, db.InRange tableUuid cursor places

theorem rangeWalkExact
    (db : Database)
    (tableUuid : Uuid)
    (current : TxnId)
    (cursor : TxnRangeCursor) :
    RangeWalkExact db tableUuid current cursor := by
  have hStep : ∀ s s',
      Visiting db tableUuid cursor.toInclusive s →
      pathBody db tableUuid cursor.fromExclusive s =
        .inl s' →
        Visiting db tableUuid cursor.toInclusive s' ∧
          s'.1.length = s.1.length + 1 := by
    intro s s' hVisiting hBody
    rcases pathBody_next hBody with
      ⟨hNew, parent, hLink, rfl⟩
    exact ⟨hVisiting.next hNew hLink, List.length_cons⟩
  rcases exists_stops hStep (fun _ h => h.length_le)
      (Visiting.initial db tableUuid cursor.toInclusive)
    with ⟨n, r, hCount, hStops⟩
  refine ⟨⟨n, r, hCount, hStops,
    exec_collectPath_of_stops hStops⟩,
    fun ids => exec_rangeWalk_ok_iff, ?_⟩
  constructor
  · rintro ⟨e, hError⟩ ⟨places, hRange⟩
    have hOk :
        Query.exec db (rangeWalk .sqlite tableUuid current cursor) =
          .ok places.reverse :=
      exec_rangeWalk_ok_iff.mpr ⟨places, hRange, rfl⟩
    rw [hError] at hOk
    cases hOk
  · intro hNone
    cases hResult : Query.exec db
        (rangeWalk .sqlite tableUuid current cursor) with
    | error e => exact ⟨e, rfl⟩
    | ok ids =>
        rcases exec_rangeWalk_ok_iff.mp hResult with
          ⟨places, hRange, -⟩
        exact absurd ⟨places, hRange⟩ hNone

------------------------------------------------------------
-- Both Walks
------------------------------------------------------------

/-
  On any rows, also with cycles of parents, with parents
  that have no row and with parents of other tables, both
  walks end soon and are exact.
-/
theorem Database.walks_exact
    (db : Database)
    (tableUuid : Uuid)
    (head : TxnId) :
    (∀ target, HistoryWalkExact db tableUuid head target) ∧
      ∀ cursor, RangeWalkExact db tableUuid head cursor :=
  ⟨historyWalkExact db tableUuid head,
    rangeWalkExact db tableUuid head⟩

end Planar
