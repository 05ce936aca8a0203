import Mathlib.Data.Fintype.Card
import Planar.Catalog.Events
import Planar.Foundations.LinkedKeys

/-
  The walks over the parents of transactions, while the
  chain of transactions may grow at its end.

  Main declarations:
    * `Chained`
    * `GrowsFrom`
    * `runs_walkHistory`, `runs_checkInHistory`
    * `runs_collectPath`, `runs_transactionPath`
-/

------------------------------------------------------------
-- Chains of Transactions
------------------------------------------------------------

namespace Planar

/-
  The transactions of a table are a chain: every row names
  the row before it as its parent.
-/
structure Chained
    (db : Database)
    (tableUuid : Uuid)
    (ids : List TxnId) : Prop where
  links :
    ((db.transactionsOf tableUuid).map fun row =>
        (row.transactionId, row.parentTransactionId)) =
      linkedKeys ids
  nodup : ids.Nodup

/- A transaction is searched among those of its table. -/
theorem Database.findTransaction_find?
    (db : Database)
    (tableUuid : Uuid)
    (transactionId : TxnId) :
    db.findTransaction tableUuid transactionId =
      (db.transactionsOf tableUuid).find? fun row =>
        row.transactionId = transactionId := by
  unfold Database.findTransaction Database.transactionsOf
  rw [List.find?_filter]
  simp

theorem Database.findTransaction_eq
    (db : Database)
    (tableUuid : Uuid)
    (transactionId : TxnId) :
    (db.findTransaction tableUuid transactionId).map
        (fun row =>
          (row.transactionId, row.parentTransactionId)) =
      ((db.transactionsOf tableUuid).map fun row =>
          (row.transactionId,
            row.parentTransactionId)).find?
        fun link => link.1 = transactionId := by
  rw [List.find?_map, findTransaction_find?]
  rfl

namespace Chained

variable
  {db : Database}
  {tableUuid : Uuid}
  {ids before after : List TxnId}
  {t : TxnId}

/- The row of a transaction of the chain. -/
theorem findTransaction
    (hChained :
      Chained db tableUuid (before ++ t :: after)) :
    ∃ row, db.findTransaction tableUuid t = some row ∧
      row.parentTransactionId = before.getLast? := by
  have hNew : t ∉ before := by
    intro hMember
    have hNodup := List.nodup_append.mp hChained.nodup
    exact hNodup.2.2 t hMember t List.mem_cons_self rfl
  have hFind :=
    db.findTransaction_eq tableUuid t
  rw [hChained.links, find?_linkedKeys hNew] at hFind
  rcases Option.map_eq_some_iff.mp hFind with
    ⟨row, hRow, hLink⟩
  exact ⟨row, hRow, (Prod.mk.inj hLink).2⟩

/- A transaction that has a row is in the chain. -/
theorem mem_of_findTransaction
    {row : TransactionRow}
    (hChained : Chained db tableUuid ids)
    (hFind : db.findTransaction tableUuid t = some row) :
    t ∈ ids := by
  by_contra hNew
  have hNone := db.findTransaction_eq tableUuid t
  rw [hChained.links, find?_linkedKeys_of_notMem hNew,
    hFind] at hNone
  cases hNone

/- The number of transactions is below the fuel. -/
theorem length_lt
    (hChained : Chained db tableUuid ids) :
    ids.length < walkFuel := by
  have hCard := hChained.nodup.length_le_card
  rw [Fintype.card_fin] at hCard
  exact Nat.lt_succ_of_le hCard

end Chained

------------------------------------------------------------
-- Chains That Grow
------------------------------------------------------------

variable
  {ω : Type}
  {Step : ω → ω → Prop}
  {see : ω → Database}
  {w w' : ω}
  {tableUuid : Uuid}

/- Whatever happens, the chain only gets longer. -/
def GrowsFrom
    (Step : ω → ω → Prop)
    (see : ω → Database)
    (tableUuid : Uuid)
    (ids : List TxnId)
    (w : ω) : Prop :=
  ∀ w', Relation.ReflTransGen Step w w' →
    ∃ more, Chained (see w') tableUuid (ids ++ more)

theorem GrowsFrom.after
    {ids : List TxnId}
    (hGrows : GrowsFrom Step see tableUuid ids w)
    (hWait : Relation.ReflTransGen Step w w') :
    GrowsFrom Step see tableUuid ids w' :=
  fun w'' hMore => hGrows w'' (hWait.trans hMore)

/- Fewer steps make the chain grow less. -/
theorem GrowsFrom.of_steps
    {Step' : ω → ω → Prop}
    {ids : List TxnId}
    (hGrows : GrowsFrom Step see tableUuid ids w)
    (hSteps : ∀ a b, Step' a b → Step a b) :
    GrowsFrom Step' see tableUuid ids w :=
  fun w' hMore =>
    hGrows w' (Relation.ReflTransGen.mono hSteps _ _ hMore)

theorem GrowsFrom.nodup
    {ids : List TxnId}
    (hGrows : GrowsFrom Step see tableUuid ids w) :
    ids.Nodup := by
  rcases hGrows w .refl with ⟨more, hChained⟩
  exact (List.nodup_append.mp hChained.nodup).1

/- The cursor of a walk stands at no visited place. -/
theorem GrowsFrom.cursor_notMem
    {before later visited : List TxnId}
    {cursor : TxnId}
    (hGrows :
      GrowsFrom Step see tableUuid
        (before ++ [cursor] ++ later) w)
    (hVisited : ∀ v ∈ visited, v ∈ later) :
    cursor ∉ visited := by
  intro hMember
  have hNodup := List.nodup_append.mp hGrows.nodup
  exact hNodup.2.2 cursor
    (List.mem_append_right _ List.mem_cons_self) cursor
    (hVisited cursor hMember) rfl

/- The row at the cursor, now or later. -/
theorem GrowsFrom.findTransaction
    {before later : List TxnId}
    {cursor : TxnId}
    (hGrows :
      GrowsFrom Step see tableUuid
        (before ++ [cursor] ++ later) w) :
    ∃ row, (see w).findTransaction tableUuid cursor =
        some row ∧
      row.parentTransactionId = before.getLast? := by
  rcases hGrows w .refl with ⟨more, hChained⟩
  simp only [List.append_assoc, List.singleton_append]
    at hChained
  exact hChained.findTransaction

------------------------------------------------------------
-- The Walk of a Read
------------------------------------------------------------

/-
  The walk from a transaction of the chain finds out whether
  the target is that transaction or one before it; it meets
  no cycle and no missing row.
-/
theorem runs_walkHistory
    {fuel : Nat}
    {before later visited : List TxnId}
    {cursor target : TxnId}
    {r : Except Fault Bool}
    (hGrows :
      GrowsFrom Step see tableUuid
        (before ++ [cursor] ++ later) w)
    (hVisited : ∀ v ∈ visited, v ∈ later)
    (hFuel : before.length < fuel)
    (hRuns :
      Query.Runs Step see w
        (walkHistory tableUuid target fuel visited cursor)
        w' r) :
    r = .ok (decide (target ∈ before ++ [cursor])) := by
  induction fuel generalizing before later visited cursor w
    with
  | zero => cases hFuel
  | succ fuel ih =>
      have hNew := hGrows.cursor_notMem hVisited
      simp only [walkHistory, if_neg hNew] at hRuns
      split at hRuns
      · rename_i hFound
        rw [(Query.runs_done hRuns).1]
        simp [hFound]
      rename_i hOther
      have hTarget :
          target ∈ before ++ [cursor] ↔
            target ∈ before := by
        simp [Ne.symm hOther]
      rcases Query.runs_fetch_bind hRuns with
        ⟨w₁, hWait, hRest⟩
      rcases (hGrows.after hWait).findTransaction with
        ⟨row, hRow, hParent⟩
      simp only [hRow, hParent] at hRest
      cases hLast : before.getLast? with
      | none =>
          rw [List.getLast?_eq_none_iff] at hLast
          subst hLast
          rw [(Query.runs_done hRest).1]
          simp [Ne.symm hOther]
      | some parent =>
          simp only [hLast] at hRest
          rcases List.getLast?_eq_some_iff.mp hLast with
            ⟨earlier, rfl⟩
          have hGrows₁ :
              GrowsFrom Step see tableUuid
                (earlier ++ [parent] ++ (cursor :: later))
                w₁ := by
            simpa using hGrows.after hWait
          have hVisited₁ :
              ∀ v ∈ cursor :: visited,
                v ∈ cursor :: later := by
            intro v hMember
            rcases List.mem_cons.mp hMember with rfl | hOld
            · exact List.mem_cons_self
            · exact List.mem_cons_of_mem _ (hVisited v hOld)
          have hFuel₁ : earlier.length < fuel := by
            simpa using hFuel
          simp only [hTarget]
          exact ih hGrows₁ hVisited₁ hFuel₁ hRest

/-
  The check of a requested transaction succeeds exactly when
  the chain up to the head has it.
-/
theorem runs_checkInHistory
    {before : List TxnId}
    {current target : TxnId}
    {r : Except Fault Unit}
    (hGrows :
      GrowsFrom Step see tableUuid
        (before ++ [current]) w)
    (hRuns :
      Query.Runs Step see w
        (checkInHistory tableUuid current target) w' r) :
    r = if target ∈ before ++ [current] then .ok ()
      else
        .error (.returned (.invalidArgument
          ("requested transaction is not in " ++
            "table history"))) := by
  unfold checkInHistory at hRuns
  split at hRuns
  · rename_i hHead
    rw [(Query.runs_done hRuns).1, if_pos]
    simp [hHead]
  have hFuel : before.length < walkFuel := by
    rcases hGrows w .refl with ⟨more, hChained⟩
    have hLength := hChained.length_lt
    simp only [List.length_append] at hLength
    omega
  have hGrows₀ :
      GrowsFrom Step see tableUuid
        (before ++ [current] ++ []) w := by
    simpa using hGrows
  rcases Query.runs_bind hRuns with
    ⟨w₁, found, hWalk, hRest⟩ | ⟨e, _, hWalk⟩
  · have hFound :=
      runs_walkHistory hGrows₀ (by simp) hFuel hWalk
    rw [Except.ok.injEq] at hFound
    subst hFound
    by_cases hTarget : target ∈ before ++ [current]
    · simp only [hTarget, decide_true, if_true] at hRest
      rw [(Query.runs_done hRest).1, if_pos hTarget]
    · simp only [hTarget, decide_false, Bool.false_eq_true,
        if_false] at hRest
      rw [(Query.runs_done hRest).1, if_neg hTarget]
      rfl
  · cases runs_walkHistory hGrows₀ (by simp) hFuel hWalk

------------------------------------------------------------
-- The Path of a Scan
------------------------------------------------------------

/- The scan meets more transactions than it may. -/
def scanLimitExceeded : Fault :=
  .returned (.limitExceeded
    ("transaction scan exceeds limit of " ++
      s!"{maxTransactionsPerScan}"))

/- The ids that lie after the boundary of a scan. -/
def IsRange
    (past : List TxnId)
    (fromExclusive : Option TxnId)
    (range : List TxnId) : Prop :=
  ∃ earlier, past = earlier ++ range ∧
    earlier.getLast? = fromExclusive ∧ range ≠ []

theorem IsRange.concat
    {past range : List TxnId}
    {fromExclusive : Option TxnId}
    (hRange : IsRange past fromExclusive range)
    (t : TxnId) :
    IsRange (past ++ [t]) fromExclusive
      (range ++ [t]) := by
  rcases hRange with ⟨earlier, rfl, hBoundary, _⟩
  exact ⟨earlier, by simp, hBoundary, by simp⟩

/-
  The scan from a transaction of the chain fails only by its
  limit.  When it has reached the boundary, it has collected
  the ids after it.
-/
theorem runs_collectPath
    {fromExclusive : Option TxnId}
    {remaining : Nat}
    {before later path : List TxnId}
    {cursor : TxnId}
    {r : Except Fault (List TxnId × Bool)}
    (hGrows :
      GrowsFrom Step see tableUuid
        (before ++ [cursor] ++ later) w)
    (hPath : ∀ v ∈ path, v ∈ later)
    (hRuns :
      Query.Runs Step see w
        (collectPath tableUuid fromExclusive remaining path
          cursor) w' r) :
    r = .error scanLimitExceeded ∨
      ∃ path' reached, r = .ok (path', reached) ∧
        (reached = true → ∃ range, path' = range ++ path ∧
          IsRange (before ++ [cursor]) fromExclusive
            range) := by
  induction remaining generalizing before later path cursor w
    with
  | zero =>
      have hNew := hGrows.cursor_notMem hPath
      rw [collectPath, if_neg hNew] at hRuns
      rcases Query.runs_fetch_bind hRuns with
        ⟨w₁, hWait, hRest⟩
      rcases (hGrows.after hWait).findTransaction with
        ⟨row, hRow, _⟩
      simp only [hRow] at hRest
      exact .inl (Query.runs_done hRest).1
  | succ remaining ih =>
      have hNew := hGrows.cursor_notMem hPath
      rw [collectPath, if_neg hNew] at hRuns
      rcases Query.runs_fetch_bind hRuns with
        ⟨w₁, hWait, hRest⟩
      rcases (hGrows.after hWait).findTransaction with
        ⟨row, hRow, hParent⟩
      simp only [hRow, hParent] at hRest
      cases hLast : before.getLast? with
      | none =>
          simp only [hLast] at hRest
          refine .inr ⟨_, _, (Query.runs_done hRest).1, ?_⟩
          intro hReached
          refine ⟨[cursor], rfl, [], ?_, ?_, by simp⟩
          · rw [List.getLast?_eq_none_iff.mp hLast]
          · exact (Option.isNone_iff_eq_none.mp
              hReached).symm
      | some parent =>
          simp only [hLast] at hRest
          split at hRest
          · rename_i hBoundary
            refine .inr
              ⟨_, _, (Query.runs_done hRest).1, ?_⟩
            intro _
            exact ⟨[cursor], rfl, before, rfl,
              hLast.trans hBoundary, by simp⟩
          rcases List.getLast?_eq_some_iff.mp hLast with
            ⟨earlier, rfl⟩
          have hGrows₁ :
              GrowsFrom Step see tableUuid
                (earlier ++ [parent] ++ (cursor :: later))
                w₁ := by
            simpa using hGrows.after hWait
          have hPath₁ :
              ∀ v ∈ cursor :: path,
                v ∈ cursor :: later := by
            intro v hMember
            rcases List.mem_cons.mp hMember with rfl | hOld
            · exact List.mem_cons_self
            · exact List.mem_cons_of_mem _ (hPath v hOld)
          rcases ih hGrows₁ hPath₁ hRest with
            hLimit | ⟨path', reached, hResult, hReached⟩
          · exact .inl hLimit
          · refine .inr ⟨path', reached, hResult, ?_⟩
            intro hTrue
            rcases hReached hTrue with ⟨range, rfl, hRange⟩
            exact ⟨range ++ [cursor], by simp,
              hRange.concat cursor⟩

/-
  The path of a scan: the ids after the boundary up to the
  end of the range.  It fails only by the limit, or because
  the boundary is not before the end.
-/
theorem runs_transactionPath
    {before later : List TxnId}
    {cursor : TxnRangeCursor}
    {r : Except Fault (List TxnId)}
    (hGrows :
      GrowsFrom Step see tableUuid
        (before ++ [cursor.toInclusive] ++ later) w)
    (hRuns :
      Query.Runs Step see w
        (transactionPath tableUuid cursor) w' r) :
    r = .error scanLimitExceeded ∨
    r = .error (.returned (.invalidArgument
      ("from transaction is not an ancestor of " ++
        "to transaction"))) ∨
    ∃ range, r = .ok range ∧
      IsRange (before ++ [cursor.toInclusive])
        cursor.fromExclusive range := by
  rcases Query.runs_bind hRuns with
    ⟨w₁, ⟨path, reached⟩, hCollect, hRest⟩ |
      ⟨e, hError, hCollect⟩
  · rcases runs_collectPath hGrows (by simp) hCollect with
      hLimit | ⟨path', reached', hResult, hReached⟩
    · cases hLimit
    · rcases Prod.mk.inj (Except.ok.inj hResult) with
        ⟨rfl, rfl⟩
      cases reached with
      | false => exact .inr (.inl (Query.runs_done hRest).1)
      | true =>
          rcases hReached rfl with ⟨range, hPath, hRange⟩
          rw [List.append_nil] at hPath
          subst hPath
          exact .inr (.inr
            ⟨_, (Query.runs_done hRest).1, hRange⟩)
  · rcases runs_collectPath hGrows (by simp) hCollect with
      hLimit | ⟨path', reached', hResult, _⟩
    · rw [hError, Except.error.inj hLimit]
      exact .inl rfl
    · cases hResult

end Planar
