import Mathlib.Data.List.Perm.Basic
import Mathlib.Data.List.Nodup
import Mathlib.Data.List.Chain
import Mathlib.Order.Lattice
import Mathlib.Tactic.Common

/-
  Rows that carry the interval of times during which they
  count, and the log of edits that produces them.

  A log entry has a time and a list of edits.  Stamping the
  log keeps every item ever inserted, opened at the time of
  its insertion and closed at the time of its retirement.
  Replaying the log keeps the live items only.

  Main declarations:
    * `Stamped`, `Stamped.visibleAt`
    * `Edit`, `Edit.replay`, `Edit.stamp`
    * `replayEdits`, `stampEdits`, `stampLog`
    * `open_items_stampLog`
    * `visibleItems_stampLog`
    * `openedItems_stampLog`
    * `closedItems_stampLog`
    * `Stamped.Continues`, `RetiredIn`
    * `exists_stampLog`, `origin_stampLog`
-/

------------------------------------------------------------
-- Stamped Rows
------------------------------------------------------------

namespace Planar

/- An item with the times that opened and closed it. -/
structure Stamped (ν τ : Type) where
  item : ν
  opened : τ
  closed : Option τ
  deriving DecidableEq

namespace Stamped

variable {ν τ : Type}

/- Nothing has closed the row. -/
def isOpen (r : Stamped ν τ) : Bool :=
  r.closed.isNone

/- The row counts at time `t`: opened by then, not closed. -/
def visibleAt
    [LinearOrder τ]
    (t : τ)
    (r : Stamped ν τ) : Bool :=
  decide (r.opened ≤ t) &&
    match r.closed with
    | none => true
    | some c => decide (t < c)

/- Every stamp of the row satisfies a predicate. -/
def StampsIn
    (P : τ → Prop)
    (r : Stamped ν τ) : Prop :=
  P r.opened ∧ ∀ c ∈ r.closed, P c

/- Close the row if it is open and its item is selected. -/
def closeIf
    (t : τ)
    (selected : ν → Bool)
    (r : Stamped ν τ) : Stamped ν τ :=
  if r.isOpen && selected r.item then
    { r with closed := some t }
  else r

@[simp] theorem closeIf_item
    (t : τ)
    (selected : ν → Bool)
    (r : Stamped ν τ) :
    (r.closeIf t selected).item = r.item := by
  unfold closeIf
  split <;> rfl

@[simp] theorem closeIf_opened
    (t : τ)
    (selected : ν → Bool)
    (r : Stamped ν τ) :
    (r.closeIf t selected).opened = r.opened := by
  unfold closeIf
  split <;> rfl

theorem closeIf_closed
    (t : τ)
    (selected : ν → Bool)
    (r : Stamped ν τ) :
    (r.closeIf t selected).closed =
      if r.isOpen && selected r.item then some t
      else r.closed := by
  unfold closeIf
  split <;> rfl

@[simp] theorem closeIf_isOpen
    (t : τ)
    (selected : ν → Bool)
    (r : Stamped ν τ) :
    (r.closeIf t selected).isOpen =
      (r.isOpen && !selected r.item) := by
  unfold closeIf
  split
  · rename_i hBoth
    have hSelected : selected r.item = true :=
      (Bool.and_eq_true_iff.mp hBoth).2
    simp [isOpen, hSelected]
  · rename_i hBoth
    cases hOpen : r.isOpen with
    | false => simp
    | true => simpa [hOpen] using hBoth

end Stamped

/- One edit of a set of items. -/
inductive Edit (ν : Type) where
  | insert (items : List ν)
  | retire (selected : ν → Bool)

namespace Edit

variable {ν τ : Type}

/- The effect of an edit on the live items. -/
def replay (live : List ν) : Edit ν → List ν
| .insert items => live ++ items
| .retire selected => live.filter fun v => !selected v

/- The effect of an edit on the rows, at one time. -/
def stamp
    (t : τ)
    (rows : List (Stamped ν τ)) :
    Edit ν → List (Stamped ν τ)
| .insert items => rows ++ items.map fun v => ⟨v, t, none⟩
| .retire selected =>
    rows.map (Stamped.closeIf t selected)

/- The items an edit inserts. -/
def inserted : Edit ν → List ν
| .insert items => items
| .retire _ => []

/- The live items an edit retires. -/
def retired (live : List ν) : Edit ν → List ν
| .insert _ => []
| .retire selected => live.filter selected

end Edit

variable {ν τ : Type}

/- Replay a list of edits. -/
def replayEdits
    (live : List ν)
    (edits : List (Edit ν)) : List ν :=
  edits.foldl Edit.replay live

/- Stamp a list of edits made at one time. -/
def stampEdits
    (t : τ)
    (rows : List (Stamped ν τ))
    (edits : List (Edit ν)) : List (Stamped ν τ) :=
  edits.foldl (Edit.stamp t) rows

/- Everything a list of edits inserts. -/
def insertedBy (edits : List (Edit ν)) : List ν :=
  edits.flatMap Edit.inserted

/-
  Everything a list of edits retires, each item at the
  moment its edit is applied.
-/
def retiredBy
    (live : List ν) :
    List (Edit ν) → List ν
| [] => []
| edit :: edits =>
    edit.retired live ++ retiredBy (edit.replay live) edits

/- The live items after a log. -/
def replayLog (log : List (τ × List (Edit ν))) : List ν :=
  log.foldl (fun live entry => replayEdits live entry.2) []

/- All rows after a log. -/
def stampLog
    (log : List (τ × List (Edit ν))) :
    List (Stamped ν τ) :=
  log.foldl
    (fun rows entry => stampEdits entry.1 rows entry.2) []

@[simp] theorem stampEdits_nil
    (t : τ)
    (rows : List (Stamped ν τ)) :
    stampEdits t rows [] = rows := rfl

@[simp] theorem stampEdits_cons
    (t : τ)
    (rows : List (Stamped ν τ))
    (edit : Edit ν)
    (edits : List (Edit ν)) :
    stampEdits t rows (edit :: edits) =
      stampEdits t (edit.stamp t rows) edits := rfl

theorem stampEdits_concat
    (t : τ)
    (rows : List (Stamped ν τ))
    (edits : List (Edit ν))
    (edit : Edit ν) :
    stampEdits t rows (edits ++ [edit]) =
      edit.stamp t (stampEdits t rows edits) := by
  simp [stampEdits]

@[simp] theorem replayEdits_cons
    (live : List ν)
    (edit : Edit ν)
    (edits : List (Edit ν)) :
    replayEdits live (edit :: edits) =
      replayEdits (edit.replay live) edits := rfl

@[simp] theorem stampLog_nil :
    stampLog ([] : List (τ × List (Edit ν))) = [] := rfl

@[simp] theorem stampLog_concat
    (log : List (τ × List (Edit ν)))
    (entry : τ × List (Edit ν)) :
    stampLog (log ++ [entry]) =
      stampEdits entry.1 (stampLog log) entry.2 := by
  simp [stampLog]

@[simp] theorem replayLog_nil :
    replayLog ([] : List (τ × List (Edit ν))) = [] := rfl

@[simp] theorem replayLog_concat
    (log : List (τ × List (Edit ν)))
    (entry : τ × List (Edit ν)) :
    replayLog (log ++ [entry]) =
      replayEdits (replayLog log) entry.2 := by
  simp [replayLog]

end Planar

------------------------------------------------------------
-- Items Come From the Log
------------------------------------------------------------

namespace Planar

variable {ν τ : Type}

theorem mem_replayEdits
    {live : List ν}
    {edits : List (Edit ν)}
    {v : ν}
    (hLive : v ∈ replayEdits live edits) :
    v ∈ live ∨ v ∈ insertedBy edits := by
  induction edits generalizing live with
  | nil => exact .inl hLive
  | cons edit rest ih =>
      rcases ih hLive with hOld | hNew
      · cases edit with
        | insert items =>
            rcases List.mem_append.mp hOld with hOld | hItem
            · exact .inl hOld
            · exact .inr (List.mem_flatMap.mpr
                ⟨_, List.mem_cons_self, hItem⟩)
        | retire selected =>
            exact .inl (List.mem_filter.mp hOld).1
      · refine .inr ?_
        rw [insertedBy, List.flatMap_cons]
        exact List.mem_append_right _ hNew

/- Stamping keeps all items and adds the inserted ones. -/
theorem items_stampEdits
    (t : τ)
    (rows : List (Stamped ν τ))
    (edits : List (Edit ν)) :
    (stampEdits t rows edits).map Stamped.item =
      rows.map Stamped.item ++ insertedBy edits := by
  induction edits generalizing rows with
  | nil => simp [insertedBy]
  | cons edit rest ih =>
      rw [stampEdits_cons, ih, insertedBy, insertedBy,
        List.flatMap_cons, ← List.append_assoc]
      congr 1
      cases edit with
      | insert items =>
          simp [Edit.stamp, Edit.inserted,
            Function.comp_def]
      | retire selected =>
          simp [Edit.stamp, Edit.inserted,
            Function.comp_def]

/- The rows of a log are the items that it inserted. -/
theorem items_stampLog
    (log : List (τ × List (Edit ν))) :
    (stampLog log).map Stamped.item =
      log.flatMap fun entry => insertedBy entry.2 := by
  induction log using List.reverseRecOn with
  | nil => rfl
  | append_singleton log entry ih =>
      rw [stampLog_concat, items_stampEdits, ih]
      simp

/-
  What was live or is inserted, is live afterwards or was
  retired.
-/
theorem perm_replayEdits
    (live : List ν)
    (edits : List (Edit ν)) :
    (live ++ insertedBy edits).Perm
      (replayEdits live edits ++ retiredBy live edits) := by
  induction edits generalizing live with
  | nil => simp [insertedBy, replayEdits, retiredBy]
  | cons edit rest ih =>
      rw [replayEdits_cons, insertedBy, List.flatMap_cons]
      have hRest := ih (edit.replay live)
      cases edit with
      | insert items =>
          rw [Edit.inserted, ← List.append_assoc]
          exact hRest
      | retire selected =>
          have hSplit :
              live.Perm
                ((Edit.retire selected).replay live ++
                  live.filter selected) := by
            exact (List.filter_append_perm selected
              live).symm.trans List.perm_append_comm
          have hMove :
              (((Edit.retire selected).replay live ++
                  live.filter selected) ++
                    insertedBy rest).Perm
                (((Edit.retire selected).replay live ++
                  insertedBy rest) ++
                    live.filter selected) := by
            rw [List.append_assoc, List.append_assoc]
            exact List.perm_append_comm.append_left _
          refine (hSplit.append_right _).trans
            (hMove.trans ?_)
          refine (hRest.append_right _).trans ?_
          rw [List.append_assoc, retiredBy]
          exact List.perm_append_comm.append_left _

/- Every live item was inserted by an entry. -/
theorem mem_replayLog
    {log : List (τ × List (Edit ν))}
    {v : ν}
    (hLive : v ∈ replayLog log) :
    ∃ entry ∈ log, v ∈ insertedBy entry.2 := by
  induction log using List.reverseRecOn with
  | nil => cases hLive
  | append_singleton log entry ih =>
      rw [replayLog_concat] at hLive
      rcases mem_replayEdits hLive with hOld | hNew
      · rcases ih hOld with ⟨e, hEntry, hItem⟩
        exact ⟨e, List.mem_append_left _ hEntry, hItem⟩
      · exact ⟨entry, by simp, hNew⟩

end Planar

------------------------------------------------------------
-- Open Rows Are the Live Items
------------------------------------------------------------

namespace Planar

variable {ν τ : Type}

/- Retiring closes exactly the selected open rows. -/
theorem open_items_retire
    (t : τ)
    (rows : List (Stamped ν τ))
    (selected : ν → Bool) :
    (((Edit.retire selected).stamp t rows).filter
        Stamped.isOpen).map Stamped.item =
      ((rows.filter Stamped.isOpen).map
        Stamped.item).filter fun v => !selected v := by
  have hItem :
      Stamped.item ∘ Stamped.closeIf t selected =
        (Stamped.item : Stamped ν τ → ν) := by
    funext r
    simp
  simp only [Edit.stamp, List.filter_map, List.map_map,
    hItem, List.filter_filter]
  congr 1
  apply List.filter_congr
  intro r _
  simp [Bool.and_comm]

/- One edit acts on the open rows as on the live items. -/
theorem open_items_stamp
    (t : τ)
    (rows : List (Stamped ν τ))
    (edit : Edit ν) :
    ((edit.stamp t rows).filter Stamped.isOpen).map
        Stamped.item =
      edit.replay
        ((rows.filter Stamped.isOpen).map
          Stamped.item) := by
  cases edit with
  | insert items =>
      have hNew :
          (items.map fun v =>
              (⟨v, t, none⟩ : Stamped ν τ)).filter
            Stamped.isOpen =
          items.map fun v => ⟨v, t, none⟩ := by
        apply List.filter_eq_self.mpr
        intro r hr
        rcases List.mem_map.mp hr with ⟨v, _, rfl⟩
        rfl
      simp [Edit.stamp, Edit.replay, hNew,
        Function.comp_def]
  | retire selected =>
      exact open_items_retire t rows selected

theorem open_items_stampEdits
    (t : τ)
    (rows : List (Stamped ν τ))
    (edits : List (Edit ν)) :
    ((stampEdits t rows edits).filter Stamped.isOpen).map
        Stamped.item =
      replayEdits
        ((rows.filter Stamped.isOpen).map Stamped.item)
        edits := by
  induction edits generalizing rows with
  | nil => rfl
  | cons edit edits ih =>
      rw [stampEdits_cons, replayEdits_cons, ih,
        open_items_stamp]

/- The open rows of a log are its live items. -/
theorem open_items_stampLog
    (log : List (τ × List (Edit ν))) :
    ((stampLog log).filter Stamped.isOpen).map
        Stamped.item =
      replayLog log := by
  induction log using List.reverseRecOn with
  | nil => rfl
  | append_singleton log entry ih =>
      rw [stampLog_concat, replayLog_concat,
        open_items_stampEdits, ih]

end Planar

------------------------------------------------------------
-- Visibility at an Earlier Time
------------------------------------------------------------

namespace Planar

variable {ν τ : Type} [LinearOrder τ]

namespace Stamped

/- Closing a row later does not change what it was. -/
theorem visibleAt_closeIf
    {t later : τ}
    (hLater : t < later)
    (selected : ν → Bool)
    (r : Stamped ν τ) :
    (r.closeIf later selected).visibleAt t =
      r.visibleAt t := by
  unfold closeIf
  split
  · rename_i hBoth
    have hOpen : r.isOpen = true :=
      (Bool.and_eq_true_iff.mp hBoth).1
    have hClosed : r.closed = none :=
      Option.isNone_iff_eq_none.mp hOpen
    simp [visibleAt, hClosed, hLater]
  · rfl

/- With all stamps passed, visible means open. -/
theorem visibleAt_eq_isOpen
    {t : τ}
    {r : Stamped ν τ}
    (hPast : r.StampsIn (· ≤ t)) :
    r.visibleAt t = r.isOpen := by
  rcases r with ⟨item, opened, closed⟩
  rcases hPast with ⟨hOpened, hClosed⟩
  cases closed with
  | none => simpa [visibleAt, isOpen] using hOpened
  | some c =>
      have hNot : ¬ t < c := not_lt.mpr (hClosed c rfl)
      simp [visibleAt, isOpen, hNot]

end Stamped

/- The rows visible at a time, stamped later or not. -/
def visibleItems
    (t : τ)
    (rows : List (Stamped ν τ)) : List ν :=
  (rows.filter (Stamped.visibleAt t)).map Stamped.item

/- A later edit cannot change what was visible. -/
theorem visibleItems_stamp
    {t later : τ}
    (hLater : t < later)
    (rows : List (Stamped ν τ))
    (edit : Edit ν) :
    visibleItems t (edit.stamp later rows) =
      visibleItems t rows := by
  cases edit with
  | insert items =>
      have hNew :
          (items.map fun v =>
              (⟨v, later, none⟩ : Stamped ν τ)).filter
            (Stamped.visibleAt t) = [] := by
        apply List.filter_eq_nil_iff.mpr
        intro r hr
        rcases List.mem_map.mp hr with ⟨v, _, rfl⟩
        simp [Stamped.visibleAt, hLater]
      simp [visibleItems, Edit.stamp, hNew]
  | retire selected =>
      have hItem :
          Stamped.item ∘ Stamped.closeIf later selected =
            (Stamped.item : Stamped ν τ → ν) := by
        funext r
        simp
      have hVisible :
          Stamped.visibleAt t ∘
              Stamped.closeIf later selected =
            (Stamped.visibleAt t : Stamped ν τ → Bool) := by
        funext r
        exact Stamped.visibleAt_closeIf hLater selected r
      simp only [visibleItems, Edit.stamp, List.filter_map,
        List.map_map, hItem, hVisible]

theorem visibleItems_stampEdits
    {t later : τ}
    (hLater : t < later)
    (rows : List (Stamped ν τ))
    (edits : List (Edit ν)) :
    visibleItems t (stampEdits later rows edits) =
      visibleItems t rows := by
  induction edits generalizing rows with
  | nil => rfl
  | cons edit edits ih =>
      rw [stampEdits_cons, ih,
        visibleItems_stamp hLater]

end Planar

------------------------------------------------------------
-- Stamps Come From the Log
------------------------------------------------------------

namespace Planar

variable {ν τ : Type}

theorem stampsIn_stamp
    {P : τ → Prop}
    {t : τ}
    {rows : List (Stamped ν τ)}
    (edit : Edit ν)
    (hTime : P t)
    (hRows : ∀ r ∈ rows, r.StampsIn P) :
    ∀ r ∈ edit.stamp t rows, r.StampsIn P := by
  intro r hr
  cases edit with
  | insert items =>
      rcases List.mem_append.mp hr with hOld | hNew
      · exact hRows r hOld
      · rcases List.mem_map.mp hNew with ⟨v, _, rfl⟩
        exact ⟨hTime, by simp⟩
  | retire selected =>
      rcases List.mem_map.mp hr with ⟨old, hOld, rfl⟩
      have hStamps := hRows old hOld
      refine ⟨by simpa using hStamps.1, ?_⟩
      intro c hc
      rw [Stamped.closeIf_closed] at hc
      split at hc
      · rw [Option.mem_some_iff] at hc
        exact hc ▸ hTime
      · exact hStamps.2 c hc

theorem stampsIn_stampEdits
    {P : τ → Prop}
    {t : τ}
    {rows : List (Stamped ν τ)}
    (edits : List (Edit ν))
    (hTime : P t)
    (hRows : ∀ r ∈ rows, r.StampsIn P) :
    ∀ r ∈ stampEdits t rows edits, r.StampsIn P := by
  induction edits generalizing rows with
  | nil => exact hRows
  | cons edit edits ih =>
      exact ih (stampsIn_stamp edit hTime hRows)

/- Every stamp of a row is the time of a log entry. -/
theorem stampsIn_stampLog
    {P : τ → Prop}
    (log : List (τ × List (Edit ν)))
    (hTimes : ∀ entry ∈ log, P entry.1) :
    ∀ r ∈ stampLog log, r.StampsIn P := by
  induction log using List.reverseRecOn with
  | nil => simp
  | append_singleton log entry ih =>
      rw [stampLog_concat]
      apply stampsIn_stampEdits
      · exact hTimes entry (by simp)
      · apply ih
        intro earlier hEarlier
        exact hTimes earlier
          (List.mem_append_left _ hEarlier)

end Planar

------------------------------------------------------------
-- Snapshots Equal Replay
------------------------------------------------------------

namespace Planar

variable {ν τ : Type} [LinearOrder τ]

/-
  Right after the last entry, with increasing times, the
  visible rows are the live items.
-/
theorem visibleItems_stampLog_last
    (log : List (τ × List (Edit ν)))
    (t : τ)
    (hPast : ∀ entry ∈ log, entry.1 ≤ t) :
    visibleItems t (stampLog log) = replayLog log := by
  rw [← open_items_stampLog, visibleItems]
  congr 1
  apply List.filter_congr
  intro r hr
  exact Stamped.visibleAt_eq_isOpen
    (stampsIn_stampLog log hPast r hr)

/- Later entries keep what was visible. -/
theorem visibleItems_stampLog_append
    (before after : List (τ × List (Edit ν)))
    (t : τ)
    (hAfter : ∀ entry ∈ after, t < entry.1) :
    visibleItems t (stampLog (before ++ after)) =
      visibleItems t (stampLog before) := by
  induction after using List.reverseRecOn with
  | nil => rw [List.append_nil]
  | append_singleton after entry ih =>
      rw [← List.append_assoc, stampLog_concat,
        visibleItems_stampEdits
          (hAfter entry (by simp))]
      apply ih
      intro earlier hEarlier
      exact hAfter earlier
        (List.mem_append_left _ hEarlier)

/-
  The snapshot theorem: when the times of the log increase,
  the rows visible at the time of an entry are the items
  live after replaying the log up to that entry.
-/
theorem visibleItems_stampLog
    (before after : List (τ × List (Edit ν)))
    (t : τ)
    (hBefore : ∀ entry ∈ before, entry.1 ≤ t)
    (hAfter : ∀ entry ∈ after, t < entry.1) :
    visibleItems t (stampLog (before ++ after)) =
      replayLog before := by
  rw [visibleItems_stampLog_append before after t hAfter,
    visibleItems_stampLog_last before t hBefore]

end Planar

------------------------------------------------------------
-- Rows Stamped by One Entry
------------------------------------------------------------

namespace Planar

variable {ν τ : Type} [DecidableEq τ]

/- The items opened at a time. -/
def openedItems
    (t : τ)
    (rows : List (Stamped ν τ)) : List ν :=
  (rows.filter fun r => r.opened = t).map Stamped.item

/- The items closed at a time. -/
def closedItems
    (t : τ)
    (rows : List (Stamped ν τ)) : List ν :=
  (rows.filter fun r => r.closed = some t).map
    Stamped.item

theorem openedItems_stamp
    (t s : τ)
    (rows : List (Stamped ν τ))
    (edit : Edit ν) :
    openedItems t (edit.stamp s rows) =
      openedItems t rows ++
        if s = t then edit.inserted else [] := by
  cases edit with
  | insert items =>
      by_cases hTime : s = t
      · subst hTime
        simp [openedItems, Edit.stamp, Edit.inserted,
          List.filter_map, Function.comp_def]
      · simp [openedItems, Edit.stamp, hTime,
          List.filter_map, Function.comp_def]
  | retire selected =>
      simp [openedItems, Edit.stamp, Edit.inserted,
        List.filter_map, Function.comp_def]

theorem openedItems_stampEdits
    (t s : τ)
    (rows : List (Stamped ν τ))
    (edits : List (Edit ν)) :
    openedItems t (stampEdits s rows edits) =
      openedItems t rows ++
        if s = t then insertedBy edits else [] := by
  induction edits generalizing rows with
  | nil => simp [insertedBy]
  | cons edit edits ih =>
      rw [stampEdits_cons, ih, openedItems_stamp,
        List.append_assoc]
      by_cases hTime : s = t <;>
        simp [hTime, insertedBy]

/-
  Among entries of distinct times, the items opened at the
  time of one entry are exactly those it inserted.
-/
theorem openedItems_stampLog
    (before after : List (τ × List (Edit ν)))
    (entry : τ × List (Edit ν))
    (hBefore : ∀ e ∈ before, e.1 ≠ entry.1)
    (hAfter : ∀ e ∈ after, e.1 ≠ entry.1) :
    openedItems entry.1
        (stampLog (before ++ entry :: after)) =
      insertedBy entry.2 := by
  induction after using List.reverseRecOn with
  | nil =>
      have hOld :
          openedItems entry.1 (stampLog before) = [] := by
        rw [openedItems, List.map_eq_nil_iff,
          List.filter_eq_nil_iff]
        intro r hr
        have hStamps :=
          stampsIn_stampLog (P := (· ≠ entry.1))
            before hBefore r hr
        simpa using hStamps.1
      rw [stampLog_concat, openedItems_stampEdits, hOld]
      simp
  | append_singleton after last ih =>
      rw [← List.cons_append, ← List.append_assoc,
        stampLog_concat, openedItems_stampEdits,
        ih fun e he =>
          hAfter e (List.mem_append_left _ he)]
      simp [hAfter last (by simp)]

theorem closedItems_stamp_other
    {t s : τ}
    (hTime : s ≠ t)
    (rows : List (Stamped ν τ))
    (edit : Edit ν) :
    closedItems t (edit.stamp s rows) =
      closedItems t rows := by
  cases edit with
  | insert items =>
      simp [closedItems, Edit.stamp, List.filter_map,
        Function.comp_def]
  | retire selected =>
      have hSame (r : Stamped ν τ) :
          decide ((r.closeIf s selected).closed = some t) =
            decide (r.closed = some t) := by
        rw [Stamped.closeIf_closed]
        split
        · rename_i hBoth
          have hOpen : r.isOpen = true :=
            (Bool.and_eq_true_iff.mp hBoth).1
          have hClosed : r.closed = none :=
            Option.isNone_iff_eq_none.mp hOpen
          simp [hTime, hClosed]
        · rfl
      simp [closedItems, Edit.stamp, List.filter_map,
        Function.comp_def, hSame]

theorem closedItems_stampEdits_other
    {t s : τ}
    (hTime : s ≠ t)
    (rows : List (Stamped ν τ))
    (edits : List (Edit ν)) :
    closedItems t (stampEdits s rows edits) =
      closedItems t rows := by
  induction edits generalizing rows with
  | nil => rfl
  | cons edit edits ih =>
      rw [stampEdits_cons, ih,
        closedItems_stamp_other hTime]

/- One retirement adds the selected open rows. -/
theorem closedItems_retire
    (t : τ)
    (rows : List (Stamped ν τ))
    (selected : ν → Bool) :
    (closedItems t
        ((Edit.retire selected).stamp t rows)).Perm
      (closedItems t rows ++
        ((rows.filter Stamped.isOpen).map
          Stamped.item).filter selected) := by
  induction rows with
  | nil => exact .refl _
  | cons r rows ih =>
      simp only [closedItems, Edit.stamp] at ih
      have hHead := Stamped.closeIf_closed t selected r
      cases hBoth : r.isOpen && selected r.item with
      | true =>
          rcases Bool.and_eq_true_iff.mp hBoth with
            ⟨hOpen, hSelected⟩
          have hClosed : r.closed = none :=
            Option.isNone_iff_eq_none.mp hOpen
          rw [hBoth, if_pos rfl] at hHead
          simp only [closedItems, Edit.stamp, List.map_cons,
            List.filter_cons, hHead, decide_true, if_true,
            Stamped.closeIf_item, hClosed, hOpen,
            hSelected, reduceCtorEq, decide_false,
            Bool.false_eq_true, if_false]
          exact (ih.cons r.item).trans
            List.perm_middle.symm
      | false =>
          have hItems :
              ((if r.isOpen = true then
                  r :: rows.filter Stamped.isOpen
                else rows.filter Stamped.isOpen).map
                  Stamped.item).filter selected =
                ((rows.filter Stamped.isOpen).map
                  Stamped.item).filter selected := by
            cases hOpen : r.isOpen with
            | false => simp
            | true =>
                have hSelected : selected r.item = false := by
                  simpa [hOpen] using hBoth
                simp [hSelected]
          rw [hBoth] at hHead
          simp only [Bool.false_eq_true, if_false] at hHead
          simp only [closedItems, Edit.stamp, List.map_cons,
            List.filter_cons, hHead]
          rw [hItems]
          by_cases hClosed : r.closed = some t
          · simp only [hClosed, decide_true, if_true,
              List.map_cons, Stamped.closeIf_item,
              List.cons_append]
            exact ih.cons r.item
          · simp only [hClosed, decide_false,
              Bool.false_eq_true, if_false]
            exact ih

theorem closedItems_stamp
    (t : τ)
    (rows : List (Stamped ν τ))
    (edit : Edit ν) :
    (closedItems t (edit.stamp t rows)).Perm
      (closedItems t rows ++
        edit.retired
          ((rows.filter Stamped.isOpen).map
            Stamped.item)) := by
  cases edit with
  | insert items =>
      simp [closedItems, Edit.stamp, Edit.retired,
        List.filter_map, Function.comp_def]
  | retire selected =>
      exact closedItems_retire t rows selected

theorem closedItems_stampEdits
    (t : τ)
    (rows : List (Stamped ν τ))
    (edits : List (Edit ν)) :
    (closedItems t (stampEdits t rows edits)).Perm
      (closedItems t rows ++
        retiredBy
          ((rows.filter Stamped.isOpen).map Stamped.item)
          edits) := by
  induction edits generalizing rows with
  | nil => simp [retiredBy]
  | cons edit edits ih =>
      rw [stampEdits_cons, retiredBy,
        ← List.append_assoc, ← open_items_stamp t]
      exact (ih _).trans
        ((closedItems_stamp t rows edit).append_right _)

/-
  Among entries of distinct times, the items closed at the
  time of one entry are exactly those it retired.
-/
theorem closedItems_stampLog
    (before after : List (τ × List (Edit ν)))
    (entry : τ × List (Edit ν))
    (hBefore : ∀ e ∈ before, e.1 ≠ entry.1)
    (hAfter : ∀ e ∈ after, e.1 ≠ entry.1) :
    (closedItems entry.1
        (stampLog (before ++ entry :: after))).Perm
      (retiredBy (replayLog before) entry.2) := by
  induction after using List.reverseRecOn with
  | nil =>
      have hOld :
          closedItems entry.1 (stampLog before) = [] := by
        rw [closedItems, List.map_eq_nil_iff,
          List.filter_eq_nil_iff]
        intro r hr hClosed
        have hStamps :=
          stampsIn_stampLog (P := (· ≠ entry.1))
            before hBefore r hr
        exact hStamps.2 entry.1
          (of_decide_eq_true hClosed) rfl
      rw [stampLog_concat]
      simpa [hOld, open_items_stampLog] using
        closedItems_stampEdits entry.1
          (stampLog before) entry.2
  | append_singleton after last ih =>
      rw [← List.cons_append, ← List.append_assoc,
        stampLog_concat,
        closedItems_stampEdits_other
          (hAfter last (by simp))]
      exact ih fun e he =>
        hAfter e (List.mem_append_left _ he)

end Planar

------------------------------------------------------------
-- Rows Along a Log
------------------------------------------------------------

namespace Planar

variable {ν τ : Type}

/-
  A later state of a row: the item and the opening stay, and
  an open row may have been closed, for a reason.
-/
structure Stamped.Continues
    (Closes : ν → τ → Prop)
    (s s' : Stamped ν τ) : Prop where
  item : s'.item = s.item
  opened : s'.opened = s.opened
  closed : s'.closed = s.closed ∨
    s.closed = none ∧
      ∃ t, s'.closed = some t ∧ Closes s.item t

/- Some entry of the log retired the item at a time. -/
def RetiredIn
    (log : List (τ × List (Edit ν)))
    (v : ν)
    (t : τ) : Prop :=
  ∃ entry ∈ log, entry.1 = t ∧
    ∃ selected, Edit.retire selected ∈ entry.2 ∧
      selected v = true

theorem Stamped.Continues.refl
    (Closes : ν → τ → Prop)
    (s : Stamped ν τ) :
    s.Continues Closes s :=
  ⟨rfl, rfl, .inl rfl⟩

theorem Stamped.Continues.trans
    {Closes : ν → τ → Prop}
    {a b c : Stamped ν τ}
    (hFirst : a.Continues Closes b)
    (hSecond : b.Continues Closes c) :
    a.Continues Closes c where
  item := hSecond.item.trans hFirst.item
  opened := hSecond.opened.trans hFirst.opened
  closed := by
    rcases hFirst.closed with hSame | ⟨hOpen, t, hClosed, hBy⟩
    · rcases hSecond.closed with hSame' | ⟨hOpen, t, hBy⟩
      · exact .inl (hSame'.trans hSame)
      · rw [hFirst.item] at hBy
        exact .inr ⟨hSame.symm.trans hOpen, t, hBy⟩
    · rcases hSecond.closed with hSame' | ⟨hOpen', _⟩
      · exact .inr ⟨hOpen, t, hSame'.trans hClosed, hBy⟩
      · rw [hClosed] at hOpen'
        cases hOpen'

theorem Stamped.Continues.mono
    {Closes Closes' : ν → τ → Prop}
    {a b : Stamped ν τ}
    (hContinues : a.Continues Closes b)
    (hMore : ∀ v t, Closes v t → Closes' v t) :
    a.Continues Closes' b where
  item := hContinues.item
  opened := hContinues.opened
  closed := by
    rcases hContinues.closed with
      hSame | ⟨hOpen, t, hClosed, hBy⟩
    · exact .inl hSame
    · exact .inr ⟨hOpen, t, hClosed, hMore _ _ hBy⟩

theorem Stamped.continues_closeIf
    {t : τ}
    {selected : ν → Bool}
    {edits : List (Edit ν)}
    (hEdit : Edit.retire selected ∈ edits)
    (s : Stamped ν τ) :
    s.Continues (RetiredIn [(t, edits)])
      (s.closeIf t selected) where
  item := s.closeIf_item t selected
  opened := s.closeIf_opened t selected
  closed := by
    rw [closeIf_closed]
    split
    · rename_i hBoth
      rcases Bool.and_eq_true_iff.mp hBoth with
        ⟨hOpen, hSelected⟩
      exact .inr ⟨Option.isNone_iff_eq_none.mp hOpen, t, rfl,
        (t, edits), List.mem_singleton_self _, rfl, selected,
        hEdit, hSelected⟩
    · exact .inl rfl

/- The edits of one entry, an end part of them at a time. -/
theorem retiredIn_singleton_mono
    {t : τ}
    {some more : List (Edit ν)}
    (hMore : ∀ x ∈ some, x ∈ more)
    (v : ν)
    (u : τ)
    (hRetired : RetiredIn [(t, some)] v u) :
    RetiredIn [(t, more)] v u := by
  rcases hRetired with
    ⟨entry, hEntry, hTime, selected, hEdit, hSelected⟩
  rcases List.mem_singleton.mp hEntry with rfl
  exact ⟨(t, more), List.mem_singleton_self _, hTime,
    selected, hMore _ hEdit, hSelected⟩

/- No row goes, and each goes on as it was or closed. -/
theorem exists_stampEdits
    (t : τ)
    (edits : List (Edit ν))
    {rows : List (Stamped ν τ)}
    {s : Stamped ν τ}
    (hRow : s ∈ rows) :
    ∃ s' ∈ stampEdits t rows edits,
      s.Continues (RetiredIn [(t, edits)]) s' := by
  induction edits generalizing rows s with
  | nil => exact ⟨s, hRow, .refl _ s⟩
  | cons edit rest ih =>
      rw [stampEdits_cons]
      have hRest := retiredIn_singleton_mono (t := t)
        fun x (hx : x ∈ rest) =>
          List.mem_cons_of_mem edit hx
      cases edit with
      | insert items =>
          rcases ih (List.mem_append_left _ hRow) with
            ⟨s', hRow', hContinues⟩
          exact ⟨s', hRow', hContinues.mono hRest⟩
      | retire selected =>
          rcases ih (List.mem_map_of_mem hRow) with
            ⟨s', hRow', hContinues⟩
          exact ⟨s', hRow',
            (s.continues_closeIf List.mem_cons_self).trans
              (hContinues.mono hRest)⟩

/- Every row goes back to an older or an inserted one. -/
theorem origin_stampEdits
    {t : τ}
    {edits : List (Edit ν)}
    {rows : List (Stamped ν τ)}
    {s' : Stamped ν τ}
    (hRow : s' ∈ stampEdits t rows edits) :
    ∃ s, (s ∈ rows ∨
        ∃ v ∈ insertedBy edits, s = ⟨v, t, none⟩) ∧
      s.Continues (RetiredIn [(t, edits)]) s' := by
  induction edits generalizing rows with
  | nil => exact ⟨s', .inl hRow, .refl _ s'⟩
  | cons edit rest ih =>
      rw [stampEdits_cons] at hRow
      have hRest := retiredIn_singleton_mono (t := t)
        fun x (hx : x ∈ rest) =>
          List.mem_cons_of_mem edit hx
      rcases ih hRow with ⟨s, hOld | ⟨v, hItem, hNew⟩, hs⟩
      · cases edit with
        | insert items =>
            refine ⟨s, ?_, hs.mono hRest⟩
            rcases List.mem_append.mp hOld with hOld | hNew
            · exact .inl hOld
            · rcases List.mem_map.mp hNew with ⟨v, hv, rfl⟩
              exact .inr ⟨v, List.mem_flatMap.mpr
                ⟨_, List.mem_cons_self, hv⟩, rfl⟩
        | retire selected =>
            rcases List.mem_map.mp hOld with
              ⟨s₀, hFirst, rfl⟩
            exact ⟨s₀, .inl hFirst,
              (s₀.continues_closeIf
                List.mem_cons_self).trans (hs.mono hRest)⟩
      · refine ⟨s, .inr ⟨v, ?_, hNew⟩, hs.mono hRest⟩
        rw [insertedBy, List.flatMap_cons]
        exact List.mem_append_right _ hItem

/-
  A row that is open after the edits is a new one, or none
  of the edits retires its item.
-/
theorem spared_of_isOpen
    {t : τ}
    {edits : List (Edit ν)}
    {rows : List (Stamped ν τ)}
    {s : Stamped ν τ}
    (hRow : s ∈ stampEdits t rows edits)
    (hOpen : s.isOpen = true) :
    (∃ v ∈ insertedBy edits, s = ⟨v, t, none⟩) ∨
      s ∈ rows ∧ ∀ selected, Edit.retire selected ∈ edits →
        selected s.item = false := by
  induction edits using List.reverseRecOn
      generalizing s with
  | nil => exact .inr ⟨hRow, fun _ hEdit => by cases hEdit⟩
  | append_singleton edits edit ih =>
      rw [stampEdits_concat] at hRow
      cases edit with
      | insert items =>
          rcases List.mem_append.mp hRow with hOld | hNew
          · rcases ih hOld hOpen with
              ⟨v, hItem, hSame⟩ | ⟨hBefore, hSpared⟩
            · refine .inl ⟨v, ?_, hSame⟩
              rw [insertedBy, List.flatMap_append]
              exact List.mem_append_left _ hItem
            · refine .inr ⟨hBefore, fun selected hEdit => ?_⟩
              apply hSpared
              simpa using hEdit
          · rcases List.mem_map.mp hNew with ⟨v, hv, rfl⟩
            refine .inl ⟨v, ?_, rfl⟩
            rw [insertedBy, List.flatMap_append]
            exact List.mem_append_right _
              (by simpa [Edit.inserted] using hv)
      | retire last =>
          rcases List.mem_map.mp hRow with ⟨s₀, hOld, rfl⟩
          rw [Stamped.closeIf_isOpen,
            Bool.and_eq_true_iff] at hOpen
          have hLast : last s₀.item = false := by
            simpa using hOpen.2
          have hSame : s₀.closeIf t last = s₀ := by
            unfold Stamped.closeIf
            rw [hLast, Bool.and_false]
            rfl
          rw [hSame]
          rcases ih hOld hOpen.1 with
            ⟨v, hItem, hNew⟩ | ⟨hBefore, hSpared⟩
          · refine .inl ⟨v, ?_, hNew⟩
            rw [insertedBy, List.flatMap_append]
            exact List.mem_append_left _ hItem
          · refine .inr ⟨hBefore, fun selected hEdit => ?_⟩
            rcases List.mem_append.mp hEdit with
              hEdit | hEdit
            · exact hSpared selected hEdit
            · rw [List.mem_singleton,
                Edit.retire.injEq] at hEdit
              rw [hEdit]
              exact hLast

/- A row that no edit retires stays as it was. -/
theorem mem_stampEdits_of_spared
    (t : τ)
    {edits : List (Edit ν)}
    {rows : List (Stamped ν τ)}
    {s : Stamped ν τ}
    (hRow : s ∈ rows)
    (hSpared : ∀ selected, Edit.retire selected ∈ edits →
      selected s.item = false) :
    s ∈ stampEdits t rows edits := by
  induction edits generalizing rows with
  | nil => exact hRow
  | cons edit rest ih =>
      rw [stampEdits_cons]
      apply ih
      · cases edit with
        | insert items => exact List.mem_append_left _ hRow
        | retire selected =>
            have hNot := hSpared selected List.mem_cons_self
            apply List.mem_map.mpr
            refine ⟨s, hRow, ?_⟩
            unfold Stamped.closeIf
            rw [hNot, Bool.and_false]
            rfl
      · intro selected hEdit
        exact hSpared selected
          (List.mem_cons_of_mem edit hEdit)

/- The rows of a log go on in every longer log. -/
theorem exists_stampLog
    (before after : List (τ × List (Edit ν)))
    {s : Stamped ν τ}
    (hRow : s ∈ stampLog before) :
    ∃ s' ∈ stampLog (before ++ after),
      s.Continues (RetiredIn after) s' := by
  induction after using List.reverseRecOn with
  | nil =>
      rw [List.append_nil]
      exact ⟨s, hRow, .refl _ s⟩
  | append_singleton after entry ih =>
      rcases ih with ⟨s₁, hRow₁, hFirst⟩
      rcases exists_stampEdits entry.1 entry.2 hRow₁ with
        ⟨s₂, hRow₂, hSecond⟩
      rw [← List.append_assoc, stampLog_concat]
      refine ⟨s₂, hRow₂, (hFirst.mono ?_).trans
        (hSecond.mono ?_)⟩
      · rintro v t ⟨e, hEntry, hRetired⟩
        exact ⟨e, List.mem_append_left _ hEntry, hRetired⟩
      · rintro v t ⟨e, hEntry, hRetired⟩
        exact ⟨e, List.mem_append_right _ hEntry, hRetired⟩

/- The entry that inserted a row, and one that closed it. -/
theorem origin_stampLog
    {log : List (τ × List (Edit ν))}
    {s : Stamped ν τ}
    (hRow : s ∈ stampLog log) :
    ∃ before entry after,
      log = before ++ entry :: after ∧
      s.opened = entry.1 ∧
      s.item ∈ insertedBy entry.2 ∧
      ∀ t, s.closed = some t →
        RetiredIn (entry :: after) s.item t := by
  induction log using List.reverseRecOn generalizing s with
  | nil => cases hRow
  | append_singleton log entry ih =>
      rw [stampLog_concat] at hRow
      rcases origin_stampEdits hRow with
        ⟨s₀, hOld | ⟨v, hItem, rfl⟩, hs⟩
      · rcases ih hOld with
          ⟨before, first, after, hLog, hOpened, hItem,
            hClosed⟩
        refine ⟨before, first, after ++ [entry], ?_,
          hs.opened.trans hOpened, ?_, ?_⟩
        · rw [hLog, List.append_assoc, List.cons_append]
        · rwa [hs.item]
        · intro t hTime
          rw [hs.item]
          rcases hs.closed with hSame | ⟨_, u, hEnd, hBy⟩
          · rcases hClosed t (hSame ▸ hTime) with
              ⟨e, hEntry, hRetired⟩
            refine ⟨e, ?_, hRetired⟩
            rw [← List.cons_append]
            exact List.mem_append_left _ hEntry
          · rw [hEnd, Option.some.injEq] at hTime
            subst hTime
            rcases hBy with ⟨e, hEntry, hRetired⟩
            refine ⟨e, ?_, hRetired⟩
            rw [← List.cons_append]
            exact List.mem_append_right _ hEntry
      · refine ⟨log, entry, [], rfl, hs.opened, ?_, ?_⟩
        · rwa [hs.item]
        · intro t hTime
          rw [hs.item]
          rcases hs.closed with hSame | ⟨_, u, hEnd, hBy⟩
          · rw [hSame] at hTime
            cases hTime
          · rw [hEnd, Option.some.injEq] at hTime
            subst hTime
            exact hBy

end Planar
