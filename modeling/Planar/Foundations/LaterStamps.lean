import Planar.Foundations.StampedRows
import Planar.Foundations.Succession

/-
  What a longer log makes of the rows of a log: open rows
  may get closed, and new rows come after the old ones.

  Main declarations:
    * `closesAt`, `closingTime`
    * `Stamped.until`
    * `stampLog_append`
    * `succession_append`
-/

------------------------------------------------------------
-- Closing Times
------------------------------------------------------------

namespace Planar

variable {ν τ : Type}

/- Whether the edit retires the item if it is live. -/
def Edit.retires (v : ν) : Edit ν → Bool
| .insert _ => false
| .retire selected => selected v

/- The time of the edits if one of them retires the item. -/
def closesAt
    (t : τ)
    (edits : List (Edit ν))
    (v : ν) : Option τ :=
  if edits.any (Edit.retires v) then some t else none

/- The time of the first entry that retires the item. -/
def closingTime
    (log : List (τ × List (Edit ν)))
    (v : ν) : Option τ :=
  log.findSome? fun entry => closesAt entry.1 entry.2 v

/- The row after a time at which it may have been closed. -/
def Stamped.until
    (closing : Option τ)
    (s : Stamped ν τ) : Stamped ν τ :=
  { s with closed := s.closed.or closing }

@[simp] theorem Stamped.until_none
    (s : Stamped ν τ) :
    s.until none = s := by
  simp [Stamped.until]

@[simp] theorem Stamped.until_until
    (first second : Option τ)
    (s : Stamped ν τ) :
    (s.until first).until second =
      s.until (first.or second) := by
  simp [Stamped.until, Option.or_assoc]

/- Closing a row is giving it a time if it is selected. -/
theorem Stamped.closeIf_eq_until
    (t : τ)
    (selected : ν → Bool)
    (s : Stamped ν τ) :
    s.closeIf t selected =
      s.until (if selected s.item then some t else none) := by
  rcases s with ⟨item, opened, closed⟩
  cases closed <;> cases hSelected : selected item <;>
    simp [closeIf, isOpen, Stamped.until, hSelected]

theorem Stamped.StampsIn.until
    {P : τ → Prop}
    {s : Stamped ν τ}
    {closing : Option τ}
    (hStamps : s.StampsIn P)
    (hClosing : ∀ c ∈ closing, P c) :
    (s.until closing).StampsIn P := by
  refine ⟨hStamps.1, ?_⟩
  intro c hc
  rcases Option.or_eq_some_iff.mp hc with hOld | ⟨_, hNew⟩
  · exact hStamps.2 c hOld
  · exact hClosing c hNew

theorem closesAt_eq
    {t c : τ}
    {edits : List (Edit ν)}
    {v : ν}
    (hCloses : closesAt t edits v = some c) :
    c = t := by
  unfold closesAt at hCloses
  split at hCloses
  · exact (Option.some.inj hCloses).symm
  · cases hCloses

theorem closesAt_retire
    (t : τ)
    (selected : ν → Bool)
    (edits : List (Edit ν))
    (v : ν) :
    closesAt t (.retire selected :: edits) v =
      (if selected v then some t else none).or
        (closesAt t edits v) := by
  cases hSelected : selected v <;>
    simp [closesAt, Edit.retires, hSelected]

theorem closingTime_concat
    (log : List (τ × List (Edit ν)))
    (entry : τ × List (Edit ν))
    (v : ν) :
    closingTime (log ++ [entry]) v =
      (closingTime log v).or
        (closesAt entry.1 entry.2 v) := by
  simp [closingTime]

------------------------------------------------------------
-- Rows of a Longer Log
------------------------------------------------------------

/- The rows after the edits of one time. -/
theorem stampEdits_until
    (t : τ)
    (rows : List (Stamped ν τ))
    (edits : List (Edit ν)) :
    ∃ new,
      stampEdits t rows edits =
          rows.map (fun s =>
            s.until (closesAt t edits s.item)) ++ new ∧
        ∀ s ∈ new, s.StampsIn (· = t) := by
  induction edits generalizing rows with
  | nil => exact ⟨[], by simp [closesAt], by simp⟩
  | cons edit edits ih =>
      rcases ih (edit.stamp t rows) with
        ⟨new, hRows, hNew⟩
      cases edit with
      | insert items =>
          refine ⟨items.map (fun v => Stamped.until
            (closesAt t edits v) ⟨v, t, none⟩) ++ new,
            ?_, ?_⟩
          · rw [stampEdits_cons, hRows, Edit.stamp,
              List.map_append, List.map_map,
              List.append_assoc]
            rfl
          · intro s hs
            rcases List.mem_append.mp hs with hItem | hIn
            · rcases List.mem_map.mp hItem with ⟨v, _, rfl⟩
              exact Stamped.StampsIn.until ⟨rfl, by simp⟩
                fun c hc => closesAt_eq hc
            · exact hNew s hIn
      | retire selected =>
          refine ⟨new, ?_, hNew⟩
          rw [stampEdits_cons, hRows, Edit.stamp,
            List.map_map]
          congr 1
          apply List.map_congr_left
          intro s _
          rw [Function.comp_apply, Stamped.closeIf_item,
            Stamped.closeIf_eq_until, Stamped.until_until,
            closesAt_retire]

/-
  The rows of a log are rows of every longer log, closed
  where the new entries retire them, and the other rows have
  the times of new entries.
-/
theorem stampLog_append
    (log more : List (τ × List (Edit ν))) :
    ∃ new,
      stampLog (log ++ more) =
          (stampLog log).map (fun s =>
            s.until (closingTime more s.item)) ++ new ∧
        ∀ s ∈ new, s.StampsIn (· ∈ more.map Prod.fst) := by
  induction more using List.reverseRecOn with
  | nil => exact ⟨[], by simp [closingTime], by simp⟩
  | append_singleton more entry ih =>
      rcases ih with ⟨new, hRows, hNew⟩
      rcases stampEdits_until entry.1
          (stampLog (log ++ more)) entry.2 with
        ⟨new', hRows', hNew'⟩
      refine ⟨new.map (fun s => s.until
        (closesAt entry.1 entry.2 s.item)) ++ new', ?_, ?_⟩
      · rw [← List.append_assoc, stampLog_concat, hRows',
          hRows, List.map_append, List.map_map,
          List.append_assoc]
        congr 1
        apply List.map_congr_left
        intro s _
        rw [Function.comp_apply, Stamped.until_until,
          closingTime_concat]
        rfl
      · have hLast : entry.1 ∈
            (more ++ [entry]).map Prod.fst := by simp
        intro s hs
        rcases List.mem_append.mp hs with hOld | hIn
        · rcases List.mem_map.mp hOld with ⟨s₀, hs₀, rfl⟩
          have hStamps := hNew s₀ hs₀
          have hMore : ∀ c ∈ more.map Prod.fst,
              c ∈ (more ++ [entry]).map Prod.fst := by
            simp +contextual
          exact Stamped.StampsIn.until
            ⟨hMore _ hStamps.1,
              fun c hc => hMore c (hStamps.2 c hc)⟩
            fun c hc => closesAt_eq hc ▸ hLast
        · have hStamps := hNew' s hIn
          exact ⟨hStamps.1 ▸ hLast,
            fun c hc => hStamps.2 c hc ▸ hLast⟩

/-
  The rows of a succession are rows of every longer one, and
  the next point closes the last of them.
-/
theorem succession_append
    (points more : List (τ × ν)) :
    succession (points ++ more) =
      (succession points).map (fun s =>
          s.until (more.head?.map Prod.fst)) ++
        succession more := by
  induction points using succession.induct with
  | case1 => rfl
  | case2 t v =>
      rcases more with _ | ⟨⟨s, w⟩, rest⟩ <;> rfl
  | case3 t v s w rest ih =>
      rw [List.cons_append, List.cons_append, succession,
        ← List.cons_append, ih]
      rfl

end Planar
