import Planar.Foundations.StampedRows

/-
  A succession of items, each in force from its own time
  until the time of the next one.

  Main declarations:
    * `succession`
    * `getElem?_succession`
    * `succession_concat`
    * `filter_visibleAt_succession`
    * `filter_opened_succession`
-/

------------------------------------------------------------
-- Consecutive Intervals
------------------------------------------------------------

namespace Planar

variable {ν τ : Type}

/- Each point closes the one before it. -/
def succession :
    List (τ × ν) → List (Stamped ν τ)
| [] => []
| [(t, v)] => [⟨v, t, none⟩]
| (t, v) :: (s, w) :: rest =>
    ⟨v, t, some s⟩ :: succession ((s, w) :: rest)

@[simp] theorem succession_nil :
    succession ([] : List (τ × ν)) = [] := rfl

/-
  The row at a position has that position's item and time
  and is closed by the next position's time, if any.
-/
theorem getElem?_succession
    (points : List (τ × ν))
    (i : Nat) :
    (succession points)[i]? =
      points[i]?.map fun p =>
        ⟨p.2, p.1, points[i + 1]?.map Prod.fst⟩ := by
  induction points using succession.induct
      generalizing i with
  | case1 => simp
  | case2 t v =>
      cases i <;> simp [succession]
  | case3 t v s w rest ih =>
      cases i with
      | zero => simp [succession]
      | succ i => simpa [succession] using ih i

/- The row of a point in the middle. -/
theorem getElem?_succession_middle
    (points after : List (τ × ν))
    (p : τ × ν) :
    (succession (points ++ p :: after))[points.length]? =
      some ⟨p.2, p.1, after.head?.map Prod.fst⟩ := by
  have hNext :
      (points ++ p :: after)[points.length + 1]? =
        after.head? := by
    rw [List.getElem?_append_right (by omega),
      List.head?_eq_getElem?]
    simp
  rw [getElem?_succession]
  simp [hNext]

@[simp] theorem length_succession
    (points : List (τ × ν)) :
    (succession points).length = points.length := by
  induction points using succession.induct with
  | case1 => rfl
  | case2 t v => rfl
  | case3 t v s w rest ih =>
      simpa [succession] using ih

theorem opened_succession
    (points : List (τ × ν)) :
    (succession points).map Stamped.opened =
      points.map Prod.fst := by
  induction points using succession.induct with
  | case1 => rfl
  | case2 t v => rfl
  | case3 t v s w rest ih =>
      simpa [succession] using ih

/-
  A new point closes the open row and adds its own row.
-/
theorem succession_concat
    (points : List (τ × ν))
    (t : τ)
    (v : ν) :
    succession (points ++ [(t, v)]) =
      (succession points).map
          (Stamped.closeIf t fun _ => true) ++
        [⟨v, t, none⟩] := by
  induction points using succession.induct with
  | case1 => rfl
  | case2 s w => rfl
  | case3 s w r x rest ih =>
      have hHead :
          Stamped.closeIf t (fun _ => true)
            (⟨w, s, some r⟩ : Stamped ν τ) =
          ⟨w, s, some r⟩ := rfl
      rw [List.cons_append, List.cons_append, succession,
        succession, List.map_cons, hHead,
        List.cons_append, ← ih, List.cons_append]

/- Only the last row of a succession is open. -/
theorem isOpen_succession
    (points : List (τ × ν))
    (t : τ)
    (v : ν) :
    (succession (points ++ [(t, v)])).filter
        Stamped.isOpen = [⟨v, t, none⟩] := by
  rw [succession_concat, List.filter_append]
  have hOld :
      ((succession points).map
        (Stamped.closeIf t fun _ => true)).filter
          Stamped.isOpen = [] := by
    apply List.filter_eq_nil_iff.mpr
    intro r hr
    rcases List.mem_map.mp hr with ⟨old, _, rfl⟩
    simp
  rw [hOld]
  rfl

/- The stamps of a succession are the times of its points. -/
theorem stampsIn_succession
    {P : τ → Prop}
    (points : List (τ × ν))
    (hTimes : ∀ p ∈ points, P p.1) :
    ∀ r ∈ succession points, r.StampsIn P := by
  intro r hr
  rcases List.mem_iff_getElem?.mp hr with ⟨i, hi⟩
  rw [getElem?_succession] at hi
  rcases Option.map_eq_some_iff.mp hi with ⟨p, hp, rfl⟩
  refine ⟨hTimes p (List.mem_of_getElem? hp), ?_⟩
  intro c hc
  rcases Option.map_eq_some_iff.mp hc with ⟨q, hq, rfl⟩
  exact hTimes q (List.mem_of_getElem? hq)

end Planar

------------------------------------------------------------
-- The Row in Force
------------------------------------------------------------

namespace Planar

variable {ν τ : Type} [LinearOrder τ]

/-
  When all points have passed, the last one is in force and
  no other.
-/
theorem filter_visibleAt_succession_last
    (points : List (τ × ν))
    (s t : τ)
    (v : ν)
    (hPast : ∀ p ∈ points, p.1 ≤ t)
    (hLast : s ≤ t) :
    (succession (points ++ [(s, v)])).filter
        (Stamped.visibleAt t) = [⟨v, s, none⟩] := by
  rw [← isOpen_succession points s v]
  apply List.filter_congr
  intro r hr
  apply Stamped.visibleAt_eq_isOpen
  apply stampsIn_succession (points ++ [(s, v)]) _ r hr
  intro p hp
  rcases List.mem_append.mp hp with hOld | hNew
  · exact hPast p hOld
  · rw [List.mem_singleton] at hNew
    rw [hNew]
    exact hLast

/-
  At a time between two points exactly one row is in force:
  the row of the last point reached.
-/
theorem filter_visibleAt_succession
    (points after : List (τ × ν))
    (s t : τ)
    (v : ν)
    (hPast : ∀ p ∈ points, p.1 ≤ t)
    (hLast : s ≤ t)
    (hAfter : ∀ p ∈ after, t < p.1) :
    (succession (points ++ (s, v) :: after)).filter
        (Stamped.visibleAt t) =
      [⟨v, s, after.head?.map Prod.fst⟩] := by
  induction after using List.reverseRecOn with
  | nil =>
      exact filter_visibleAt_succession_last
        points s t v hPast hLast
  | append_singleton after p ih =>
      have hNew : t < p.1 := hAfter p (by simp)
      have hOld := ih fun q hq =>
        hAfter q (List.mem_append_left _ hq)
      have hVisible :
          Stamped.visibleAt t ∘
              Stamped.closeIf p.1 (fun _ => true) =
            (Stamped.visibleAt t :
              Stamped ν τ → Bool) := by
        funext r
        exact Stamped.visibleAt_closeIf hNew _ r
      have hLater :
          (⟨p.2, p.1, none⟩ : Stamped ν τ).visibleAt t =
            false := by
        simp [Stamped.visibleAt, hNew]
      rw [← List.cons_append, ← List.append_assoc,
        succession_concat, List.filter_append,
        List.filter_map, hVisible, hOld]
      cases after with
      | nil =>
          simp [hLater, Stamped.closeIf, Stamped.isOpen]
      | cons q rest =>
          simp [hLater, Stamped.closeIf, Stamped.isOpen]

/- Among distinct times one row opens at each point. -/
theorem filter_opened_succession
    (points after : List (τ × ν))
    (s : τ)
    (v : ν)
    (hPoints : ∀ p ∈ points, p.1 ≠ s)
    (hAfter : ∀ p ∈ after, p.1 ≠ s) :
    (succession (points ++ (s, v) :: after)).filter
        (fun r => r.opened = s) =
      [⟨v, s, after.head?.map Prod.fst⟩] := by
  induction after using List.reverseRecOn with
  | nil =>
      have hOld :
          ((succession points).map
            (Stamped.closeIf s fun _ => true)).filter
              (fun r => r.opened = s) = [] := by
        apply List.filter_eq_nil_iff.mpr
        intro r hr
        rcases List.mem_map.mp hr with ⟨old, hOld, rfl⟩
        have hStamps :=
          stampsIn_succession (P := (· ≠ s))
            points hPoints old hOld
        simpa using hStamps.1
      rw [succession_concat, List.filter_append, hOld]
      simp
  | append_singleton after p ih =>
      have hNew : p.1 ≠ s := hAfter p (by simp)
      have hOld := ih fun q hq =>
        hAfter q (List.mem_append_left _ hq)
      have hOpened :
          (fun r : Stamped ν τ => decide (r.opened = s)) ∘
              Stamped.closeIf p.1 (fun _ => true) =
            fun r => decide (r.opened = s) := by
        funext r
        simp
      rw [← List.cons_append, ← List.append_assoc,
        succession_concat, List.filter_append,
        List.filter_map, hOpened, hOld]
      cases after with
      | nil =>
          simp [hNew, Stamped.closeIf, Stamped.isOpen]
      | cons q rest =>
          simp [hNew, Stamped.closeIf, Stamped.isOpen]

end Planar
