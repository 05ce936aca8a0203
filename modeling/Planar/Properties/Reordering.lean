import Planar.Foundations.KeyedLogs
import Planar.Properties.Isolation

/-
  Calls on different tables commute: the accepted calls are
  accepted in any order that keeps the order of each table,
  also when the last calls on some tables are missing.

  Main declarations:
    * `World.Reachable.admissible`
    * `World.Reachable.run_before`
    * `World.Reachable.reorders`
-/

------------------------------------------------------------
-- The Calls Before
------------------------------------------------------------

namespace Planar

open KeyedLogs

variable
  {ext : External}
  {w : World}
  {calls : List Call}

/- Every recorded call was admissible when it was made. -/
theorem World.Reachable.admissible
    {earlier later : List Call}
    {call : Call}
    (hReach : w.Reachable ext)
    (hReads : ∀ call ∈ w.calls, call.ReadsTypes ext)
    (hSplit : w.calls = earlier ++ call :: later) :
    call.Admissible ext earlier := by
  induction hReach generalizing later with
  | refl => simp at hSplit
  | @tail w w' hSteps hStep ih =>
      have hInv := Reachable.inv hSteps
      rcases hStep with ⟨made, rfl⟩ | ⟨ident, rfl⟩
      · rcases @World.perform_cases ext w made with
          ⟨hOk, hCalls⟩ | ⟨_, hSame⟩
        · rw [hCalls] at hReads hSplit
          have hBefore : ∀ call ∈ w.calls,
              call.ReadsTypes ext := fun call hCall =>
            hReads call (List.mem_append_left _ hCall)
          rcases List.eq_nil_or_concat later with
            rfl | ⟨rest, last, rfl⟩
          · rcases List.append_inj' hSplit rfl with
              ⟨rfl, hLast⟩
            rw [List.cons.injEq] at hLast
            rcases hLast with ⟨rfl, _⟩
            exact (Reachable.accepts_iff hSteps
              (World.readsTypes hBefore _)).mp hOk
          · have hLonger :
                w.calls ++ [made] =
                  (earlier ++ call :: rest) ++ [last] := by
              rw [hSplit, List.concat_eq_append,
                List.append_assoc, List.cons_append]
            exact ih hBefore
              (List.append_inj' hLonger rfl).1
        · rw [hSame] at hReads hSplit
          exact ih hReads hSplit
      · rw [hInv.drop_eq] at hReads hSplit
        exact ih hReads hSplit

------------------------------------------------------------
-- Cuts of the Log
------------------------------------------------------------

/- Every first part of a cut is accepted as a whole. -/
theorem World.Reachable.run_before
    {before after : List Call}
    (hReach : w.Reachable ext)
    (hReads : ∀ call ∈ w.calls, call.ReadsTypes ext)
    (hCut : Cut Call.ident w.calls (before ++ after)) :
    (World.run ext before).calls = before := by
  induction before using List.reverseRecOn
      generalizing after with
  | nil => rfl
  | append_singleton before call ih =>
      rw [List.append_assoc] at hCut
      have hBefore := ih hCut
      rcases hCut.before with
        ⟨earlier, later, hSplit, hTable⟩
      have hFresh := notMem_before
        (hCut.nodup hReach.nodup_keys)
      have hAdmissible :=
        (hReach.admissible hReads hSplit).of_table hTable
          hFresh
      have hTypes : ∀ other ∈ (World.run ext before).calls,
          other.ReadsTypes ext := by
        intro other hOther
        rw [hBefore] at hOther
        exact hReads other (hCut.subperm.subset
          (List.mem_append_left _ hOther))
      have hAccepts :=
        ((World.reachable_run ext before).accepts_iff
          (World.readsTypes hTypes call.ident)).mpr
            (hBefore.symm ▸ hAdmissible)
      rw [World.run_concat]
      rcases @World.perform_cases ext
          (World.run ext before) call with
        ⟨_, hCalls⟩ | ⟨hError, _⟩
      · rw [hCalls, hBefore]
      · exact absurd hAccepts hError

/-
  A cut of the accepted calls is accepted as a whole, in its
  own order, and every table that keeps all of its calls is
  read as before.
-/
theorem World.Reachable.reorders
    (hReach : w.Reachable ext)
    (hReads : ∀ call ∈ w.calls, call.ReadsTypes ext)
    (hCut : Cut Call.ident w.calls calls) :
    (World.run ext calls).calls = calls ∧
      ∀ ident,
        tableCalls calls ident = tableCalls w.calls ident →
        SameReads ext w.database
          (World.run ext calls).database ident := by
  have hCalls : (World.run ext calls).calls = calls := by
    rw [← List.append_nil calls] at hCut
    exact hReach.run_before hReads hCut
  refine ⟨hCalls, ?_⟩
  intro ident hSame
  have hTable :
      (World.run ext calls).callsOn ident =
        w.callsOn ident := by
    rw [World.callsOn, hCalls]
    exact hSame
  exact (hReach.sameTable (World.reachable_run ext calls)
    hTable).reads ext

/- The sample run with a second table made after it. -/
def sampleBoth : World :=
  World.run sampleExternal
    (sampleCalls ++
      [.create
        { catalog := sampleCatalog
          ident := ⟨"n", "u"⟩
          location := "l"
          schema := ⟨[⟨"a", .int32, false⟩]⟩
          properties := none
          draws := sampleDraws 4 }])

theorem reorders_sample :
    let calls :=
      sampleBoth.calls.drop 3 ++ sampleBoth.calls.take 3
    (World.run sampleExternal calls).calls = calls ∧
      ∀ ident,
        tableCalls calls ident =
            tableCalls sampleBoth.calls ident →
          SameReads sampleExternal sampleBoth.database
            (World.run sampleExternal calls).database
              ident := by
  have hCut := @Cut.swap _ _ _ Call.ident
    (sampleBoth.calls.take 3) (sampleBoth.calls.drop 3)
    (by decide +kernel)
  rw [List.take_append_drop] at hCut
  exact World.Reachable.reorders
    (World.reachable_run sampleExternal _)
    (by decide +kernel) hCut

end Planar
