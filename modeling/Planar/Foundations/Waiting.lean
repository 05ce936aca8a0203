import Mathlib.Data.DFinsupp.WellFounded
import Mathlib.SetTheory.Ordinal.Family
import Planar.Foundations.Batches

/-
  Transactions that wait for each other.  A writer that
  cannot take its next step waits for another one; where no
  writer waits for one that waits, all of them can end, and
  no run goes on for ever.

  Main declarations:
    * `Tx.StagesFreely`
    * `System.Waits`, `System.step_or_waits`
    * `Tx.rank`, `System.wellFounded_step`
    * `System.Reachable.each`
    * `System.all_end`
-/

------------------------------------------------------------
-- Programs That Take No Locks
------------------------------------------------------------

namespace Planar

namespace Tx

variable {σ ς κ ℓ ε α β : Type}

/-
  The program asks without locks, and every statement that
  it may stage satisfies P.
-/
def StagesFreely (P : ς → Prop) : Tx σ ς ℓ ε α → Prop
| .done _ => True
| .ask lock next =>
    ∀ v, lock v = none ∧ StagesFreely P (next v)
| .stage s next => P s ∧ StagesFreely P next

variable {P : ς → Prop}

theorem stagesFreely_select_bind
    {f : σ → α}
    {rest : α → Tx σ ς ℓ ε β}
    (hRest : ∀ v, StagesFreely P (rest (f v))) :
    StagesFreely P (select f >>= rest) :=
  fun v => ⟨rfl, hRest v⟩

theorem stagesFreely_execute
    {s : ς}
    (hStatement : P s) :
    StagesFreely P (execute s : Tx σ ς ℓ ε Unit) :=
  ⟨hStatement, trivial⟩

theorem StagesFreely.bind
    {p : Tx σ ς ℓ ε α}
    {f : α → Tx σ ς ℓ ε β}
    (hFirst : StagesFreely P p)
    (hRest : ∀ a, StagesFreely P (f a)) :
    StagesFreely P (p >>= f) := by
  induction p with
  | done result =>
      cases result with
      | ok a => exact hRest a
      | error e => exact trivial
  | ask lock next ih =>
      exact fun v => ⟨(hFirst v).1, ih v (hFirst v).2⟩
  | stage s next ih => exact ⟨hFirst.1, ih hFirst.2⟩

/- What follows a computation may use its success. -/
theorem stagesFreely_lift_bind
    {r : Except ε α}
    {f : α → Tx σ ς ℓ ε β}
    (hRest : ∀ a, r = .ok a → StagesFreely P (f a)) :
    StagesFreely P (lift r >>= f) := by
  cases r with
  | ok a => exact hRest a rfl
  | error e => exact trivial

/- A row that is built is built of the element there. -/
theorem mem_buildFrom
    {build : Nat → α → Except ε β}
    {start : Nat}
    {l : List α}
    {rows : List β}
    {row : β}
    (hOk : buildFrom build start l = .ok rows)
    (hRow : row ∈ rows) :
    ∃ i a, l[i]? = some a ∧
      build (start + i) a = .ok row := by
  induction l generalizing start rows with
  | nil =>
      cases hOk
      cases hRow
  | cons first rest ih =>
      rcases buildFrom_cons_ok.mp hOk with
        ⟨head, later, hHead, hLater, rfl⟩
      rcases List.mem_cons.mp hRow with rfl | hRow
      · exact ⟨0, first, rfl, hHead⟩
      · rcases ih hLater hRow with ⟨i, a, hAt, hBuild⟩
        refine ⟨i + 1, a, hAt, ?_⟩
        rw [← hBuild]
        congr 1
        omega

/- A batch stages what its elements are built into. -/
theorem stagesFreely_inBatches
    {build : Nat → α → Except ε β}
    {statement : List β → ς}
    {Q : β → Prop}
    {start : Nat}
    {pieces : List (List α)}
    (hStatement : ∀ rows, (∀ row ∈ rows, Q row) →
      P (statement rows))
    (hEach : ∀ i a row, pieces.flatten[i]? = some a →
      build (start + i) a = .ok row → Q row) :
    StagesFreely P
      (inBatches build statement start pieces :
        Tx σ ς ℓ ε Unit) := by
  induction pieces generalizing start with
  | nil => exact trivial
  | cons piece rest ih =>
      apply stagesFreely_lift_bind
      intro rows hRows
      refine StagesFreely.bind (stagesFreely_execute
        (hStatement rows ?_)) fun _ => ih ?_
      · intro row hRow
        rcases mem_buildFrom hRows hRow with
          ⟨i, a, hAt, hBuild⟩
        refine hEach i a row ?_ hBuild
        rcases List.getElem?_eq_some_iff.mp hAt with
          ⟨hIndex, _⟩
        rw [List.flatten_cons,
          List.getElem?_append_left hIndex]
        exact hAt
      · intro i a row hAt hBuild
        refine hEach (piece.length + i) a row ?_ ?_
        · rw [List.flatten_cons,
            List.getElem?_append_right
              (Nat.le_add_right _ _),
            Nat.add_sub_cancel_left]
          exact hAt
        · rw [← Nat.add_assoc]
          exact hBuild

------------------------------------------------------------
-- Programs Are Finite
------------------------------------------------------------

/- How much of the program is left, whatever it is told. -/
noncomputable def rank : Tx σ ς ℓ ε α → Ordinal.{0}
| .done _ => 0
| .ask _ next => ⨆ v, rank (next v) + 1
| .stage _ next => rank next + 1

theorem rank_next
    (lock : σ → Option ℓ)
    (next : σ → Tx σ ς ℓ ε α)
    (v : σ) :
    rank (next v) < rank (.ask lock next) :=
  Ordinal.lt_iSup_add_one (fun v => rank (next v)) v

end Tx

------------------------------------------------------------
-- Waiting
------------------------------------------------------------

/- A step in which a writer goes on by itself. -/
def Event.Advances
    {ι ε α : Type} : Event ι ε α → Prop
| .dropped _ => False
| _ => True

namespace System

variable
  {ι σ ς κ ℓ ε α : Type}
  [DecidableEq ι]
  {S : Store σ ς κ ε}
  {sys sys' : System ι σ ς ℓ ε α}
  {i j : ι}

/-
  The writer waits for the other one: for its lock, or until
  it is decided whether one of its keys comes to stay.
-/
inductive Waits
    (S : Store σ ς κ ε)
    (sys : System ι σ ς ℓ ε α)
    (i j : ι) : Prop
  | lock {w : Writer σ ς ℓ ε α}
      {staged : List ς} {locks : List ℓ}
      {lock : σ → Option ℓ} {next : σ → Tx σ ς ℓ ε α}
      {l : ℓ}
      (hWriter :
        sys.writers i = some ⟨staged, locks, .ask lock next⟩)
      (hOther : j ≠ i)
      (hOwner : sys.writers j = some w)
      (hLock : lock (S.apply sys.committed staged) = some l)
      (hHolds : l ∈ w.locks)
  | key {w : Writer σ ς ℓ ε α}
      {staged : List ς} {locks : List ℓ}
      {s : ς} {next : Tx σ ς ℓ ε α} {k : κ}
      (hWriter :
        sys.writers i = some ⟨staged, locks, .stage s next⟩)
      (hOther : j ≠ i)
      (hOwner : sys.writers j = some w)
      (hKey : k ∈ S.keys s)
      (hHolds : k ∈ w.staged.flatMap S.keys)

/- One step in which nobody is dropped. -/
def Advance
    (S : Store σ ς κ ε)
    (sys sys' : System ι σ ς ℓ ε α) : Prop :=
  ∃ event, Step S sys event sys' ∧ event.Advances

/- An open writer goes on, or it waits for another one. -/
theorem step_or_waits
    {w : Writer σ ς ℓ ε α}
    (hWriter : sys.writers i = some w) :
    (∃ sys', Advance S sys sys') ∨
      ∃ j, Waits S sys i j := by
  rcases w with ⟨staged, locks, rest⟩
  cases rest with
  | done result =>
      left
      cases result with
      | ok a => exact ⟨_, _, .succeed hWriter, trivial⟩
      | error e => exact ⟨_, _, .fail hWriter, trivial⟩
  | ask lock next =>
      by_cases hFree : sys.LockFree i
        (lock (S.apply sys.committed staged))
      · exact .inl ⟨_, _, .ask hWriter hFree, trivial⟩
      · right
        unfold LockFree at hFree
        push Not at hFree
        rcases hFree with
          ⟨l, hLock, j, w, hOther, hOwner, hHolds⟩
        exact ⟨j, .lock hWriter hOther hOwner hLock hHolds⟩
  | stage s next =>
      by_cases hFree : sys.KeysFree S i (S.keys s)
      · left
        cases hCheck :
            S.check s (S.apply sys.committed staged) with
        | ok u =>
            exact ⟨_, _, .stage hWriter hFree hCheck, trivial⟩
        | error e =>
            exact ⟨_, _, .refuse hWriter hFree hCheck, trivial⟩
      · right
        unfold KeysFree at hFree
        push Not at hFree
        rcases hFree with
          ⟨k, hKey, j, w, hOther, hOwner, hHolds⟩
        exact ⟨j, .key hWriter hOther hOwner hKey hHolds⟩

------------------------------------------------------------
-- Runs Are Finite
------------------------------------------------------------

/- How much every writer has left. -/
noncomputable def left
    (sys : System ι σ ς ℓ ε α)
    (i : ι) : Ordinal.{0} :=
  match sys.writers i with
  | none => 0
  | some w => w.rest.rank + 1

/- One writer has less left, and the others have the same. -/
theorem left_lt
    {committed : σ}
    {succeeded : List (ι × α)}
    {w : Writer σ ς ℓ ε α}
    {new : Option (Writer σ ς ℓ ε α)}
    (hWriter : sys.writers i = some w)
    (hNew : ∀ w' ∈ new, w'.rest.rank < w.rest.rank) :
    left { sys.withWriter i new with
        committed := committed
        succeeded := succeeded } <
      left sys := by
  rw [Pi.lt_def]
  have hLess :
      left { sys.withWriter i new with
          committed := committed
          succeeded := succeeded } i <
        left sys i := by
    unfold left
    dsimp only
    rw [withWriter_self, hWriter]
    dsimp only
    cases new with
    | none =>
        exact Order.lt_add_one_iff.mpr (zero_le)
    | some w' =>
        exact Order.lt_add_one_iff.mpr
          (Order.add_one_le_of_lt (hNew w' rfl))
  refine ⟨fun j => ?_, i, hLess⟩
  by_cases hSame : j = i
  · rw [hSame]
    exact hLess.le
  · unfold left
    dsimp only
    rw [withWriter_of_ne sys hSame]

theorem Step.left_lt
    {event : Event ι ε α}
    (hStep : Step S sys event sys') :
    left sys' < left sys := by
  cases hStep with
  | ask hWriter hFree =>
      refine System.left_lt hWriter fun w hNew => ?_
      cases hNew
      exact Tx.rank_next _ _ _
  | stage hWriter hFree hCheck =>
      refine System.left_lt hWriter fun w hNew => ?_
      cases hNew
      exact lt_add_one _
  | refuse hWriter hFree hCheck =>
      exact System.left_lt hWriter fun w hNew => by
        cases hNew
  | succeed hWriter =>
      exact System.left_lt hWriter fun w hNew => by
        cases hNew
  | fail hWriter =>
      exact System.left_lt hWriter fun w hNew => by
        cases hNew
  | drop hWriter =>
      exact System.left_lt hWriter fun w hNew => by
        cases hNew

/- With finitely many writers no run goes on for ever. -/
theorem wellFounded_step
    [Finite ι]
    (S : Store σ ς κ ε) :
    WellFounded fun sys' sys : System ι σ ς ℓ ε α =>
      ∃ event, Step S sys event sys' :=
  Subrelation.wf
    (fun ⟨_, hStep⟩ => hStep.left_lt)
    (InvImage.wf left wellFounded_lt)

------------------------------------------------------------
-- Each Writer by Itself
------------------------------------------------------------

/- What its own steps keep is true of every open writer. -/
theorem Reachable.each
    {v : σ}
    {program : ι → Tx σ ς ℓ ε α}
    {P : ι → Writer σ ς ℓ ε α → Prop}
    (hStart : ∀ i, P i ⟨[], [], program i⟩)
    (hAsk : ∀ i staged locks lock next v,
      P i ⟨staged, locks, .ask lock next⟩ →
        P i ⟨staged, locks ++ (lock v).toList, next v⟩)
    (hStage : ∀ i staged locks s next,
      P i ⟨staged, locks, .stage s next⟩ →
        P i ⟨staged ++ [s], locks, next⟩)
    (hReach : Reachable S v program sys) :
    ∀ i w, sys.writers i = some w → P i w := by
  have hWith {sys : System ι σ ς ℓ ε α} {i : ι}
      {new : Option (Writer σ ς ℓ ε α)}
      (hBefore : ∀ j w, sys.writers j = some w → P j w)
      (hNew : ∀ w ∈ new, P i w) :
      ∀ j w, (sys.withWriter i new).writers j = some w →
        P j w := by
    intro j w hWriter
    by_cases hSame : j = i
    · subst hSame
      rw [withWriter_self] at hWriter
      exact hNew w hWriter
    · rw [withWriter_of_ne sys hSame] at hWriter
      exact hBefore j w hWriter
  induction hReach with
  | start =>
      intro i w hWriter
      rcases Option.some.inj hWriter with rfl
      exact hStart i
  | step _ hStep ih =>
      cases hStep with
      | ask hWriter hFree =>
          refine hWith ih fun w hNew => ?_
          cases hNew
          exact hAsk _ _ _ _ _ _ (ih _ _ hWriter)
      | stage hWriter hFree hCheck =>
          refine hWith ih fun w hNew => ?_
          cases hNew
          exact hStage _ _ _ _ _ (ih _ _ hWriter)
      | refuse => exact hWith ih fun w hNew => by cases hNew
      | succeed =>
          exact hWith ih fun w hNew => by cases hNew
      | fail => exact hWith ih fun w hNew => by cases hNew
      | drop => exact hWith ih fun w hNew => by cases hNew

------------------------------------------------------------
-- All Writers Can End
------------------------------------------------------------

/-
  Where nobody waits for a writer that waits, the open
  writers can all go on to their ends, one step at a time.
-/
theorem all_end
    [Finite ι]
    {Good : System ι σ ς ℓ ε α → Prop}
    (hGood : ∀ sys sys', Good sys → Advance S sys sys' →
      Good sys')
    (hWaits : ∀ sys i j k, Good sys → Waits S sys i j →
      ¬ Waits S sys j k)
    (hStart : Good sys) :
    ∃ sys', Relation.ReflTransGen (Advance S) sys sys' ∧
      ∀ i, sys'.writers i = none := by
  have hAdvance {sys : System ι σ ς ℓ ε α}
      (hNow : Good sys)
      (hOpen : ∃ i w, sys.writers i = some w) :
      ∃ sys', Advance S sys sys' := by
    rcases hOpen with ⟨i, w, hWriter⟩
    rcases step_or_waits (S := S) hWriter with
      hStep | ⟨j, hWait⟩
    · exact hStep
    have hOwner : ∃ w', sys.writers j = some w' := by
      cases hWait with
      | lock _ _ hOwner _ _ => exact ⟨_, hOwner⟩
      | key _ _ hOwner _ _ => exact ⟨_, hOwner⟩
    rcases hOwner with ⟨w', hOther⟩
    rcases step_or_waits (S := S) hOther with
      hStep | ⟨k, hAlso⟩
    · exact hStep
    · exact absurd hAlso (hWaits sys i j k hNow hWait)
  -- By induction on what all writers have left.
  revert hStart
  apply (wellFounded_step S).induction sys
  intro sys ih hNow
  by_cases hOpen : ∃ i w, sys.writers i = some w
  · rcases hAdvance hNow hOpen with
      ⟨next, event, hStep, hEvent⟩
    have hNext := hGood sys next hNow
      ⟨event, hStep, hEvent⟩
    rcases ih next ⟨event, hStep⟩ hNext with
      ⟨sys', hSteps, hEnd⟩
    exact ⟨sys', .head ⟨event, hStep, hEvent⟩ hSteps, hEnd⟩
  · refine ⟨sys, .refl, fun i => ?_⟩
    by_contra hSome
    rcases Option.ne_none_iff_exists'.mp hSome with
      ⟨w, hWriter⟩
    exact hOpen ⟨i, w, hWriter⟩

end System

end Planar
