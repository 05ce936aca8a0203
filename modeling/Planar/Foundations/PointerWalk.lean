import Mathlib.Data.List.Nodup
import Mathlib.Logic.Relation

/-
  Loops that end, and walks along the links of a partial map
  whose links may form cycles or lead to missing places.

  Main declarations:
    * `Stops`, `exists_stops`, `Stops.last_state`
    * `Links`, `Walked`
    * `Walked.mem_of_reaches`
    * `Steps`, `Steps.nodup`
-/

------------------------------------------------------------
-- Loops
------------------------------------------------------------

namespace Planar

section

variable {σ ρ : Type}

/-
  The loop ends from `s` in its `n`th iteration with `r`.
  The body goes on with a new state or ends with a result.
-/
inductive Stops
    (body : σ → σ ⊕ ρ) : Nat → σ → ρ → Prop
  | last {s : σ} {r : ρ}
      (hBody : body s = .inr r) :
      Stops body 1 s r
  | next {n : Nat} {s s' : σ} {r : ρ}
      (hBody : body s = .inl s')
      (hRest : Stops body n s' r) :
      Stops body (n + 1) s r

variable {body : σ → σ ⊕ ρ}
variable {Inv : σ → Prop}

/- A loop ends when its states grow below a bound. -/
theorem exists_stops
    {size : σ → Nat}
    {bound : Nat}
    {s : σ}
    (hStep : ∀ s s', Inv s → body s = .inl s' →
      Inv s' ∧ size s' = size s + 1)
    (hBound : ∀ s, Inv s → size s ≤ bound)
    (hInv : Inv s) :
    ∃ n r, n + size s ≤ bound + 1 ∧ Stops body n s r := by
  generalize hRoom : bound - size s = room
  induction room generalizing s with
  | zero =>
      have hFull := hBound s hInv
      cases hBody : body s with
      | inr r => exact ⟨1, r, by omega, .last hBody⟩
      | inl s' =>
          rcases hStep s s' hInv hBody with ⟨hInv', hSize⟩
          have hFull' := hBound s' hInv'
          omega
  | succ room ih =>
      have hFull := hBound s hInv
      cases hBody : body s with
      | inr r => exact ⟨1, r, by omega, .last hBody⟩
      | inl s' =>
          rcases hStep s s' hInv hBody with ⟨hInv', hSize⟩
          rcases ih hInv' (by omega) with
            ⟨n, r, hCount, hRest⟩
          exact ⟨n + 1, r, by omega, .next hBody hRest⟩

/- The last iteration starts in a state of the invariant. -/
theorem Stops.last_state
    {n : Nat}
    {s : σ}
    {r : ρ}
    (hStops : Stops body n s r)
    (hStep : ∀ s s', Inv s → body s = .inl s' → Inv s')
    (hInv : Inv s) :
    ∃ s', Inv s' ∧ body s' = .inr r := by
  induction hStops with
  | last hBody => exact ⟨_, hInv, hBody⟩
  | next hBody _ ih => exact ih (hStep _ _ hInv hBody)

end

------------------------------------------------------------
-- Places Behind Each Other
------------------------------------------------------------

section

variable {κ : Type}

/-
  A place is missing, has no link, or has a link to the next
  place, which may itself be missing.
-/
def Links (link : κ → Option (Option κ)) (a b : κ) : Prop :=
  link a = some (some b)

/-
  The places left behind on the way to the cursor, the last
  one first.
-/
inductive Walked
    (link : κ → Option (Option κ))
    (start : κ) : List κ → κ → Prop
  | start : Walked link start [] start
  | step {visited : List κ} {cursor next : κ}
      (hWalked : Walked link start visited cursor)
      (hLink : Links link cursor next) :
      Walked link start (cursor :: visited) next

variable {link : κ → Option (Option κ)}
variable {start cursor : κ}
variable {visited : List κ}

theorem Walked.reaches
    (hWalked : Walked link start visited cursor) :
    Relation.ReflTransGen (Links link) start cursor := by
  induction hWalked with
  | start => exact .refl
  | step _ hLink ih => exact ih.tail hLink

theorem Walked.start_mem
    (hWalked : Walked link start visited cursor) :
    start ∈ visited ∨ start = cursor := by
  induction hWalked with
  | start => exact .inr rfl
  | step _ _ ih =>
      left
      rcases ih with hMem | rfl
      · exact List.mem_cons_of_mem _ hMem
      · exact List.mem_cons_self

theorem Walked.linked
    {a : κ}
    (hWalked : Walked link start visited cursor)
    (hMem : a ∈ visited) :
    ∃ b, Links link a b := by
  induction hWalked with
  | start => cases hMem
  | step _ hLink ih =>
      rcases List.mem_cons.mp hMem with rfl | hOld
      · exact ⟨_, hLink⟩
      · exact ih hOld

/- Whatever a visited place links to was visited next. -/
theorem Walked.closed
    {a b : κ}
    (hWalked : Walked link start visited cursor)
    (hMem : a ∈ visited)
    (hLink : Links link a b) :
    b ∈ visited ∨ b = cursor := by
  induction hWalked with
  | start => cases hMem
  | @step visited cursor next hWalked hNext ih =>
      rcases List.mem_cons.mp hMem with rfl | hOld
      · right
        exact Option.some.inj
          (Option.some.inj (hLink.symm.trans hNext))
      · left
        rcases ih hOld with hIn | rfl
        · exact List.mem_cons_of_mem _ hIn
        · exact List.mem_cons_self

/-
  A walk that ends at a visited place, or at one without a
  link, has seen all places that there are to reach.
-/
theorem Walked.mem_of_reaches
    {a : κ}
    (hWalked : Walked link start visited cursor)
    (hEnd : cursor ∈ visited ∨ ∀ b, ¬ Links link cursor b)
    (hReach : Relation.ReflTransGen (Links link) start a) :
    a ∈ visited ∨ a = cursor := by
  induction hReach with
  | refl => exact hWalked.start_mem
  | tail _ hLink ih =>
      rcases ih with hMem | rfl
      · exact hWalked.closed hMem hLink
      · rcases hEnd with hMem | hNone
        · exact hWalked.closed hMem hLink
        · exact absurd hLink (hNone _)

/-
  The places from `a` on, up to the one whose link is given,
  in the order of the walk.
-/
inductive Steps
    (link : κ → Option (Option κ)) :
    κ → List κ → Option κ → Prop
  | last {a : κ} {end' : Option κ}
      (hLink : link a = some end') :
      Steps link a [a] end'
  | next {a b : κ} {rest : List κ} {end' : Option κ}
      (hLink : Links link a b)
      (hRest : Steps link b rest end') :
      Steps link a (a :: rest) end'

theorem Steps.eq_cons
    {a : κ}
    {places : List κ}
    {end' : Option κ}
    (hSteps : Steps link a places end') :
    ∃ rest, places = a :: rest := by
  cases hSteps with
  | last _ => exact ⟨[], rfl⟩
  | next _ _ => exact ⟨_, rfl⟩

/- There is one way to the end of the links. -/
theorem Steps.unique
    {a : κ}
    {places places' : List κ}
    (hSteps : Steps link a places none)
    (hSteps' : Steps link a places' none) :
    places = places' := by
  generalize hEnd : (none : Option κ) = end' at hSteps
  induction hSteps generalizing places' with
  | @last a end' hLink =>
      subst hEnd
      cases hSteps' with
      | last _ => rfl
      | next hLink' _ =>
          have hEq := hLink.symm.trans hLink'
          cases hEq
  | @next a b rest end' hLink _ ih =>
      subst hEnd
      cases hSteps' with
      | last hLink' =>
          have hEq := hLink'.symm.trans hLink
          cases hEq
      | next hLink' hRest' =>
          have hEq := hLink'.symm.trans hLink
          cases hEq
          rw [ih hRest' rfl]

/- The way from a place in the middle is shorter. -/
theorem Steps.from_mem
    {a b : κ}
    {places : List κ}
    {end' : Option κ}
    (hSteps : Steps link a places end')
    (hMem : b ∈ places) :
    ∃ later,
      later.length ≤ places.length ∧
        Steps link b later end' := by
  induction hSteps with
  | last hLink =>
      rw [List.mem_singleton] at hMem
      subst hMem
      exact ⟨_, Nat.le_refl _, .last hLink⟩
  | @next a b' rest end' hLink hRest ih =>
      rcases List.mem_cons.mp hMem with rfl | hLater
      · exact ⟨_, Nat.le_refl _, .next hLink hRest⟩
      · rcases ih hLater with ⟨later, hLength, hSteps⟩
        rw [List.length_cons]
        exact ⟨later, by omega, hSteps⟩

/- A way to the end of the links repeats no place. -/
theorem Steps.nodup
    {a : κ}
    {places : List κ}
    (hSteps : Steps link a places none) :
    places.Nodup := by
  generalize hEnd : (none : Option κ) = end' at hSteps
  induction hSteps with
  | last _ => exact List.nodup_singleton _
  | @next a b rest end' hLink hRest ih =>
      subst hEnd
      refine List.nodup_cons.mpr ⟨?_, ih rfl⟩
      intro hMem
      rcases hRest.from_mem hMem with
        ⟨later, hLength, hLater⟩
      have hSame := hLater.unique (.next hLink hRest)
      rw [hSame, List.length_cons] at hLength
      omega

end

end Planar
