import Mathlib.Tactic.Common

/-
  Splitting a list into chunks of a positive size, maps that
  see the position of an element, and folds that can fail.

  Main declarations:
    * `chunks`
    * `flatten_chunks`, `forall_chunks_length`
    * `map_mapIdx`, `mapIdx_const`
    * `filter_mapIdx_of_singleton`
    * `mem_of_forall₂`, `nil_or_singleton`
    * `foldlM_ok_iff`, `foldlM_error_iff`
-/

------------------------------------------------------------
-- Chunks
------------------------------------------------------------

namespace Planar

variable {α : Type}

/- Cut off chunks while there is fuel and a rest. -/
def chunkLoop (size : Nat) : Nat → List α → List (List α)
| 0, _ => []
| _ + 1, [] => []
| fuel + 1, a :: rest =>
    (a :: rest).take size ::
      chunkLoop size fuel ((a :: rest).drop size)

/- All chunks but the last have the given size. -/
def chunks (size : Nat) (l : List α) : List (List α) :=
  chunkLoop size l.length l

theorem flatten_chunkLoop
    {size fuel : Nat}
    {l : List α}
    (hSize : 0 < size)
    (hFuel : l.length ≤ fuel) :
    (chunkLoop size fuel l).flatten = l := by
  induction fuel generalizing l with
  | zero =>
      have hNil : l = [] :=
        List.length_eq_zero_iff.mp (by omega)
      simp [chunkLoop, hNil]
  | succ fuel ih =>
      cases l with
      | nil => rfl
      | cons a rest =>
          have hRest :
              ((a :: rest).drop size).length ≤ fuel := by
            rw [List.length_drop]
            omega
          rw [chunkLoop, List.flatten_cons, ih hRest,
            List.take_append_drop]

/- The chunks of a list put together are the list. -/
@[simp] theorem flatten_chunks
    {size : Nat}
    (hSize : 0 < size)
    (l : List α) :
    (chunks size l).flatten = l :=
  flatten_chunkLoop hSize (Nat.le_refl _)

theorem length_le_of_mem_chunkLoop
    {size fuel : Nat}
    {l chunk : List α}
    (hMem : chunk ∈ chunkLoop size fuel l) :
    chunk.length ≤ min size l.length := by
  induction fuel generalizing l with
  | zero => cases hMem
  | succ fuel ih =>
      cases l with
      | nil => cases hMem
      | cons a rest =>
          rcases List.mem_cons.mp hMem with rfl | hLater
          · exact Nat.le_of_eq List.length_take
          · have hLess := ih hLater
            rw [List.length_drop] at hLess
            omega

/- The first chunk is the longest one. -/
theorem forall_chunks_length
    {P : Nat → Prop}
    (hMono : ∀ m n, m ≤ n → P n → P m)
    (hZero : P 0)
    (size : Nat)
    (l : List α) :
    (∀ chunk ∈ chunks size l, P chunk.length) ↔
      P (min size l.length) := by
  constructor
  · intro hAll
    cases l with
    | nil => simpa using hZero
    | cons a rest =>
        rw [← List.length_take]
        exact hAll _ List.mem_cons_self
  · intro hLongest chunk hMem
    exact hMono _ _ (length_le_of_mem_chunkLoop hMem)
      hLongest

end Planar

------------------------------------------------------------
-- Indexed Maps
------------------------------------------------------------

namespace Planar

variable {α β γ : Type}

@[simp] theorem map_mapIdx
    (g : β → γ)
    (f : Nat → α → β)
    (l : List α) :
    (l.mapIdx f).map g = l.mapIdx fun i a => g (f i a) := by
  apply List.ext_getElem?
  intro i
  simp [Function.comp_def]

@[simp] theorem mapIdx_const
    (f : α → β)
    (l : List α) :
    (l.mapIdx fun _ a => f a) = l.map f := by
  apply List.ext_getElem?
  intro i
  simp

@[simp] theorem mapIdx_map
    (g : Nat → β → γ)
    (f : α → β)
    (l : List α) :
    (l.map f).mapIdx g = l.mapIdx fun i a => g i (f a) := by
  apply List.ext_getElem?
  intro i
  simp [Function.comp_def]

/-
  When one element passes a test, and the indexed map keeps
  the test, one image passes it.
-/
theorem filter_mapIdx_of_singleton
    {f : Nat → α → β}
    {p : β → Bool}
    {q : α → Bool}
    {l : List α}
    {i : Nat}
    {x : α}
    (hTest : ∀ j a, p (f j a) = q a)
    (hFilter : l.filter q = [x])
    (hAt : l[i]? = some x) :
    (l.mapIdx f).filter p = [f i x] := by
  have hIndexed :
      l.mapIdx f = l.zipIdx.map fun a => f a.2 a.1 := by
    apply List.ext_getElem?
    intro j
    simp only [List.getElem?_mapIdx, List.getElem?_map,
      List.getElem?_zipIdx, Option.map_map]
    simp [Function.comp_def]
  have hFirst :
      (l.zipIdx.filter fun a => q a.1).map Prod.fst =
        [x] := by
    rw [← hFilter, ← List.zipIdx_map_fst 0 l,
      List.filter_map]
    simp [Function.comp_def]
  rcases List.map_eq_singleton_iff.mp hFirst with
    ⟨found, hFound, _⟩
  have hPasses : q x = true := by
    have hMember : x ∈ l.filter q := by simp [hFilter]
    exact (List.mem_filter.mp hMember).2
  have hMember :
      (x, i) ∈ l.zipIdx.filter fun a => q a.1 := by
    apply List.mem_filter.mpr
    exact ⟨List.mem_zipIdx_iff_getElem?.mpr hAt, hPasses⟩
  rw [hFound, List.mem_singleton] at hMember
  rw [hIndexed, List.filter_map]
  simp only [Function.comp_def, hTest, hFound]
  rw [← hMember]
  rfl

end Planar

------------------------------------------------------------
-- Members of Lists
------------------------------------------------------------

namespace Planar

variable {α : Type}

theorem mem_of_forall₂
    {β : Type}
    {R : α → β → Prop}
    {as : List α}
    {bs : List β}
    {b : β}
    (hAll : List.Forall₂ R as bs)
    (hMember : b ∈ bs) :
    ∃ a ∈ as, R a b := by
  induction hAll with
  | nil => cases hMember
  | @cons a b' as bs hFirst _ ih =>
      rcases List.mem_cons.mp hMember with rfl | hRest
      · exact ⟨a, List.mem_cons_self, hFirst⟩
      · rcases ih hRest with ⟨a', ha, hR⟩
        exact ⟨a', List.mem_cons_of_mem _ ha, hR⟩

/- What holds of all partners is what holds of all. -/
theorem forall_iff_of_forall₂
    {R : α → β → Prop}
    {A : α → Prop}
    {B : β → Prop}
    {as : List α}
    {bs : List β}
    (hAll : List.Forall₂ R as bs)
    (hEach : ∀ a ∈ as, ∀ b, R a b → (B b ↔ A a)) :
    (∀ b ∈ bs, B b) ↔ ∀ a ∈ as, A a := by
  induction hAll with
  | nil => simp
  | cons hFirst _ ih =>
      rw [List.forall_mem_cons, List.forall_mem_cons,
        hEach _ List.mem_cons_self _ hFirst,
        ih fun a ha => hEach a (List.mem_cons_of_mem _ ha)]

/- A list of at most one element. -/
theorem nil_or_singleton
    {l : List α}
    (hOne : l.length ≤ 1) :
    l = [] ∨ ∃ a, l = [a] := by
  cases l with
  | nil => exact .inl rfl
  | cons a rest =>
      have hRest : rest.length = 0 := by
        rw [List.length_cons] at hOne
        omega
      rw [List.length_eq_zero_iff.mp hRest]
      exact .inr ⟨a, rfl⟩

/-
  What is selected among elements that a map has changed
  without a change of the selection, and unselected others.
-/
theorem filter_map_append
    {f : α → α}
    {p : α → Bool}
    {old new : List α}
    (hSame : ∀ a ∈ old, p (f a) = p a)
    (hNew : ∀ a ∈ new, p a = false) :
    (old.map f ++ new).filter p = (old.filter p).map f := by
  have hNone : new.filter p = [] := by
    apply List.filter_eq_nil_iff.mpr
    intro a ha
    rw [hNew a ha]
    exact Bool.false_ne_true
  rw [List.filter_append, List.filter_map, hNone,
    List.append_nil]
  congr 1
  exact List.filter_congr hSame

end Planar

------------------------------------------------------------
-- Folds That Can Fail
------------------------------------------------------------

namespace Planar

variable {ε α β ι : Type}
variable {step : β → α → Except ε β}
variable {Good Bad : α → Prop}
variable {fault : ι → ε}

/- A fold returns when all elements are good. -/
theorem foldlM_ok_iff
    (hGood : ∀ b a, (∃ b', step b a = .ok b') ↔ Good a)
    (l : List α)
    (b : β) :
    (∃ b', l.foldlM step b = .ok b') ↔ ∀ a ∈ l, Good a := by
  induction l generalizing b with
  | nil => exact iff_of_true ⟨b, rfl⟩ nofun
  | cons a l ih =>
      rw [List.forall_mem_cons, ← hGood b a,
        List.foldlM_cons]
      cases hFirst : step b a with
      | error e => exact iff_of_false nofun nofun
      | ok b' =>
          rw [and_iff_right ⟨b', rfl⟩]
          exact ih b'

/- A fold fails at the first element that is not good. -/
theorem foldlM_error_iff
    (hGood : ∀ b a, (∃ b', step b a = .ok b') ↔ Good a)
    (hBad : ∀ b a,
      (∃ i, step b a = .error (fault i)) ↔ Bad a)
    (l : List α)
    (b : β) :
    (∃ i, l.foldlM step b = .error (fault i)) ↔
      ∃ earlier a later,
        l = earlier ++ a :: later ∧
          (∀ a' ∈ earlier, Good a') ∧
          Bad a := by
  induction l generalizing b with
  | nil =>
      refine iff_of_false nofun ?_
      rintro ⟨earlier, a, later, hSplit, -, -⟩
      simp at hSplit
  | cons a l ih =>
      rw [List.foldlM_cons]
      cases hFirst : step b a with
      | error e =>
          have hStop : ¬ Good a := by
            rw [← hGood b a, hFirst]
            exact nofun
          have hHere :
              (∃ i, (.error e : Except ε β) =
                .error (fault i)) ↔ Bad a := by
            rw [← hBad b a, hFirst]
          constructor
          · intro hFault
            exact ⟨[], a, l, rfl, nofun,
              hHere.mp hFault⟩
          · rintro ⟨earlier, a', later, hSplit, hAll, hLast⟩
            cases earlier with
            | nil =>
                cases hSplit
                exact hHere.mpr hLast
            | cons first rest =>
                cases hSplit
                exact absurd (hAll a List.mem_cons_self)
                  hStop
      | ok b' =>
          have hGo : Good a := (hGood b a).mp ⟨b', hFirst⟩
          have hHere : ¬ Bad a := by
            rw [← hBad b a, hFirst]
            exact nofun
          refine (ih b').trans ?_
          constructor
          · rintro ⟨earlier, a', later, rfl, hAll, hLast⟩
            exact ⟨a :: earlier, a', later, rfl,
              List.forall_mem_cons.mpr ⟨hGo, hAll⟩, hLast⟩
          · rintro ⟨earlier, a', later, hSplit, hAll, hLast⟩
            cases earlier with
            | nil =>
                cases hSplit
                exact absurd hLast hHere
            | cons first rest =>
                cases hSplit
                exact ⟨rest, a', later, rfl,
                  (List.forall_mem_cons.mp hAll).2, hLast⟩

end Planar
