import Planar.Foundations.Transaction

/-
  Loops that execute one statement for each batch of a list,
  and when they do what one statement for each element does.

  Main declarations:
    * `buildFrom`, `buildFrom_append`
    * `buildFrom_ok`, `buildFrom_total`
    * `Tx.inBatches`, `Tx.oneByOne`
    * `Store.Batched`
    * `Tx.exec_inBatches`
    * `Tx.toOption_inBatches`
-/

------------------------------------------------------------
-- Building Rows
------------------------------------------------------------

namespace Planar

section

variable {ε α β : Type}

/- Build a row of each element from its position. -/
def buildFrom
    (build : Nat → β → Except ε α)
    (start : Nat) : List β → Except ε (List α)
| [] => .ok []
| b :: rest => do
    let a ← build start b
    let as ← buildFrom build (start + 1) rest
    pure (a :: as)

variable {build : Nat → β → Except ε α}

theorem buildFrom_cons_ok
    {start : Nat}
    {b : β}
    {rest : List β}
    {as : List α} :
    buildFrom build start (b :: rest) = .ok as ↔
      ∃ a later,
        build start b = .ok a ∧
          buildFrom build (start + 1) rest = .ok later ∧
          as = a :: later := by
  rw [buildFrom]
  cases hFirst : build start b with
  | error e => exact iff_of_false nofun nofun
  | ok a =>
      change (buildFrom build (start + 1) rest >>= fun as =>
        pure (a :: as)) = .ok as ↔ _
      cases hRest : buildFrom build (start + 1) rest with
      | error e =>
          refine iff_of_false nofun ?_
          rintro ⟨_, _, _, hLater, _⟩
          cases hLater
      | ok later =>
          constructor
          · intro hOk
            exact ⟨a, later, rfl, rfl,
              (Except.ok.inj hOk).symm⟩
          · rintro ⟨_, _, hFirst', hLater, rfl⟩
            cases hFirst'
            cases hLater
            rfl

/- The second part of a list starts where the first ends. -/
theorem buildFrom_append
    {start : Nat}
    {first second : List β}
    {as : List α} :
    buildFrom build start (first ++ second) = .ok as ↔
      ∃ as₁ as₂,
        buildFrom build start first = .ok as₁ ∧
          buildFrom build (start + first.length) second =
            .ok as₂ ∧
          as = as₁ ++ as₂ := by
  induction first generalizing start as with
  | nil =>
      constructor
      · intro hOk
        exact ⟨[], as, rfl, hOk, rfl⟩
      · rintro ⟨as₁, as₂, hFirst, hSecond, rfl⟩
        cases hFirst
        exact hSecond
  | cons b rest ih =>
      have hStart :
          start + (b :: rest).length =
            start + 1 + rest.length := by
        rw [List.length_cons]
        omega
      rw [List.cons_append, buildFrom_cons_ok, hStart]
      constructor
      · rintro ⟨a, later, hHead, hLater, rfl⟩
        rcases ih.mp hLater with
          ⟨as₁, as₂, hFirst, hSecond, rfl⟩
        exact ⟨a :: as₁, as₂,
          buildFrom_cons_ok.mpr ⟨a, as₁, hHead, hFirst, rfl⟩,
          hSecond, rfl⟩
      · rintro ⟨as₁, as₂, hFirst, hSecond, rfl⟩
        rcases buildFrom_cons_ok.mp hFirst with
          ⟨a, later, hHead, hLater, rfl⟩
        exact ⟨a, later ++ as₂, hHead,
          ih.mpr ⟨later, as₂, hLater, hSecond, rfl⟩, rfl⟩

/- What each element asks for holds of all rows. -/
theorem buildFrom_ok
    {P : β → Prop}
    {f : Nat → β → α}
    (hEach : ∀ i b a, build i b = .ok a → P b ∧ a = f i b)
    {start : Nat}
    {l : List β}
    {as : List α}
    (hOk : buildFrom build start l = .ok as) :
    (∀ b ∈ l, P b) ∧
      as = l.mapIdx fun i b => f (start + i) b := by
  induction l generalizing start as with
  | nil =>
      cases hOk
      exact ⟨nofun, rfl⟩
  | cons b rest ih =>
      rcases buildFrom_cons_ok.mp hOk with
        ⟨a, later, hHead, hLater, rfl⟩
      rcases hEach start b a hHead with ⟨hFirst, rfl⟩
      rcases ih hLater with ⟨hRest, rfl⟩
      refine ⟨List.forall_mem_cons.mpr ⟨hFirst, hRest⟩, ?_⟩
      rw [List.mapIdx_cons]
      simp only [Nat.add_zero, Nat.add_assoc,
        Nat.add_comm 1]

/- Rows that are built without a failure. -/
theorem buildFrom_total
    {f : Nat → β → α}
    {start : Nat}
    {l : List β}
    (hTotal : ∀ b ∈ l, ∀ i, build i b = .ok (f i b)) :
    buildFrom build start l =
      .ok (l.mapIdx fun i b => f (start + i) b) := by
  induction l generalizing start with
  | nil => rfl
  | cons b rest ih =>
      rcases List.forall_mem_cons.mp hTotal with
        ⟨hFirst, hRest⟩
      apply buildFrom_cons_ok.mpr
      refine ⟨f start b, _, hFirst start, ih hRest, ?_⟩
      rw [List.mapIdx_cons]
      simp only [Nat.add_zero, Nat.add_assoc,
        Nat.add_comm 1]

end

------------------------------------------------------------
-- Statements for Many Rows
------------------------------------------------------------

section

variable {σ ς κ ℓ ε α β : Type}

/-
  A statement about a list of rows does what the statements
  about its parts do one after the other.
-/
structure Store.Batched
    (S : Store σ ς κ ε)
    (stmt : List α → ς) : Prop where
  check_nil : ∀ v, S.check (stmt []) v = .ok ()
  effect_nil : ∀ v, S.effect (stmt []) v = v
  check_append : ∀ v first second,
    S.check (stmt (first ++ second)) v = .ok () ↔
      S.check (stmt first) v = .ok () ∧
        S.check (stmt second)
          (S.effect (stmt first) v) = .ok ()
  effect_append : ∀ v first second,
    S.effect (stmt (first ++ second)) v =
      S.effect (stmt second) (S.effect (stmt first) v)

/- One statement for each batch. -/
def Tx.inBatches
    (build : Nat → β → Except ε α)
    (stmt : List α → ς)
    (start : Nat) : List (List β) → Tx σ ς ℓ ε Unit
| [] => pure ()
| batch :: rest => do
    let as ← Tx.lift (buildFrom build start batch)
    Tx.execute (stmt as)
    Tx.inBatches build stmt (start + batch.length) rest

/- One statement for each element. -/
def Tx.oneByOne
    (build : Nat → β → Except ε α)
    (stmt : List α → ς)
    (start : Nat) : List β → Tx σ ς ℓ ε Unit
| [] => pure ()
| b :: rest => do
    let a ← Tx.lift (build start b)
    Tx.execute (stmt [a])
    Tx.oneByOne build stmt (start + 1) rest

variable {S : Store σ ς κ ε}
variable {build : Nat → β → Except ε α}
variable {stmt : List α → ς}

/- Single elements are batches of one. -/
theorem Tx.oneByOne_eq
    (start : Nat)
    (l : List β) :
    (Tx.oneByOne build stmt start l : Tx σ ς ℓ ε Unit) =
      Tx.inBatches build stmt start
        (l.map fun b => [b]) := by
  induction l generalizing start with
  | nil => rfl
  | cons b rest ih =>
      rw [Tx.oneByOne, List.map_cons, Tx.inBatches, ih]
      unfold buildFrom
      cases build start b with
      | error e => rfl
      | ok a => rfl

/- The batches do what one statement for all rows does. -/
theorem Tx.exec_inBatches
    (hBatched : S.Batched stmt)
    {start : Nat}
    {batches : List (List β)}
    {v v' : σ} :
    Tx.exec S v
        (Tx.inBatches build stmt start batches :
          Tx σ ς ℓ ε Unit) = .ok ((), v') ↔
      ∃ as,
        buildFrom build start batches.flatten = .ok as ∧
          S.check (stmt as) v = .ok () ∧
          v' = S.effect (stmt as) v := by
  induction batches generalizing start v v' with
  | nil =>
      constructor
      · intro hOk
        have hSame : v = v' :=
          (Prod.mk.inj (Except.ok.inj hOk)).2
        subst hSame
        exact ⟨[], rfl, hBatched.check_nil v,
          (hBatched.effect_nil v).symm⟩
      · rintro ⟨as, hBuild, _, rfl⟩
        cases hBuild
        rw [hBatched.effect_nil]
        rfl
  | cons batch rest ih =>
      rw [List.flatten_cons]
      constructor
      · intro hOk
        rcases Tx.exec_bind_ok.mp hOk with
          ⟨as₁, v₁, hLift, hOk⟩
        rcases Tx.exec_lift.mp hLift with ⟨hBuild, rfl⟩
        rcases Tx.exec_bind_ok.mp hOk with
          ⟨_, v₂, hExecute, hOk⟩
        rcases Tx.exec_execute_ok.mp hExecute with
          ⟨hCheck, rfl⟩
        rcases ih.mp hOk with
          ⟨as₂, hBuildRest, hCheckRest, rfl⟩
        exact ⟨as₁ ++ as₂,
          buildFrom_append.mpr
            ⟨as₁, as₂, hBuild, hBuildRest, rfl⟩,
          (hBatched.check_append ..).mpr
            ⟨hCheck, hCheckRest⟩,
          (hBatched.effect_append ..).symm⟩
      · rintro ⟨as, hBuild, hCheck, rfl⟩
        rcases buildFrom_append.mp hBuild with
          ⟨as₁, as₂, hFirst, hSecond, rfl⟩
        rcases (hBatched.check_append ..).mp hCheck with
          ⟨hCheckFirst, hCheckSecond⟩
        rw [hBatched.effect_append]
        exact Tx.exec_bind_ok.mpr ⟨as₁, v,
          Tx.exec_lift.mpr ⟨hFirst, rfl⟩,
          Tx.exec_bind_ok.mpr ⟨(), _,
            Tx.exec_execute_ok.mpr ⟨hCheckFirst, rfl⟩,
            ih.mpr ⟨as₂, hSecond, hCheckSecond, rfl⟩⟩⟩

/- Results without a value, seen by where they end. -/
theorem toOption_eq_of_ok_iff
    {r r' : Except ε (Unit × σ)}
    (hSame : ∀ v, r = .ok ((), v) ↔ r' = .ok ((), v)) :
    r.toOption = r'.toOption := by
  cases r with
  | ok p => rw [(hSame p.2).mp rfl]
  | error e =>
      cases r' with
      | error e' => rfl
      | ok p => cases (hSame p.2).mpr rfl

/-
  However a list is cut into batches, the loop ends with the
  rows that single statements end with, or both fail.
-/
theorem Tx.toOption_inBatches
    (hBatched : S.Batched stmt)
    {start : Nat}
    {batches : List (List β)}
    {l : List β}
    (hList : batches.flatten = l)
    (v : σ) :
    (Tx.exec S v
        (Tx.inBatches build stmt start batches :
          Tx σ ς ℓ ε Unit)).toOption =
      (Tx.exec S v
        (Tx.oneByOne build stmt start l :
          Tx σ ς ℓ ε Unit)).toOption := by
  apply toOption_eq_of_ok_iff
  intro v'
  have hSingles : (l.map fun b => [b]).flatten = l := by
    rw [← List.flatMap_def, List.flatMap_singleton']
  rw [Tx.oneByOne_eq, Tx.exec_inBatches hBatched,
    Tx.exec_inBatches hBatched, hList, hSingles]

end

end Planar
