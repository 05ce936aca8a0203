import Mathlib.Logic.Relation
import Mathlib.Data.List.Basic

/-
  Database transactions as programs: they look at the store,
  stage statements, and end with a success or an error.  A
  transaction runs alone, or its steps interleave with those
  of other transactions.

  Main declarations:
    * `Store`
    * `Tx`, `Tx.exec`, `Tx.exec_bind_ok`
    * `Tx.StagesOnly`, `Tx.StagesOnly.exec`
    * `System`, `System.Step`, `System.Reachable`
    * `System.Separate`, `System.Reachable.separate`
-/

------------------------------------------------------------
-- Stores
------------------------------------------------------------

namespace Planar

/-
  What a store with unique keys does with a statement.  The
  statement is refused or it takes effect, and a statement
  that is not refused only brings keys that are not there.
-/
structure Store (σ ς κ ε : Type) where
  check : ς → σ → Except ε Unit
  effect : ς → σ → σ
  keys : ς → List κ
  holds : σ → κ → Prop
  fresh_of_check :
    ∀ {s v}, check s v = .ok () →
      ∀ k ∈ keys s, ¬ holds v k
  holds_effect :
    ∀ s v k, holds (effect s v) k ↔
      holds v k ∨ k ∈ keys s

namespace Store

variable {σ ς κ ε : Type}

/- The effects of a list of statements, in order. -/
def apply
    (S : Store σ ς κ ε)
    (v : σ)
    (statements : List ς) : σ :=
  statements.foldl (fun v s => S.effect s v) v

@[simp] theorem apply_nil
    (S : Store σ ς κ ε)
    (v : σ) :
    S.apply v [] = v := rfl

@[simp] theorem apply_cons
    (S : Store σ ς κ ε)
    (v : σ)
    (s : ς)
    (rest : List ς) :
    S.apply v (s :: rest) = S.apply (S.effect s v) rest :=
  rfl

@[simp] theorem apply_append
    (S : Store σ ς κ ε)
    (v : σ)
    (first second : List ς) :
    S.apply v (first ++ second) =
      S.apply (S.apply v first) second := by
  simp [apply]

theorem holds_apply
    (S : Store σ ς κ ε)
    (v : σ)
    (statements : List ς)
    (k : κ) :
    S.holds (S.apply v statements) k ↔
      S.holds v k ∨ k ∈ statements.flatMap S.keys := by
  induction statements generalizing v with
  | nil => simp
  | cons s rest ih =>
      rw [apply_cons, ih, S.holds_effect,
        List.flatMap_cons, List.mem_append, or_assoc]

end Store

------------------------------------------------------------
-- Transaction Programs
------------------------------------------------------------

/-
  A program inside one database transaction.  To ask is to
  see the store as it is then, with the own statements
  staged so far; the question may take a lock on something
  it sees.  To stage is to execute a statement, which may be
  refused and then ends the program with its error.
-/
inductive Tx (σ ς ℓ ε α : Type) where
  | done (result : Except ε α)
  | ask (lock : σ → Option ℓ) (next : σ → Tx σ ς ℓ ε α)
  | stage (statement : ς) (next : Tx σ ς ℓ ε α)

namespace Tx

variable {σ ς κ ℓ ε α β : Type}

/- Sequence two programs; an error ends the first one. -/
def bind :
    Tx σ ς ℓ ε α → (α → Tx σ ς ℓ ε β) → Tx σ ς ℓ ε β
| .done (.ok a), f => f a
| .done (.error e), _ => .done (.error e)
| .ask lock next, f => .ask lock fun v => (next v).bind f
| .stage s next, f => .stage s (next.bind f)

instance : Monad (Tx σ ς ℓ ε) where
  pure a := .done (.ok a)
  bind := bind

/- A computation that touches no store. -/
def lift (r : Except ε α) : Tx σ ς ℓ ε α :=
  .done r

/- End with an error; the transaction is rolled back. -/
def fail (e : ε) : Tx σ ς ℓ ε α :=
  .done (.error e)

/- Take a lock that is named in advance. -/
def lockAll (lock : ℓ) : Tx σ ς ℓ ε Unit :=
  .ask (fun _ => some lock) fun _ => .done (.ok ())

/- Read without a lock. -/
def select (f : σ → α) : Tx σ ς ℓ ε α :=
  .ask (fun _ => none) fun v => .done (.ok (f v))

/- Read and lock what is read. -/
def selectForUpdate
    (lock : σ → Option ℓ)
    (f : σ → α) : Tx σ ς ℓ ε α :=
  .ask lock fun v => .done (.ok (f v))

/- Execute one statement. -/
def execute (s : ς) : Tx σ ς ℓ ε Unit :=
  .stage s (.done (.ok ()))

/- The program running alone against a store. -/
def exec
    (S : Store σ ς κ ε)
    (v : σ) : Tx σ ς ℓ ε α → Except ε (α × σ)
| .done (.ok a) => .ok (a, v)
| .done (.error e) => .error e
| .ask _ next => exec S v (next v)
| .stage s next =>
    match S.check s v with
    | .ok () => exec S (S.effect s v) next
    | .error e => .error e

variable {S : Store σ ς κ ε}

theorem exec_stage_of_ok
    {v : σ}
    {s : ς}
    {next : Tx σ ς ℓ ε α}
    (hCheck : S.check s v = .ok ()) :
    exec S v (.stage s next) =
      exec S (S.effect s v) next := by
  conv_lhs => unfold exec
  rw [hCheck]

theorem exec_stage_of_error
    {v : σ}
    {s : ς}
    {next : Tx σ ς ℓ ε α}
    {e : ε}
    (hCheck : S.check s v = .error e) :
    exec S v (.stage s next) = .error e := by
  conv_lhs => unfold exec
  rw [hCheck]

@[simp] theorem exec_pure
    (v : σ)
    (a : α) :
    exec S v (pure a : Tx σ ς ℓ ε α) = .ok (a, v) := rfl

@[simp] theorem exec_lift_ok
    (v : σ)
    (a : α) :
    exec S v (lift (.ok a) : Tx σ ς ℓ ε α) = .ok (a, v) :=
  rfl

@[simp] theorem exec_lift_error
    (v : σ)
    (e : ε) :
    exec S v (lift (.error e) : Tx σ ς ℓ ε α) =
      .error e := rfl

@[simp] theorem exec_fail
    (v : σ)
    (e : ε) :
    exec S v (fail e : Tx σ ς ℓ ε α) = .error e := rfl

theorem exec_execute_ok
    {v v' : σ}
    {s : ς} :
    exec S v (execute s : Tx σ ς ℓ ε Unit) =
        .ok ((), v') ↔
      S.check s v = .ok () ∧ v' = S.effect s v := by
  unfold execute exec
  cases hCheck : S.check s v with
  | ok u => simp [exec, eq_comm]
  | error e => simp

/- A sequence runs its parts one after the other. -/
theorem exec_bind
    (v : σ)
    (p : Tx σ ς ℓ ε α)
    (f : α → Tx σ ς ℓ ε β) :
    exec S v (p >>= f) =
      (exec S v p) >>= fun r => exec S r.2 (f r.1) := by
  induction p generalizing v with
  | done r => cases r <;> rfl
  | ask lock next ih => exact ih v v
  | stage s next ih =>
      change
        (match S.check s v with
          | .ok () => exec S (S.effect s v) (next.bind f)
          | .error e => .error e) =
        (match S.check s v with
          | .ok () => exec S (S.effect s v) next
          | .error e => .error e) >>= _
      cases S.check s v with
      | ok u => exact ih _
      | error e => rfl

theorem exec_bind_ok
    {v v' : σ}
    {p : Tx σ ς ℓ ε α}
    {f : α → Tx σ ς ℓ ε β}
    {b : β} :
    exec S v (p >>= f) = .ok (b, v') ↔
      ∃ a v₁, exec S v p = .ok (a, v₁) ∧
        exec S v₁ (f a) = .ok (b, v') := by
  rw [exec_bind]
  constructor
  · intro hBind
    cases hFirst : exec S v p with
    | error e =>
        rw [hFirst] at hBind
        cases hBind
    | ok r =>
        rw [hFirst] at hBind
        exact ⟨r.1, r.2, rfl, hBind⟩
  · rintro ⟨a, v₁, hFirst, hSecond⟩
    rw [hFirst]
    exact hSecond

/- Programs whose parts end alike end alike. -/
theorem exec_bind_congr
    {v : σ}
    {p p' : Tx σ ς ℓ ε α}
    {f f' : α → Tx σ ς ℓ ε β}
    (hFirst : exec S v p = exec S v p')
    (hRest : ∀ a w, exec S v p' = .ok (a, w) →
      exec S w (f a) = exec S w (f' a)) :
    exec S v (p >>= f) = exec S v (p' >>= f') := by
  rw [exec_bind, exec_bind, hFirst]
  cases hResult : exec S v p' with
  | error e => rfl
  | ok r => exact hRest r.1 r.2 hResult

theorem exec_lift
    {v v' : σ}
    {r : Except ε α}
    {a : α} :
    exec S v (lift r : Tx σ ς ℓ ε α) = .ok (a, v') ↔
      r = .ok a ∧ v = v' := by
  cases r with
  | ok b => simp
  | error e => simp

end Tx

------------------------------------------------------------
-- What a Program Stages
------------------------------------------------------------

namespace Tx

variable {σ ς ℓ ε α β : Type}

/- Every statement that the program may stage satisfies P. -/
def StagesOnly
    (P : ς → Prop) : Tx σ ς ℓ ε α → Prop
| .done _ => True
| .ask _ next => ∀ v, StagesOnly P (next v)
| .stage s next => P s ∧ StagesOnly P next

section StagesOnly

variable {P : ς → Prop}

@[simp] theorem stagesOnly_pure
    (a : α) :
    StagesOnly P (pure a : Tx σ ς ℓ ε α) := trivial

@[simp] theorem stagesOnly_lift
    (r : Except ε α) :
    StagesOnly P (lift r : Tx σ ς ℓ ε α) := trivial

@[simp] theorem stagesOnly_fail
    (e : ε) :
    StagesOnly P (fail e : Tx σ ς ℓ ε α) := trivial

@[simp] theorem stagesOnly_lockAll
    (lock : ℓ) :
    StagesOnly P (lockAll lock : Tx σ ς ℓ ε Unit) :=
  fun _ => trivial

@[simp] theorem stagesOnly_select
    (f : σ → α) :
    StagesOnly P (select f : Tx σ ς ℓ ε α) :=
  fun _ => trivial

@[simp] theorem stagesOnly_selectForUpdate
    (lock : σ → Option ℓ)
    (f : σ → α) :
    StagesOnly P (selectForUpdate lock f : Tx σ ς ℓ ε α) :=
  fun _ => trivial

theorem stagesOnly_execute
    {s : ς}
    (hStatement : P s) :
    StagesOnly P (execute s : Tx σ ς ℓ ε Unit) :=
  ⟨hStatement, trivial⟩

theorem StagesOnly.bind
    {p : Tx σ ς ℓ ε α}
    {f : α → Tx σ ς ℓ ε β}
    (hFirst : StagesOnly P p)
    (hRest : ∀ a, StagesOnly P (f a)) :
    StagesOnly P (p >>= f) := by
  induction p with
  | done result =>
      cases result with
      | ok a => exact hRest a
      | error e => exact trivial
  | ask lock next ih => exact fun v => ih v (hFirst v)
  | stage s next ih => exact ⟨hFirst.1, ih hFirst.2⟩

/- What follows a computation may use its success. -/
theorem stagesOnly_lift_bind
    {r : Except ε α}
    {f : α → Tx σ ς ℓ ε β}
    (hRest : ∀ a, r = .ok a → StagesOnly P (f a)) :
    StagesOnly P (lift r >>= f) := by
  cases r with
  | ok a => exact hRest a rfl
  | error e => exact trivial

/- Running alone, it applies statements that satisfy P. -/
theorem StagesOnly.exec
    {κ : Type}
    {S : Store σ ς κ ε}
    {p : Tx σ ς ℓ ε α}
    {v v' : σ}
    {a : α}
    (hOnly : StagesOnly P p)
    (hExec : Tx.exec S v p = .ok (a, v')) :
    ∃ statements, (∀ s ∈ statements, P s) ∧
      v' = S.apply v statements := by
  induction p generalizing v with
  | done result =>
      cases result with
      | ok b =>
          rcases Prod.mk.inj (Except.ok.inj hExec) with
            ⟨_, rfl⟩
          exact ⟨[], by simp, rfl⟩
      | error e => cases hExec
  | ask lock next ih => exact ih _ (hOnly v) hExec
  | stage s next ih =>
      unfold Tx.exec at hExec
      split at hExec
      · rcases ih hOnly.2 hExec with
          ⟨statements, hAll, hEffect⟩
        refine ⟨s :: statements, ?_, hEffect⟩
        intro t ht
        rcases List.mem_cons.mp ht with rfl | hRest
        · exact hOnly.1
        · exact hAll t hRest
      · cases hExec

end StagesOnly

end Tx

end Planar

------------------------------------------------------------
-- Interleaved Transactions
------------------------------------------------------------

namespace Planar

variable {ι σ ς κ ℓ ε α : Type}

/- An open transaction: what it staged, holds and has left. -/
structure Writer (σ ς ℓ ε α : Type) where
  staged : List ς
  locks : List ℓ
  rest : Tx σ ς ℓ ε α

/-
  A store with any number of transactions on it.  A writer
  that has ended is gone; the successes are kept in their
  order.
-/
structure System (ι σ ς ℓ ε α : Type) where
  committed : σ
  writers : ι → Option (Writer σ ς ℓ ε α)
  succeeded : List (ι × α)

/- What happens in one step, and to which writer. -/
inductive Event (ι ε α : Type) where
  | asked (i : ι)
  | staged (i : ι)
  | succeeded (i : ι) (result : α)
  | failed (i : ι) (error : ε)
  | dropped (i : ι)
  deriving DecidableEq

namespace System

/- Replace the state of one writer. -/
def withWriter
    [DecidableEq ι]
    (sys : System ι σ ς ℓ ε α)
    (i : ι)
    (w : Option (Writer σ ς ℓ ε α)) :
    System ι σ ς ℓ ε α :=
  { sys with
    writers := fun j => if j = i then w else sys.writers j }

/- No transaction has begun. -/
def start
    (v : σ)
    (program : ι → Tx σ ς ℓ ε α) : System ι σ ς ℓ ε α :=
  { committed := v
    writers := fun i => some ⟨[], [], program i⟩
    succeeded := [] }

/- No other writer has the lock. -/
def LockFree
    (sys : System ι σ ς ℓ ε α)
    (i : ι)
    (lock : Option ℓ) : Prop :=
  ∀ l ∈ lock, ∀ j w, j ≠ i → sys.writers j = some w →
    l ∉ w.locks

/- No other writer has staged one of the keys. -/
def KeysFree
    (S : Store σ ς κ ε)
    (sys : System ι σ ς ℓ ε α)
    (i : ι)
    (keys : List κ) : Prop :=
  ∀ k ∈ keys, ∀ j w, j ≠ i → sys.writers j = some w →
    k ∉ w.staged.flatMap S.keys

/-
  One step of one writer.  A question waits until its lock
  is free, and a statement waits while another open
  transaction has staged one of its keys.  A writer sees the
  committed rows and its own.  At any moment it may be
  dropped, which rolls it back.
-/
inductive Step
    [DecidableEq ι]
    (S : Store σ ς κ ε) :
    System ι σ ς ℓ ε α → Event ι ε α →
      System ι σ ς ℓ ε α → Prop
  | ask {sys : System ι σ ς ℓ ε α} {i : ι}
      {staged : List ς} {locks : List ℓ}
      {lock : σ → Option ℓ} {next : σ → Tx σ ς ℓ ε α}
      (hWriter :
        sys.writers i = some ⟨staged, locks, .ask lock next⟩)
      (hFree : sys.LockFree i
        (lock (S.apply sys.committed staged))) :
      Step S sys (.asked i)
        (sys.withWriter i (some
          ⟨staged,
            locks ++
              (lock (S.apply sys.committed staged)).toList,
            next (S.apply sys.committed staged)⟩))
  | stage {sys : System ι σ ς ℓ ε α} {i : ι}
      {staged : List ς} {locks : List ℓ}
      {s : ς} {next : Tx σ ς ℓ ε α}
      (hWriter :
        sys.writers i = some ⟨staged, locks, .stage s next⟩)
      (hFree : sys.KeysFree S i (S.keys s))
      (hCheck :
        S.check s (S.apply sys.committed staged) =
          .ok ()) :
      Step S sys (.staged i)
        (sys.withWriter i
          (some ⟨staged ++ [s], locks, next⟩))
  | refuse {sys : System ι σ ς ℓ ε α} {i : ι}
      {staged : List ς} {locks : List ℓ}
      {s : ς} {next : Tx σ ς ℓ ε α} {e : ε}
      (hWriter :
        sys.writers i = some ⟨staged, locks, .stage s next⟩)
      (hFree : sys.KeysFree S i (S.keys s))
      (hCheck :
        S.check s (S.apply sys.committed staged) =
          .error e) :
      Step S sys (.failed i e) (sys.withWriter i none)
  | succeed {sys : System ι σ ς ℓ ε α} {i : ι}
      {staged : List ς} {locks : List ℓ} {a : α}
      (hWriter :
        sys.writers i = some ⟨staged, locks, .done (.ok a)⟩) :
      Step S sys (.succeeded i a)
        { sys.withWriter i none with
          committed := S.apply sys.committed staged
          succeeded := sys.succeeded ++ [(i, a)] }
  | fail {sys : System ι σ ς ℓ ε α} {i : ι}
      {staged : List ς} {locks : List ℓ} {e : ε}
      (hWriter :
        sys.writers i =
          some ⟨staged, locks, .done (.error e)⟩) :
      Step S sys (.failed i e) (sys.withWriter i none)
  | drop {sys : System ι σ ς ℓ ε α} {i : ι}
      {w : Writer σ ς ℓ ε α}
      (hWriter : sys.writers i = some w) :
      Step S sys (.dropped i) (sys.withWriter i none)

/- The states that a run from a start can reach. -/
inductive Reachable
    [DecidableEq ι]
    (S : Store σ ς κ ε)
    (v : σ)
    (program : ι → Tx σ ς ℓ ε α) :
    System ι σ ς ℓ ε α → Prop
  | start : Reachable S v program (start v program)
  | step {sys sys' : System ι σ ς ℓ ε α}
      {event : Event ι ε α}
      (hReach : Reachable S v program sys)
      (hStep : Step S sys event sys') :
      Reachable S v program sys'

variable [DecidableEq ι]

@[simp] theorem withWriter_self
    (sys : System ι σ ς ℓ ε α)
    (i : ι)
    (w : Option (Writer σ ς ℓ ε α)) :
    (sys.withWriter i w).writers i = w := by
  simp [withWriter]

theorem withWriter_of_ne
    (sys : System ι σ ς ℓ ε α)
    {i j : ι}
    (hOther : j ≠ i)
    (w : Option (Writer σ ς ℓ ε α)) :
    (sys.withWriter i w).writers j = sys.writers j := by
  simp [withWriter, hOther]

/- A step that is no success leaves the store alone. -/
theorem Step.committed_eq
    {S : Store σ ς κ ε}
    {sys sys' : System ι σ ς ℓ ε α}
    {event : Event ι ε α}
    (hStep : Step S sys event sys')
    (hEvent : ∀ i a, event ≠ .succeeded i a) :
    sys'.committed = sys.committed ∧
      sys'.succeeded = sys.succeeded := by
  cases hStep with
  | succeed hWriter => exact absurd rfl (hEvent _ _)
  | ask => exact ⟨rfl, rfl⟩
  | stage => exact ⟨rfl, rfl⟩
  | refuse => exact ⟨rfl, rfl⟩
  | fail => exact ⟨rfl, rfl⟩
  | drop => exact ⟨rfl, rfl⟩

end System

end Planar

------------------------------------------------------------
-- Locks and Keys Have One Owner
------------------------------------------------------------

namespace Planar

namespace System

variable {ι σ ς κ ℓ ε α : Type} [DecidableEq ι]

/-
  A lock and a staged key belong to one writer, and a staged
  key is not yet in the store.
-/
structure Separate
    (S : Store σ ς κ ε)
    (sys : System ι σ ς ℓ ε α) : Prop where
  locks : ∀ {i j w w' l},
    sys.writers i = some w → sys.writers j = some w' →
      l ∈ w.locks → l ∈ w'.locks → i = j
  keys : ∀ {i j w w' k},
    sys.writers i = some w → sys.writers j = some w' →
      k ∈ w.staged.flatMap S.keys →
      k ∈ w'.staged.flatMap S.keys → i = j
  fresh : ∀ {i w k},
    sys.writers i = some w →
      k ∈ w.staged.flatMap S.keys →
      ¬ S.holds sys.committed k

variable {S : Store σ ς κ ε}

omit [DecidableEq ι] in
theorem separate_start
    (v : σ)
    (program : ι → Tx σ ς ℓ ε α) :
    Separate S (start v program) where
  locks := by
    intro i j w w' l hi hj hl
    rcases Option.some.inj hi with rfl
    simp at hl
  keys := by
    intro i j w w' k hi hj hk
    rcases Option.some.inj hi with rfl
    simp at hk
  fresh := by
    intro i w k hi hk
    rcases Option.some.inj hi with rfl
    simp at hk

/- A writer that ends gives up what it owns. -/
theorem Separate.ended
    {sys : System ι σ ς ℓ ε α}
    (hSep : Separate S sys)
    (i : ι) :
    Separate S (sys.withWriter i none) where
  locks := by
    intro j k w w' l hj hk hl hl'
    by_cases hji : j = i
    · subst hji; simp at hj
    by_cases hki : k = i
    · subst hki; simp at hk
    rw [withWriter_of_ne sys hji] at hj
    rw [withWriter_of_ne sys hki] at hk
    exact hSep.locks hj hk hl hl'
  keys := by
    intro j k w w' l hj hk hl hl'
    by_cases hji : j = i
    · subst hji; simp at hj
    by_cases hki : k = i
    · subst hki; simp at hk
    rw [withWriter_of_ne sys hji] at hj
    rw [withWriter_of_ne sys hki] at hk
    exact hSep.keys hj hk hl hl'
  fresh := by
    intro j w k hj hk
    by_cases hji : j = i
    · subst hji; simp at hj
    rw [withWriter_of_ne sys hji] at hj
    exact hSep.fresh hj hk

/- A writer may take what nobody else has. -/
theorem Separate.advanced
    {sys : System ι σ ς ℓ ε α}
    {i : ι}
    {old new : Writer σ ς ℓ ε α}
    (hSep : Separate S sys)
    (hOld : sys.writers i = some old)
    (hLocks : ∀ l ∈ new.locks, l ∈ old.locks ∨
      ∀ j w, j ≠ i → sys.writers j = some w → l ∉ w.locks)
    (hKeys : ∀ k ∈ new.staged.flatMap S.keys,
      k ∈ old.staged.flatMap S.keys ∨
        (¬ S.holds sys.committed k ∧
          ∀ j w, j ≠ i → sys.writers j = some w →
            k ∉ w.staged.flatMap S.keys)) :
    Separate S (sys.withWriter i (some new)) := by
  have hLockOther :
      ∀ {j w l}, j ≠ i → sys.writers j = some w →
        l ∈ new.locks → l ∉ w.locks := by
    intro j w l hji hj hl hlw
    rcases hLocks l hl with hOwn | hFree
    · exact hji (hSep.locks hj hOld hlw hOwn)
    · exact hFree j w hji hj hlw
  have hKeyOther :
      ∀ {j w k}, j ≠ i → sys.writers j = some w →
        k ∈ new.staged.flatMap S.keys →
        k ∉ w.staged.flatMap S.keys := by
    intro j w k hji hj hk hkw
    rcases hKeys k hk with hOwn | ⟨_, hFree⟩
    · exact hji (hSep.keys hj hOld hkw hOwn)
    · exact hFree j w hji hj hkw
  constructor
  · intro j k w w' l hj hk hl hl'
    by_cases hji : j = i
    · by_cases hki : k = i
      · exact hji.trans hki.symm
      · subst hji
        rw [withWriter_self, Option.some.injEq] at hj
        rw [withWriter_of_ne sys hki] at hk
        subst hj
        exact absurd hl' (hLockOther hki hk hl)
    · rw [withWriter_of_ne sys hji] at hj
      by_cases hki : k = i
      · subst hki
        rw [withWriter_self, Option.some.injEq] at hk
        subst hk
        exact absurd hl (hLockOther hji hj hl')
      · rw [withWriter_of_ne sys hki] at hk
        exact hSep.locks hj hk hl hl'
  · intro j k w w' key hj hk hl hl'
    by_cases hji : j = i
    · by_cases hki : k = i
      · exact hji.trans hki.symm
      · subst hji
        rw [withWriter_self, Option.some.injEq] at hj
        rw [withWriter_of_ne sys hki] at hk
        subst hj
        exact absurd hl' (hKeyOther hki hk hl)
    · rw [withWriter_of_ne sys hji] at hj
      by_cases hki : k = i
      · subst hki
        rw [withWriter_self, Option.some.injEq] at hk
        subst hk
        exact absurd hl (hKeyOther hji hj hl')
      · rw [withWriter_of_ne sys hki] at hk
        exact hSep.keys hj hk hl hl'
  · intro j w k hj hk
    by_cases hji : j = i
    · subst hji
      rw [withWriter_self, Option.some.injEq] at hj
      subst hj
      rcases hKeys k hk with hOwn | ⟨hFresh, _⟩
      · exact hSep.fresh hOld hOwn
      · exact hFresh
    · rw [withWriter_of_ne sys hji] at hj
      exact hSep.fresh hj hk

/- Every step keeps the owners apart. -/
theorem Separate.step
    {sys sys' : System ι σ ς ℓ ε α}
    {event : Event ι ε α}
    (hSep : Separate S sys)
    (hStep : Step S sys event sys') :
    Separate S sys' := by
  cases hStep with
  | ask hWriter hFree =>
      apply hSep.advanced hWriter
      · intro l hl
        rcases List.mem_append.mp hl with hOwn | hNew
        · exact .inl hOwn
        · exact .inr (hFree l (by simpa using hNew))
      · intro k hk
        exact .inl hk
  | stage hWriter hFree hCheck =>
      apply hSep.advanced hWriter
      · intro l hl
        exact .inl hl
      · intro k hk
        rw [List.flatMap_append, List.mem_append] at hk
        rcases hk with hOwn | hNew
        · exact .inl hOwn
        · have hKey := by simpa using hNew
          refine .inr ⟨?_, hFree k hKey⟩
          intro hHolds
          exact S.fresh_of_check hCheck k hKey
            ((S.holds_apply _ _ _).mpr (.inl hHolds))
  | refuse => exact hSep.ended _
  | fail => exact hSep.ended _
  | drop => exact hSep.ended _
  | @succeed i staged locks a hWriter =>
      have hEnded := hSep.ended i
      refine ⟨hEnded.locks, hEnded.keys, ?_⟩
      intro j w k hj hk hHolds
      have hji : j ≠ i := by
        rintro rfl
        simp at hj
      have hj' : sys.writers j = some w := by
        rw [← withWriter_of_ne sys hji none]
        exact hj
      rcases (S.holds_apply _ _ _).mp hHolds with
        hOld | hNew
      · exact hSep.fresh hj' hk hOld
      · exact hji (hSep.keys hj' hWriter hk hNew)

theorem Reachable.separate
    {v : σ}
    {program : ι → Tx σ ς ℓ ε α}
    {sys : System ι σ ς ℓ ε α}
    (hReach : Reachable S v program sys) :
    Separate S sys := by
  induction hReach with
  | start => exact separate_start v program
  | step _ hStep ih => exact ih.step hStep

end System

end Planar
