import Mathlib.Logic.Relation

/-
  Programs that put several separate questions to a state
  which other parties may change between the questions.

  Main declarations:
    * `Query`, with `Query.fetch`, `Query.lift`, `Query.fail`
    * `Query.exec`, the run against one fixed state
    * `Query.exec_bind_congr`, `Query.toOption_exec_bind`
    * `Query.Runs`, the runs against a changing world
    * `Query.runs_exec`
    * `Query.runs_bind_ok`
    * `Query.runs_fetch_bind`
    * `Query.Succeeds`, `Query.Succeeds.runs`
-/

------------------------------------------------------------
-- Query Programs
------------------------------------------------------------

namespace Planar

/-
  A program over the answers of a state `σ`: it has ended
  with a result, or it asks once and goes on with what the
  state shows.
-/
inductive Query (σ ε α : Type) : Type where
  | done (result : Except ε α)
  | ask (next : σ → Query σ ε α)

namespace Query

variable {σ ε α β ω : Type}

/- Sequence two programs; an error ends the first one. -/
def bind :
    Query σ ε α → (α → Query σ ε β) → Query σ ε β
| .done (.ok a), f => f a
| .done (.error e), _ => .done (.error e)
| .ask next, f => .ask fun s => (next s).bind f

instance : Monad (Query σ ε) where
  pure a := .done (.ok a)
  bind := bind

/- A sequence of three programs needs no brackets. -/
theorem bind_assoc
    {γ : Type}
    (p : Query σ ε α)
    (f : α → Query σ ε β)
    (g : β → Query σ ε γ) :
    (p >>= f >>= g) = p >>= fun a => f a >>= g := by
  induction p with
  | done r => cases r <;> rfl
  | ask next ih => exact congrArg ask (funext ih)

/- One question, answered by a function of the state. -/
def fetch (f : σ → α) : Query σ ε α :=
  .ask fun s => .done (.ok (f s))

/- A computation that asks nothing. -/
def lift (r : Except ε α) : Query σ ε α :=
  .done r

/- End with an error. -/
def fail (e : ε) : Query σ ε α :=
  .done (.error e)

/- Every question is answered by the same state. -/
def exec (s : σ) : Query σ ε α → Except ε α
| .done r => r
| .ask next => exec s (next s)

@[simp] theorem exec_pure
    (s : σ)
    (a : α) :
    exec s (pure a : Query σ ε α) = .ok a := rfl

@[simp] theorem exec_fetch
    (s : σ)
    (f : σ → α) :
    exec s (fetch f : Query σ ε α) = .ok (f s) := rfl

@[simp] theorem exec_lift
    (s : σ)
    (r : Except ε α) :
    exec s (lift r : Query σ ε α) = r := rfl

@[simp] theorem exec_fail
    (s : σ)
    (e : ε) :
    exec s (fail e : Query σ ε α) = .error e := rfl

@[simp] theorem exec_bind
    (s : σ)
    (p : Query σ ε α)
    (f : α → Query σ ε β) :
    exec s (p >>= f) =
      (exec s p) >>= fun a => exec s (f a) := by
  induction p with
  | done r =>
      cases r <;> rfl
  | ask next ih =>
      exact ih s

theorem exec_bind_of_ok
    {s : σ}
    {p : Query σ ε α}
    {f : α → Query σ ε β}
    {a : α}
    (hOk : exec s p = .ok a) :
    exec s (p >>= f) = exec s (f a) := by
  rw [exec_bind, hOk]
  rfl

theorem exec_lift_bind_of_ok
    {s : σ}
    {r : Except ε α}
    {f : α → Query σ ε β}
    {a : α}
    (hOk : r = .ok a) :
    exec s (lift r >>= f) = exec s (f a) :=
  exec_bind_of_ok hOk

theorem exec_bind_of_error
    {s : σ}
    {p : Query σ ε α}
    {f : α → Query σ ε β}
    {e : ε}
    (hError : exec s p = .error e) :
    exec s (p >>= f) = .error e := by
  rw [exec_bind, hError]
  rfl

/- Programs whose parts are answered alike are so too. -/
theorem exec_bind_congr
    {s s' : σ}
    {p p' : Query σ ε α}
    {f f' : α → Query σ ε β}
    (hFirst : exec s p = exec s' p')
    (hRest : ∀ a, exec s' p' = .ok a →
      exec s (f a) = exec s' (f' a)) :
    exec s (p >>= f) = exec s' (p' >>= f') := by
  rw [exec_bind, exec_bind, hFirst]
  cases hResult : exec s' p' with
  | error e => rfl
  | ok a => exact hRest a hResult

theorem exec_lift_bind_congr
    {s s' : σ}
    {r : Except ε α}
    {f f' : α → Query σ ε β}
    (hRest : ∀ a, r = .ok a →
      exec s (f a) = exec s' (f' a)) :
    exec s (lift r >>= f) = exec s' (lift r >>= f') :=
  exec_bind_congr rfl hRest

/-
  Programs whose parts have the same values up to changes of
  them do so too, whatever errors the two end with.
-/
theorem toOption_exec_bind
    {α' β' : Type}
    {s s' : σ}
    {p : Query σ ε α}
    {p' : Query σ ε α'}
    {f : α → Query σ ε β}
    {f' : α' → Query σ ε β'}
    {g : α → α'}
    {h : β → β'}
    (hFirst :
      (exec s' p').toOption = (exec s p).toOption.map g)
    (hRest : ∀ a, exec s p = .ok a →
      (exec s' (f' (g a))).toOption =
        (exec s (f a)).toOption.map h) :
    (exec s' (p' >>= f')).toOption =
      (exec s (p >>= f)).toOption.map h := by
  cases hResult : exec s p with
  | error e =>
      rw [exec_bind_of_error hResult]
      rw [hResult] at hFirst
      cases hResult' : exec s' p' with
      | error e' =>
          rw [exec_bind_of_error hResult']
          rfl
      | ok a' =>
          rw [hResult'] at hFirst
          cases hFirst
  | ok a =>
      rw [exec_bind_of_ok hResult, ← hRest a hResult]
      rw [hResult] at hFirst
      cases hResult' : exec s' p' with
      | error e' =>
          rw [hResult'] at hFirst
          cases hFirst
      | ok a' =>
          rw [hResult'] at hFirst
          rw [exec_bind_of_ok hResult',
            Option.some.inj hFirst]

end Query

end Planar

------------------------------------------------------------
-- Runs Against a Changing World
------------------------------------------------------------

namespace Planar

namespace Query

variable {σ ε α β ω : Type}

/-
  `Runs Step see w q w' r`: started in world `w`, the
  program `q` ends in world `w'` with result `r`, where any
  number of steps of other parties may come before each
  question and before the end.  A question sees only the
  part `see w` of the world.
-/
inductive Runs
    (Step : ω → ω → Prop)
    (see : ω → σ) :
    ω → Query σ ε α → ω → Except ε α → Prop
  | done {w w' : ω} {r : Except ε α}
      (hWait : Relation.ReflTransGen Step w w') :
      Runs Step see w (.done r) w' r
  | ask {w w₁ w' : ω} {r : Except ε α}
      {next : σ → Query σ ε α}
      (hWait : Relation.ReflTransGen Step w w₁)
      (hRest : Runs Step see w₁ (next (see w₁)) w' r) :
      Runs Step see w (.ask next) w' r

variable {Step : ω → ω → Prop} {see : ω → σ}

/- The world only moves by steps of other parties. -/
theorem Runs.steps
    {w w' : ω}
    {q : Query σ ε α}
    {r : Except ε α}
    (hRuns : Runs Step see w q w' r) :
    Relation.ReflTransGen Step w w' := by
  induction hRuns with
  | done hWait => exact hWait
  | ask hWait _ ih => exact hWait.trans ih

/- A run may wait before its first question. -/
theorem Runs.after_wait
    {w₀ w w' : ω}
    {q : Query σ ε α}
    {r : Except ε α}
    (hWait : Relation.ReflTransGen Step w₀ w)
    (hRuns : Runs Step see w q w' r) :
    Runs Step see w₀ q w' r := by
  cases hRuns with
  | done hRest => exact .done (hWait.trans hRest)
  | ask hFirst hRest => exact .ask (hWait.trans hFirst) hRest

/-
  A call during which nothing else happens is one of the
  runs, so what holds of all runs holds of atomic calls.
-/
theorem runs_exec
    (w : ω)
    (q : Query σ ε α) :
    Runs Step see w q w (exec (see w) q) := by
  induction q with
  | done r => exact .done .refl
  | ask next ih => exact .ask .refl (ih (see w))

theorem runs_done
    {w w' : ω}
    {r r' : Except ε α}
    (hRuns : Runs Step see w (.done r) w' r') :
    r' = r ∧ Relation.ReflTransGen Step w w' := by
  cases hRuns with
  | done hWait => exact ⟨rfl, hWait⟩

theorem runs_pure_ok
    {w w' : ω}
    {a b : α}
    (hRuns :
      Runs Step see w (pure a : Query σ ε α) w' (.ok b)) :
    b = a ∧ Relation.ReflTransGen Step w w' := by
  rcases runs_done hRuns with ⟨hResult, hWait⟩
  exact ⟨Except.ok.inj hResult, hWait⟩

theorem runs_lift_ok
    {w w' : ω}
    {r : Except ε α}
    {b : α}
    (hRuns :
      Runs Step see w (lift r : Query σ ε α) w' (.ok b)) :
    r = .ok b ∧ Relation.ReflTransGen Step w w' := by
  rcases runs_done hRuns with ⟨hResult, hWait⟩
  exact ⟨hResult.symm, hWait⟩

theorem not_runs_fail_ok
    {w w' : ω}
    {e : ε}
    {b : α} :
    ¬ Runs Step see w (fail e : Query σ ε α)
        w' (.ok b) := by
  intro hRuns
  cases (runs_done hRuns).1

/- What follows a question goes on from its answer. -/
theorem runs_fetch_bind
    {w w' : ω}
    {f : σ → α}
    {g : α → Query σ ε β}
    {r : Except ε β}
    (hRuns :
      Runs Step see w (fetch f >>= g) w' r) :
    ∃ w₁, Relation.ReflTransGen Step w w₁ ∧
      Runs Step see w₁ (g (f (see w₁))) w' r := by
  cases hRuns with
  | ask hWait hRest => exact ⟨_, hWait, hRest⟩

/- A run of a sequence splits at the world in between. -/
theorem runs_bind
    {w w' : ω}
    {p : Query σ ε α}
    {f : α → Query σ ε β}
    {r : Except ε β}
    (hRuns : Runs Step see w (p >>= f) w' r) :
    (∃ w₁ a, Runs Step see w p w₁ (.ok a) ∧
      Runs Step see w₁ (f a) w' r) ∨
    (∃ e, r = .error e ∧
      Runs Step see w p w' (.error e)) := by
  induction p generalizing w with
  | done result =>
      cases result with
      | ok a =>
          exact .inl ⟨w, a, .done .refl, hRuns⟩
      | error e =>
          rcases runs_done hRuns with ⟨hResult, hWait⟩
          exact .inr ⟨e, hResult, .done hWait⟩
  | ask next ih =>
      cases hRuns with
      | ask hWait hRest =>
          rcases ih _ hRest with
            ⟨w₁, a, hFirst, hSecond⟩ | ⟨e, hResult, hFirst⟩
          · exact .inl ⟨w₁, a, .ask hWait hFirst, hSecond⟩
          · exact .inr ⟨e, hResult, .ask hWait hFirst⟩

theorem runs_bind_ok
    {w w' : ω}
    {p : Query σ ε α}
    {f : α → Query σ ε β}
    {b : β}
    (hRuns : Runs Step see w (p >>= f) w' (.ok b)) :
    ∃ w₁ a, Runs Step see w p w₁ (.ok a) ∧
      Runs Step see w₁ (f a) w' (.ok b) := by
  rcases runs_bind hRuns with hSplit | ⟨e, hError, _⟩
  · exact hSplit
  · cases hError

end Query

end Planar

------------------------------------------------------------
-- Programs That Always Succeed
------------------------------------------------------------

namespace Planar
namespace Query

variable {σ ε α β ω : Type}

/-
  Whatever good states answer its questions, a new one each
  time, the program succeeds, with a result that satisfies
  `Post`.
-/
def Succeeds
    (Good : σ → Prop)
    (Post : α → Prop) : Query σ ε α → Prop
| .done (.ok a) => Post a
| .done (.error _) => False
| .ask next => ∀ s, Good s → Succeeds Good Post (next s)

variable
  {Good : σ → Prop}
  {Post : α → Prop}
  {Then : β → Prop}

theorem succeeds_pure
    {a : α}
    (hPost : Post a) :
    Succeeds Good Post (pure a : Query σ ε α) := hPost

theorem succeeds_lift
    {r : Except ε α}
    {a : α}
    (hOk : r = .ok a)
    (hPost : Post a) :
    Succeeds Good Post (lift r : Query σ ε α) := by
  subst hOk
  exact hPost

theorem Succeeds.bind
    {p : Query σ ε α}
    {f : α → Query σ ε β}
    (hFirst : Succeeds Good Post p)
    (hRest : ∀ a, Post a → Succeeds Good Then (f a)) :
    Succeeds Good Then (p >>= f) := by
  induction p with
  | done r =>
      cases r with
      | ok a => exact hRest a hFirst
      | error e => exact hFirst.elim
  | ask next ih =>
      exact fun s hGood => ih s (hFirst s hGood)

theorem succeeds_fetch_bind
    {g : σ → α}
    {f : α → Query σ ε β}
    (hRest : ∀ s, Good s → Succeeds Good Then (f (g s))) :
    Succeeds Good Then (fetch g >>= f) :=
  hRest

theorem succeeds_lift_bind
    {r : Except ε α}
    {a : α}
    {f : α → Query σ ε β}
    (hOk : r = .ok a)
    (hRest : Succeeds Good Then (f a)) :
    Succeeds Good Then (lift r >>= f) := by
  subst hOk
  exact hRest

theorem Succeeds.exec
    {s : σ}
    {q : Query σ ε α}
    (hSucceeds : Succeeds Good Post q)
    (hGood : Good s) :
    ∃ a, exec s q = .ok a ∧ Post a := by
  induction q with
  | done r =>
      cases r with
      | ok a => exact ⟨a, rfl, hSucceeds⟩
      | error e => exact hSucceeds.elim
  | ask next ih => exact ih s (hSucceeds s hGood)

/- It succeeds while the world moves among good states. -/
theorem Succeeds.runs
    {Step : ω → ω → Prop}
    {see : ω → σ}
    {w w' : ω}
    {q : Query σ ε α}
    {r : Except ε α}
    (hSucceeds : Succeeds Good Post q)
    (hGood : ∀ x, Relation.ReflTransGen Step w x →
      Good (see x))
    (hRuns : Runs Step see w q w' r) :
    ∃ a, r = .ok a ∧ Post a := by
  induction hRuns with
  | @done w w' r hWait =>
      cases r with
      | ok a => exact ⟨a, rfl, hSucceeds⟩
      | error e => exact hSucceeds.elim
  | ask hWait hRest ih =>
      exact ih (hSucceeds _ (hGood _ hWait))
        fun x hSteps => hGood x (hWait.trans hSteps)

end Query
end Planar
