import Planar.Properties.Acceptance
import Planar.Reading.OwnRows

/-
  Tables are isolated: what is read of a table depends only
  on the successful calls on that table.  A call on another
  table can only keep a later one from succeeding, when both
  bring the same value.

  Main declarations:
    * `Request`, `World.follow`
    * `World.Agrees`, `World.Agrees.follow`
    * `World.Reachable.isolated`
-/

------------------------------------------------------------
-- Steps on One Table
------------------------------------------------------------

namespace Planar
namespace World

variable
  {ext : External}
  {w w' : World}
  {ident : TableIdent}

/- A call on one table, or an attempt to drop it. -/
def StepOn
    (ext : External)
    (ident : TableIdent)
    (w w' : World) : Prop :=
  (∃ call : Call, call.ident = ident ∧
      w' = w.perform ext call) ∨
    w' = w.drop ident

theorem StepOn.step
    (hStep : StepOn ext ident w w') :
    Step ext w w' := by
  rcases hStep with ⟨call, _, hCall⟩ | hDrop
  · exact .inl ⟨call, hCall⟩
  · exact .inr ⟨ident, hDrop⟩

/- It adds nothing to the calls on any other table. -/
theorem StepOn.callsOn_other
    {other : TableIdent}
    (hStep : StepOn ext ident w w')
    (hOther : ident ≠ other) :
    w'.callsOn other = w.callsOn other := by
  rcases hStep with ⟨call, hIdent, rfl⟩ | rfl
  · unfold perform
    split
    · rw [callsOn_concat, if_neg (hIdent ▸ hOther),
        List.append_nil]
    · rfl
  · rfl

------------------------------------------------------------
-- The Same Requests Later
------------------------------------------------------------

/- A writing call, or an attempt to drop a table. -/
inductive Request where
  | call (call : Call)
  | drop (ident : TableIdent)

/- The writing calls among requests. -/
def Request.calls : List Request → List Call
| [] => []
| .call made :: later => made :: calls later
| .drop _ :: later => calls later

/- What a request makes of a state. -/
def respond (ext : External) (w : World) : Request → World
| .call call => w.perform ext call
| .drop ident => w.drop ident

/- The state after requests made one after the other. -/
def follow
    (ext : External)
    (w : World)
    (later : List Request) : World :=
  later.foldl (respond ext) w

/-
  The same calls on a table have succeeded in two states,
  and the same of these values are in use.
-/
structure Agrees
    (ext : External)
    (ident : TableIdent)
    (keys : Key → Prop)
    (w w' : World) : Prop where
  reachable : w.Reachable ext
  reachable' : w'.Reachable ext
  readsTypes : ∀ call ∈ w.callsOn ident,
    call.ReadsTypes ext
  calls : w'.callsOn ident = w.callsOn ident
  used : ∀ k, keys k →
    (k ∈ w'.calls.flatMap Call.keys ↔
      k ∈ w.calls.flatMap Call.keys)

variable {keys : Key → Prop}

namespace Agrees

/- A call on the table succeeds in both states or in none. -/
theorem accepts_iff
    {call : Call}
    (hAgrees : Agrees ext ident keys w w')
    (hIdent : call.ident = ident)
    (hKeys : ∀ k ∈ call.keys, keys k) :
    (∃ u, (call.perform ext w'.database).1 = .ok u) ↔
      ∃ u, (call.perform ext w.database).1 = .ok u := by
  subst hIdent
  have hTypes : ∀ other ∈ w'.callsOn call.ident,
      other.ReadsTypes ext :=
    hAgrees.calls ▸ hAgrees.readsTypes
  rw [hAgrees.reachable.accepts_iff
      (readsTypes_of_callsOn hAgrees.readsTypes),
    hAgrees.reachable'.accepts_iff
      (readsTypes_of_callsOn hTypes)]
  have hUsed : ∀ k ∈ call.keys,
      (k ∈ w'.calls.flatMap Call.keys ↔
        k ∈ w.calls.flatMap Call.keys) :=
    fun k hKey => hAgrees.used k (hKeys k hKey)
  constructor
  · intro hThere
    exact hThere.of_table hAgrees.calls fun k hKey =>
      mt (hUsed k hKey).mpr (hThere.fresh k hKey)
  · intro hHere
    exact hHere.of_table hAgrees.calls.symm fun k hKey =>
      mt (hUsed k hKey).mp (hHere.fresh k hKey)

/- It is recorded in both states or in none. -/
theorem perform_self
    {call : Call}
    (hAgrees : Agrees ext ident keys w w')
    (hIdent : call.ident = ident)
    (hReads : call.ReadsTypes ext)
    (hKeys : ∀ k ∈ call.keys, keys k) :
    Agrees ext ident keys
      (w.perform ext call) (w'.perform ext call) := by
  have hAccepts := hAgrees.accepts_iff hIdent hKeys
  rcases @perform_cases ext w call with
    ⟨hOk, hCalls⟩ | ⟨hError, hSame⟩ <;>
  rcases @perform_cases ext w' call with
    ⟨hOk', hCalls'⟩ | ⟨hError', hSame'⟩
  · have hOn (v : World)
        (hRecorded :
          (v.perform ext call).calls = v.calls ++ [call]) :
        (v.perform ext call).callsOn ident =
          v.callsOn ident ++ [call] := by
      rw [callsOn, hRecorded]
      exact (callsOn_concat v v.database call ident).trans
        (by rw [if_pos hIdent])
    constructor
    case reachable =>
      exact hAgrees.reachable.tail (.inl ⟨call, rfl⟩)
    case reachable' =>
      exact hAgrees.reachable'.tail (.inl ⟨call, rfl⟩)
    case readsTypes =>
      rw [hOn w hCalls]
      exact List.forall_mem_append.mpr
        ⟨hAgrees.readsTypes, by simpa using hReads⟩
    case calls =>
      rw [hOn w hCalls, hOn w' hCalls', hAgrees.calls]
    case used =>
      intro k hKey
      rw [hCalls, hCalls', List.flatMap_append,
        List.flatMap_append, List.mem_append,
        List.mem_append]
      exact or_congr (hAgrees.used k hKey) .rfl
  · exact absurd (hAccepts.mpr hOk) hError'
  · exact absurd (hAccepts.mp hOk') hError
  · rw [hSame, hSame']
    exact hAgrees

/- A call on another table brings none of the values. -/
theorem perform_other
    {call : Call}
    (hAgrees : Agrees ext ident keys w w')
    (hOther : call.ident ≠ ident)
    (hApart : ∀ k ∈ call.keys, ¬ keys k) :
    Agrees ext ident keys
      (w.perform ext call) (w'.perform ext call) := by
  have hOn (v : World) :
      (v.perform ext call).callsOn ident =
        v.callsOn ident :=
    StepOn.callsOn_other (.inl ⟨call, rfl, rfl⟩) hOther
  have hUsed (v : World) (k : Key) (hKey : keys k) :
      k ∈ (v.perform ext call).calls.flatMap Call.keys ↔
        k ∈ v.calls.flatMap Call.keys := by
    rcases @perform_cases ext v call with
      ⟨_, hCalls⟩ | ⟨_, hSame⟩
    · rw [hCalls, List.flatMap_append, List.mem_append,
        List.flatMap_singleton]
      exact or_iff_left fun hIn => hApart k hIn hKey
    · rw [hSame]
  constructor
  case reachable =>
    exact hAgrees.reachable.tail (.inl ⟨call, rfl⟩)
  case reachable' =>
    exact hAgrees.reachable'.tail (.inl ⟨call, rfl⟩)
  case readsTypes =>
    rw [hOn w]
    exact hAgrees.readsTypes
  case calls => rw [hOn w, hOn w', hAgrees.calls]
  case used =>
    intro k hKey
    rw [hUsed w k hKey, hUsed w' k hKey]
    exact hAgrees.used k hKey

/- The states agree after the same requests in both. -/
theorem follow
    {later : List Request}
    (hAgrees : Agrees ext ident keys w w')
    (hReads : ∀ call ∈ Request.calls later,
      call.ident = ident → call.ReadsTypes ext)
    (hKeys : ∀ call ∈ Request.calls later,
      call.ident = ident → ∀ k ∈ call.keys, keys k)
    (hApart : ∀ call ∈ Request.calls later,
      call.ident ≠ ident → ∀ k ∈ call.keys, ¬ keys k) :
    Agrees ext ident keys
      (w.follow ext later) (w'.follow ext later) := by
  induction later generalizing w w' with
  | nil => exact hAgrees
  | cons request later ih =>
      cases request with
      | call call =>
          rw [Request.calls, List.forall_mem_cons]
            at hReads hKeys hApart
          refine ih ?_ hReads.2 hKeys.2 hApart.2
          by_cases hIdent : call.ident = ident
          · exact hAgrees.perform_self hIdent
              (hReads.1 hIdent) (hKeys.1 hIdent)
          · exact hAgrees.perform_other hIdent
              (hApart.1 hIdent)
      | drop dropped =>
          refine ih ?_ hReads hKeys hApart
          rw [respond, respond,
            hAgrees.reachable.inv.drop_eq,
            hAgrees.reachable'.inv.drop_eq]
          exact hAgrees

end Agrees

------------------------------------------------------------
-- Isolation
------------------------------------------------------------

/-
  The later calls on a table bring no value that a step has
  brought, and none of a later call on another table.
-/
def Apart
    (w w' : World)
    (ident : TableIdent)
    (later : List Request) : Prop :=
  ∀ call ∈ Request.calls later, call.ident = ident →
    ∀ k ∈ call.keys,
      (k ∈ w'.calls.flatMap Call.keys →
        k ∈ w.calls.flatMap Call.keys) ∧
      ∀ c ∈ Request.calls later, c.ident ≠ ident →
        k ∉ c.keys

instance
    (w w' : World)
    (ident : TableIdent)
    (later : List Request) :
    Decidable (Apart w w' ident later) :=
  inferInstanceAs (Decidable
    (∀ call ∈ Request.calls later, call.ident = ident →
      ∀ k ∈ call.keys,
        (k ∈ w'.calls.flatMap Call.keys →
          k ∈ w.calls.flatMap Call.keys) ∧
        ∀ c ∈ Request.calls later, c.ident ≠ ident →
          k ∉ c.keys))

/-
  A call on one table changes no read of another one, and
  neither does it later, as long as the same calls on the
  other table succeed with and without it: all reads of that
  table then return the same with and without it.  The same
  calls do succeed when they bring no value of the calls on
  other tables.
-/
theorem Reachable.isolated
    {other : TableIdent}
    (hReach : w.Reachable ext)
    (hStep : StepOn ext ident w w')
    (hOther : ident ≠ other) :
    SameReads ext w.database w'.database other ∧
    (∀ v v',
      Relation.ReflTransGen (Step ext) w v →
      Relation.ReflTransGen (Step ext) w' v' →
      v'.callsOn other = v.callsOn other →
      SameReads ext v.database v'.database other) ∧
    ∀ later : List Request,
      (∀ call ∈ w.callsOn other, call.ReadsTypes ext) →
      (∀ call ∈ Request.calls later,
        call.ident = other → call.ReadsTypes ext) →
      Apart w w' other later →
      SameReads ext (w.follow ext later).database
        (w'.follow ext later).database other := by
  have hReach' : w'.Reachable ext :=
    Relation.ReflTransGen.tail hReach hStep.step
  have hCalls := hStep.callsOn_other hOther
  refine ⟨?now, ?later, ?apart⟩
  case now => exact (hReach.sameTable hReach' hCalls).reads ext
  case later =>
    intro v v' hSteps hSteps' hSame
    exact (Reachable.sameTable (hReach.trans hSteps)
      (hReach'.trans hSteps') hSame).reads ext
  case apart =>
    intro later hTypes hReads hApart
    -- the values that the later calls on the table bring
    let keys (k : Key) : Prop :=
      ∃ call ∈ Request.calls later, call.ident = other ∧
        k ∈ call.keys
    have hAgrees : Agrees ext other keys w w' := by
      constructor
      case reachable => exact hReach
      case reachable' => exact hReach'
      case readsTypes => exact hTypes
      case calls => exact hCalls
      case used =>
        rintro k ⟨call, hCall, hIdent, hKey⟩
        constructor
        · exact (hApart call hCall hIdent k hKey).1
        · rcases (hReach.inv.moves hStep.step).calls with
            ⟨more, hMore⟩
          rw [hMore, List.flatMap_append]
          exact List.mem_append_left _
    have hLater := hAgrees.follow hReads
      (fun call hCall hIdent k hKey =>
        ⟨call, hCall, hIdent, hKey⟩)
      (fun c hc hOff k hKey => by
        rintro ⟨call, hCall, hIdent, hIn⟩
        exact (hApart call hCall hIdent k hIn).2 c hc hOff
          hKey)
    exact (hLater.reachable.sameTable hLater.reachable'
      hLater.calls).reads ext

end World

/- A second table, with UUIDs of its own. -/
def sampleSecond : Call :=
  .create
    { catalog := sampleCatalog
      ident := ⟨"n", "u"⟩
      location := "l"
      schema := ⟨[⟨"a", .int32, false⟩]⟩
      properties := none
      draws := sampleDraws 4 }

/- It appends the file that a later commit brings as well. -/
def sampleSecondNamed : Call :=
  .commit
    { catalog := sampleCatalog
      ident := ⟨"n", "u"⟩
      base := 4
      mutation := ⟨[.appendFiles
        [{ sampleFile with fileUuid := some 7 }]]⟩
      draws := sampleDraws 5 }

/- The append comes between the creation and a deletion. -/
theorem isolated_sample :
    let w := World.run sampleExternal
      (sampleSecond :: sampleCalls)
    let w' := w.perform sampleExternal sampleSecondNamed
    let later :=
      [World.Request.drop sampleIdent,
        .call (sampleCommit 6 3 [.deleteFiles [7]])]
    SameReads sampleExternal w.database w'.database
        sampleIdent ∧
      SameReads sampleExternal
        (w.follow sampleExternal later).database
        (w'.follow sampleExternal later).database
        sampleIdent := by
  intro w w' later
  have hIsolated := World.Reachable.isolated
    (World.reachable_run sampleExternal
      (sampleSecond :: sampleCalls))
    (.inl ⟨sampleSecondNamed, rfl, rfl⟩)
    (show sampleSecondNamed.ident ≠ sampleIdent by decide)
  exact ⟨hIsolated.1, hIsolated.2.2 later
    (by decide +kernel) (by decide +kernel)
    (by decide +kernel)⟩

/-
  The UUID of a file is unique among all tables: after the
  append on the second table, a commit that appends the same
  UUID to the first one fails, and is missing in its reads.
-/
theorem sharedFile_interferes :
    let w := World.run sampleExternal
      [sampleCreate 1, sampleSecond]
    let w' := w.perform sampleExternal sampleSecondNamed
    let later := [World.Request.call (sampleNamed 2 1)]
    w.Reachable sampleExternal ∧
      World.StepOn sampleExternal sampleSecondNamed.ident
        w w' ∧
      sampleSecondNamed.ident ≠ sampleIdent ∧
      ¬ SameReads sampleExternal
        (w.follow sampleExternal later).database
        (w'.follow sampleExternal later).database
        sampleIdent := by
  refine ⟨World.reachable_run .., .inl ⟨_, rfl, rfl⟩,
    by decide, ?_⟩
  intro hSame
  exact absurd hSame.current (by decide +kernel)

end Planar
