import Mathlib.Data.Set.Insert
import Planar.Catalog.Diff
import Planar.Reading.Records

/-
  The projection of file changes to net changes: what the
  two maps hold after any valid sequence of changes.

  Main declarations:
    * `liveAfter`, `ValidFrom`, `Takes`
    * `NetEncodes`, `NetEncodes.foldl`
    * `NetOf`, `NetEncodes.netOf`
-/

------------------------------------------------------------
-- Folding Changes
------------------------------------------------------------

namespace Planar

/- The live UUIDs after one change. -/
def TxnFileChange.applyTo
    (live : Set Uuid)
    (change : TxnFileChange) : Set Uuid :=
  match change.kind with
  | .added => insert change.file.fileUuid live
  | .removed => live \ {change.file.fileUuid}

/- The live UUIDs after all changes, in order. -/
def liveAfter
    (live : Set Uuid)
    (changes : List TxnFileChange) : Set Uuid :=
  changes.foldl TxnFileChange.applyTo live

/- A change adds what is not live or removes what is. -/
def TxnFileChange.IsValid
    (live : Set Uuid)
    (change : TxnFileChange) : Prop :=
  match change.kind with
  | .added => change.file.fileUuid ∉ live
  | .removed => change.file.fileUuid ∈ live

/- Every change is valid at its position. -/
def ValidFrom (live : Set Uuid) :
    List TxnFileChange → Prop
| [] => True
| change :: rest =>
    change.IsValid live ∧ ValidFrom (change.applyTo live) rest

/- Some change adds the UUID. -/
def AddedIn
    (changes : List TxnFileChange)
    (u : Uuid) : Prop :=
  ∃ change ∈ changes,
    change.kind = .added ∧ change.file.fileUuid = u

/- Valid changes that lead from one set to another. -/
structure Takes
    (live live' : Set Uuid)
    (changes : List TxnFileChange) : Prop where
  valid : ValidFrom live changes
  live : liveAfter live changes = live'

variable
  {base live live' live'' : Set Uuid}
  {seen rest first second : List TxnFileChange}
  {net : NetChanges}
  {t : TxnId}
  {file : File}
  {files : List File}

theorem validFrom_append :
    ValidFrom live (first ++ second) ↔
      ValidFrom live first ∧
        ValidFrom (liveAfter live first) second := by
  induction first generalizing live with
  | nil => exact (and_iff_right trivial).symm
  | cons change first ih =>
      rw [List.cons_append, ValidFrom, ValidFrom, ih,
        and_assoc]
      rfl

theorem takes_nil
    (live : Set Uuid) :
    Takes live live [] :=
  ⟨trivial, rfl⟩

theorem Takes.append
    (hFirst : Takes live live' first)
    (hSecond : Takes live' live'' second) :
    Takes live live'' (first ++ second) := by
  rcases hFirst with ⟨hValid, rfl⟩
  constructor
  · exact validFrom_append.mpr ⟨hValid, hSecond.valid⟩
  · rw [liveAfter, List.foldl_append]
    exact hSecond.live

/- New files are added, one after the other. -/
theorem takes_added
    (hNodup : (files.map File.fileUuid).Nodup)
    (hNew : ∀ f ∈ files, f.fileUuid ∉ live) :
    Takes live
      (live ∪ {u | u ∈ files.map File.fileUuid})
      (changesOf t .added files) := by
  induction files generalizing live with
  | nil =>
      refine ⟨trivial, ?_⟩
      simp [changesOf, liveAfter]
  | cons file rest ih =>
      rw [List.map_cons, List.nodup_cons] at hNodup
      have hRest := @ih (insert file.fileUuid live)
        hNodup.2 (by
          intro f hFile hIn
          rcases Set.mem_insert_iff.mp hIn with hEq | hIn
          · exact hNodup.1
              (hEq ▸ List.mem_map_of_mem hFile)
          · exact hNew f (List.mem_cons_of_mem _ hFile) hIn)
      constructor
      · exact ⟨hNew file List.mem_cons_self, hRest.valid⟩
      · refine hRest.live.trans ?_
        ext u
        simp [or_assoc, or_left_comm]

/- Files that are there are removed. -/
theorem takes_removed
    (hNodup : (files.map File.fileUuid).Nodup)
    (hThere : ∀ f ∈ files, f.fileUuid ∈ live) :
    Takes live
      (live \ {u | u ∈ files.map File.fileUuid})
      (changesOf t .removed files) := by
  induction files generalizing live with
  | nil =>
      refine ⟨trivial, ?_⟩
      simp [changesOf, liveAfter]
  | cons file rest ih =>
      rw [List.map_cons, List.nodup_cons] at hNodup
      have hRest := @ih (live \ {file.fileUuid})
        hNodup.2 (by
          intro f hFile
          refine ⟨hThere f (List.mem_cons_of_mem _ hFile),
            fun hEq => hNodup.1 ?_⟩
          rw [← Set.mem_singleton_iff.mp hEq]
          exact List.mem_map_of_mem hFile)
      constructor
      · exact ⟨hThere file List.mem_cons_self, hRest.valid⟩
      · refine hRest.live.trans ?_
        ext u
        simp [and_assoc]

/- One event adds its files before it removes others. -/
theorem takes_event
    {added removed : List File}
    (hAdded : (added.map File.fileUuid).Nodup)
    (hNew : ∀ f ∈ added, f.fileUuid ∉ live)
    (hRemoved : (removed.map File.fileUuid).Nodup)
    (hThere : ∀ f ∈ removed, f.fileUuid ∈ live ∨
      f.fileUuid ∈ added.map File.fileUuid) :
    Takes live
      ((live ∪ {u | u ∈ added.map File.fileUuid}) \
        {u | u ∈ removed.map File.fileUuid})
      (changesOf t .added added ++
        changesOf t .removed removed) :=
  (takes_added hAdded hNew).append
    (takes_removed hRemoved hThere)

theorem addedIn_append
    (u : Uuid) :
    AddedIn (first ++ second) u ↔
      AddedIn first u ∨ AddedIn second u := by
  constructor
  · rintro ⟨change, hChange, hAdded⟩
    rcases List.mem_append.mp hChange with hIn | hIn
    · exact .inl ⟨change, hIn, hAdded⟩
    · exact .inr ⟨change, hIn, hAdded⟩
  · rintro (⟨change, hIn, hAdded⟩ | ⟨change, hIn, hAdded⟩)
    · exact ⟨change, List.mem_append_left _ hIn, hAdded⟩
    · exact ⟨change, List.mem_append_right _ hIn, hAdded⟩

theorem addedIn_changesOf
    (kind : TxnFileChangeKind)
    (u : Uuid) :
    AddedIn (changesOf t kind files) u ↔
      kind = .added ∧ u ∈ files.map File.fileUuid := by
  constructor
  · rintro ⟨change, hChange, hKind, rfl⟩
    rcases List.mem_map.mp hChange with ⟨f, hFile, rfl⟩
    exact ⟨hKind, List.mem_map_of_mem hFile⟩
  · rintro ⟨rfl, hUuid⟩
    rcases List.mem_map.mp hUuid with ⟨f, hFile, rfl⟩
    exact ⟨_, List.mem_map_of_mem hFile, rfl, rfl⟩

theorem addedIn_added
    (u : Uuid) :
    AddedIn (seen ++ [⟨t, .added, file⟩]) u ↔
      AddedIn seen u ∨ u = file.fileUuid := by
  change AddedIn (seen ++ changesOf t .added [file]) u ↔ _
  rw [addedIn_append, addedIn_changesOf]
  simp

theorem addedIn_removed
    (u : Uuid) :
    AddedIn (seen ++ [⟨t, .removed, file⟩]) u ↔
      AddedIn seen u := by
  change AddedIn (seen ++ changesOf t .removed [file]) u ↔ _
  rw [addedIn_append, addedIn_changesOf]
  simp

------------------------------------------------------------
-- What the Two Maps Hold
------------------------------------------------------------

/- Erasing an entry keeps what holds of the others. -/
theorem forall_entries_erase
    {P : (Σ _ : Uuid, File) → Prop}
    {entries : FileMap}
    (hAll : ∀ p ∈ entries.entries, P p)
    (u : Uuid) :
    ∀ p ∈ (entries.erase u).entries, P p := by
  intro p hEntry
  exact hAll p
    ((List.kerase_sublist u entries.entries).subset hEntry)

theorem forall_entries_insert
    {P : (Σ _ : Uuid, File) → Prop}
    {entries : FileMap}
    (hAll : ∀ p ∈ entries.entries, P p)
    (hNew : P ⟨file.fileUuid, file⟩) :
    ∀ p ∈ (entries.insert file.fileUuid file).entries,
      P p := by
  intro p hEntry
  rw [AList.entries_insert, List.mem_cons] at hEntry
  rcases hEntry with rfl | hOld
  · exact hNew
  · exact hAll p
      ((List.kerase_sublist _ entries.entries).subset hOld)

/- What holds of all changed files holds of all values. -/
theorem forall_entries_foldl
    {P : (Σ _ : Uuid, File) → Prop}
    (hFiles : ∀ change ∈ rest,
      P ⟨change.file.fileUuid, change.file⟩)
    (hAdded : ∀ p ∈ net.added.entries, P p)
    (hRemoved : ∀ p ∈ net.removed.entries, P p) :
    (∀ p ∈ (rest.foldl projectChange net).added.entries,
      P p) ∧
    ∀ p ∈ (rest.foldl projectChange net).removed.entries,
      P p := by
  induction rest generalizing net with
  | nil => exact ⟨hAdded, hRemoved⟩
  | cons change rest ih =>
      rcases List.forall_mem_cons.mp hFiles with
        ⟨hFile, hRest⟩
      rw [List.foldl_cons]
      unfold projectChange
      dsimp only
      cases change.kind with
      | added =>
          exact ih hRest
            (forall_entries_insert hAdded hFile)
            (forall_entries_erase hRemoved _)
      | removed =>
          cases net.added.lookup change.file.fileUuid with
          | some f =>
              exact ih hRest
                (forall_entries_erase hAdded _) hRemoved
          | none =>
              exact ih hRest hAdded
                (forall_entries_insert hRemoved hFile)

/- Every file stands under its own UUID. -/
def FileMap.ByUuid (files : FileMap) : Prop :=
  ∀ p ∈ files.entries, p.2.fileUuid = p.1

/- The UUIDs of the values of a map are its keys. -/
theorem FileMap.ByUuid.uuids_intoValues
    {files : FileMap}
    (hFiles : files.ByUuid) :
    files.intoValues.map File.fileUuid = files.keys := by
  unfold FileMap.intoValues AList.keys List.keys
  rw [List.map_map]
  exact List.map_congr_left hFiles

/-
  After the changes `seen` a live file is in the first map
  if it was ever added, and a file of the start that is gone
  is in the second one if it was never added.
-/
structure NetEncodes
    (base live : Set Uuid)
    (seen : List TxnFileChange)
    (net : NetChanges) : Prop where
  addedByUuid : net.added.ByUuid
  removedByUuid : net.removed.ByUuid
  addedKeys : ∀ u,
    u ∈ net.added ↔ u ∈ live ∧ AddedIn seen u
  removedKeys : ∀ u,
    u ∈ net.removed ↔
      u ∈ base ∧ u ∉ live ∧ ¬ AddedIn seen u
  origin : ∀ u ∈ live, u ∈ base ∨ AddedIn seen u

theorem netEncodes_start
    (base : Set Uuid) :
    NetEncodes base base [] {} where
  addedByUuid p hEntry := by cases hEntry
  removedByUuid p hEntry := by cases hEntry
  addedKeys u := by simp [AddedIn]
  removedKeys u := by simp +contextual
  origin u hLive := .inl hLive

theorem NetEncodes.added
    (hEncodes : NetEncodes base live seen net) :
    NetEncodes base (insert file.fileUuid live)
      (seen ++ [⟨t, .added, file⟩])
      (projectChange net ⟨t, .added, file⟩) where
  addedByUuid :=
    forall_entries_insert hEncodes.addedByUuid rfl
  removedByUuid :=
    forall_entries_erase hEncodes.removedByUuid _
  addedKeys u := by
    rw [addedIn_added, Set.mem_insert_iff]
    simp only [projectChange, AList.mem_insert,
      hEncodes.addedKeys]
    by_cases hSame : u = file.fileUuid
    · simp [hSame]
    · simp [hSame]
  removedKeys u := by
    rw [addedIn_added, Set.mem_insert_iff]
    simp only [projectChange, AList.mem_erase,
      hEncodes.removedKeys]
    by_cases hSame : u = file.fileUuid
    · simp [hSame]
    · simp [hSame]
  origin u hLive := by
    rw [addedIn_added]
    rcases Set.mem_insert_iff.mp hLive with hSame | hOld
    · exact .inr (.inr hSame)
    · rcases hEncodes.origin u hOld with hBase | hAdded
      · exact .inl hBase
      · exact .inr (.inl hAdded)

/-
  A file that was added leaves the first map; any other one
  was there from the start, and enters the second map.
-/
theorem NetEncodes.removed
    (hEncodes : NetEncodes base live seen net)
    (hThere : file.fileUuid ∈ live) :
    NetEncodes base (live \ {file.fileUuid})
      (seen ++ [⟨t, .removed, file⟩])
      (projectChange net ⟨t, .removed, file⟩) := by
  have hOrigin : ∀ u ∈ live \ {file.fileUuid},
      u ∈ base ∨
        AddedIn (seen ++ [⟨t, .removed, file⟩]) u := by
    intro u hLive
    rw [addedIn_removed]
    exact hEncodes.origin u hLive.1
  cases hLookup : net.added.lookup file.fileUuid with
  | some found =>
      have hAdded : file.fileUuid ∈ net.added := by
        rw [← AList.lookup_isSome, hLookup]
        rfl
      have hSeen : AddedIn seen file.fileUuid :=
        ((hEncodes.addedKeys _).mp hAdded).2
      simp only [projectChange, hLookup]
      constructor
      case addedByUuid =>
        exact forall_entries_erase hEncodes.addedByUuid _
      case removedByUuid => exact hEncodes.removedByUuid
      case addedKeys =>
        intro u
        rw [addedIn_removed, AList.mem_erase,
          hEncodes.addedKeys, Set.mem_sdiff,
          Set.mem_singleton_iff]
        tauto
      case removedKeys =>
        intro u
        rw [addedIn_removed, hEncodes.removedKeys,
          Set.mem_sdiff, Set.mem_singleton_iff]
        by_cases hSame : u = file.fileUuid
        · simp [hSame, hSeen]
        · simp [hSame]
      case origin => exact hOrigin
  | none =>
      have hNotAdded : file.fileUuid ∉ net.added := by
        rw [← AList.lookup_isSome, hLookup]
        simp
      have hNotSeen : ¬ AddedIn seen file.fileUuid :=
        fun hSeen => hNotAdded
          ((hEncodes.addedKeys _).mpr ⟨hThere, hSeen⟩)
      have hBase : file.fileUuid ∈ base :=
        (hEncodes.origin _ hThere).resolve_right hNotSeen
      simp only [projectChange, hLookup]
      constructor
      case addedByUuid => exact hEncodes.addedByUuid
      case removedByUuid =>
        exact forall_entries_insert
          hEncodes.removedByUuid rfl
      case addedKeys =>
        intro u
        rw [addedIn_removed, hEncodes.addedKeys,
          Set.mem_sdiff, Set.mem_singleton_iff]
        by_cases hSame : u = file.fileUuid
        · simp [hSame, hNotSeen]
        · simp [hSame]
      case removedKeys =>
        intro u
        rw [addedIn_removed, AList.mem_insert,
          hEncodes.removedKeys, Set.mem_sdiff,
          Set.mem_singleton_iff]
        by_cases hSame : u = file.fileUuid
        · simp [hSame, hBase, hNotSeen]
        · simp [hSame]
      case origin => exact hOrigin

/- By induction on the changes, one lemma for each kind. -/
theorem NetEncodes.foldl
    (hEncodes : NetEncodes base live seen net)
    (hValid : ValidFrom live rest) :
    NetEncodes base (liveAfter live rest) (seen ++ rest)
      (rest.foldl projectChange net) := by
  induction rest generalizing live seen net with
  | nil =>
      rw [List.append_nil]
      exact hEncodes
  | cons change rest ih =>
      rcases change with ⟨t, kind, file⟩
      rcases hValid with ⟨hFirst, hRest⟩
      rw [List.append_cons, List.foldl_cons]
      apply ih _ hRest
      cases kind with
      | added => exact hEncodes.added
      | removed => exact hEncodes.removed hFirst

------------------------------------------------------------
-- Net Changes
------------------------------------------------------------

/-
  The two maps keep the difference from a set of keys to the
  current one; every file stands under its own UUID.
-/
structure NetOf
    (IsFile : File → Prop)
    (base current : Uuid → Prop)
    (net : NetChanges) : Prop where
  addedValues : ∀ p ∈ net.added.entries,
    p.2.fileUuid = p.1 ∧ IsFile p.2
  removedValues : ∀ p ∈ net.removed.entries,
    p.2.fileUuid = p.1 ∧ IsFile p.2
  addedKeys : ∀ k,
    k ∈ net.added ↔ current k ∧ ¬ base k
  removedKeys : ∀ k,
    k ∈ net.removed ↔ base k ∧ ¬ current k

/-
  When no file of the start is added, what the maps hold is
  the difference between the two sets.
-/
theorem NetEncodes.netOf
    {IsFile : File → Prop}
    (hEncodes : NetEncodes base live seen net)
    (hNew : ∀ u, AddedIn seen u → u ∉ base)
    (hAdded : ∀ p ∈ net.added.entries, IsFile p.2)
    (hRemoved : ∀ p ∈ net.removed.entries, IsFile p.2) :
    NetOf IsFile base live net where
  addedValues p hEntry :=
    ⟨hEncodes.addedByUuid p hEntry, hAdded p hEntry⟩
  removedValues p hEntry :=
    ⟨hEncodes.removedByUuid p hEntry, hRemoved p hEntry⟩
  addedKeys u := by
    rw [hEncodes.addedKeys]
    constructor
    · rintro ⟨hLive, hSeen⟩
      exact ⟨hLive, hNew u hSeen⟩
    · rintro ⟨hLive, hOut⟩
      exact ⟨hLive, (hEncodes.origin u hLive).resolve_left
        hOut⟩
  removedKeys u := by
    rw [hEncodes.removedKeys]
    constructor
    · rintro ⟨hBase, hGone, _⟩
      exact ⟨hBase, hGone⟩
    · rintro ⟨hBase, hGone⟩
      exact ⟨hBase, hGone, fun hSeen => hNew u hSeen hBase⟩

/- Valid changes from a set, none of them a file of it. -/
theorem Takes.netOf
    {IsFile : File → Prop}
    (hTakes : Takes base live rest)
    (hNew : ∀ u, AddedIn rest u → u ∉ base)
    (hFiles : ∀ change ∈ rest, IsFile change.file) :
    NetOf IsFile base live (rest.foldl projectChange {}) := by
  have hEncodes :=
    (netEncodes_start base).foldl hTakes.valid
  rw [List.nil_append, hTakes.live] at hEncodes
  have hValues := @forall_entries_foldl rest {}
    (fun p => IsFile p.2) hFiles
    (fun p hp => by cases hp) (fun p hp => by cases hp)
  exact hEncodes.netOf hNew hValues.1 hValues.2

end Planar
