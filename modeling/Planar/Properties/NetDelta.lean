import Planar.Reading.NetChanges

/-
  The net delta of any sequence of events, also of one that
  adds a removed file again.

  Main declarations:
    * `IsNetDelta`
    * `projectDeltaRange_net`
-/

------------------------------------------------------------
-- The Net Delta
------------------------------------------------------------

namespace Planar

/- The delta leads from the first set to the second one. -/
structure IsNetDelta
    (live live' : Set Uuid)
    (delta : TableDelta) : Prop where
  addedNodup : (delta.addedFiles.map File.fileUuid).Nodup
  removedNodup :
    (delta.removedFiles.map File.fileUuid).Nodup
  disjoint :
    ∀ u ∈ delta.addedFiles.map File.fileUuid,
      u ∉ delta.removedFiles.map File.fileUuid
  net :
    (live \ {u | u ∈ delta.removedFiles.map
        File.fileUuid}) ∪
      {u | u ∈ delta.addedFiles.map File.fileUuid} = live'

variable
  {live : Set Uuid}

/-
  The projection is the net delta if and only if every file
  of the start that is added again is live at the end: the
  removal of such a file is lost.
-/
theorem projectDeltaRange_net
    {events : List TxnEvent}
    {newSchema : Option Schema}
    {newProperties : Option TableProperties}
    (fromTransactionId toTransactionId : TxnId)
    (hValid :
      ValidFrom live
        (events.flatMap TxnEvent.fileChanges)) :
    IsNetDelta live
      (liveAfter live
        (events.flatMap TxnEvent.fileChanges))
      (projectDeltaRange fromTransactionId toTransactionId
        events newSchema newProperties) ↔
    ∀ u ∈ live,
      AddedIn (events.flatMap TxnEvent.fileChanges) u →
      u ∈ liveAfter live
        (events.flatMap TxnEvent.fileChanges) := by
  have hEncodes :=
    (netEncodes_start live).foldl hValid
  rw [List.nil_append] at hEncodes
  have hAdded (u : Uuid) :
      u ∈ (projectDeltaRange fromTransactionId
          toTransactionId events newSchema
          newProperties).addedFiles.map File.fileUuid ↔
        u ∈ liveAfter live
            (events.flatMap TxnEvent.fileChanges) ∧
          AddedIn (events.flatMap TxnEvent.fileChanges)
            u := by
    rw [← hEncodes.addedKeys, AList.mem_keys,
      ← hEncodes.addedByUuid.uuids_intoValues]
    rfl
  have hRemoved (u : Uuid) :
      u ∈ (projectDeltaRange fromTransactionId
          toTransactionId events newSchema
          newProperties).removedFiles.map File.fileUuid ↔
        u ∈ live ∧
          u ∉ liveAfter live
            (events.flatMap TxnEvent.fileChanges) ∧
          ¬ AddedIn (events.flatMap TxnEvent.fileChanges)
            u := by
    rw [← hEncodes.removedKeys, AList.mem_keys,
      ← hEncodes.removedByUuid.uuids_intoValues]
    rfl
  constructor
  · intro hDelta u hLive hAgain
    rw [← hDelta.net]
    refine .inl ⟨hLive, fun hGone => ?_⟩
    exact ((hRemoved u).mp hGone).2.2 hAgain
  · intro hStays
    constructor
    case addedNodup =>
      change (FileMap.intoValues _).map File.fileUuid |>.Nodup
      rw [hEncodes.addedByUuid.uuids_intoValues]
      exact AList.keys_nodup _
    case removedNodup =>
      change (FileMap.intoValues _).map File.fileUuid |>.Nodup
      rw [hEncodes.removedByUuid.uuids_intoValues]
      exact AList.keys_nodup _
    case disjoint =>
      intro u hIn hOut
      exact ((hRemoved u).mp hOut).2.1 ((hAdded u).mp hIn).1
    case net =>
      ext u
      rw [Set.mem_union, Set.mem_sdiff, Set.mem_ofPred_eq,
        Set.mem_ofPred_eq, hAdded, hRemoved]
      constructor
      · rintro (⟨hBase, hKept⟩ | ⟨hLive, _⟩)
        · by_contra hGone
          by_cases hAgain : AddedIn
              (events.flatMap TxnEvent.fileChanges) u
          · exact hGone (hStays u hBase hAgain)
          · exact hKept ⟨hBase, hGone, hAgain⟩
        · exact hLive
      · intro hLive
        rcases hEncodes.origin u hLive with hBase | hAgain
        · exact .inl ⟨hBase, fun hGone => hGone.2.1 hLive⟩
        · exact .inr ⟨hLive, hAgain⟩

/- The event of one change to a file. -/
def sampleChange
    (t : TxnId)
    (kind : TxnFileChangeKind) : TxnEvent :=
  { transactionId := t
    fileChanges :=
      [{ transactionId := t
         kind := kind
         file :=
           { fileUuid := 7
             tableUuid := 1000
             fileFormat := "parquet"
             filePath := "p"
             recordCount := 1
             fileSizeBytes := 1
             addedInTransactionId := 1
             removedInTransactionId := none
             partitionValues := none
             formatOptions := none } }]
    schemaChange := none }

/- A file is removed and added again. -/
theorem projectDeltaRange_net_sample :
    IsNetDelta {7} {7}
      (projectDeltaRange 1 3
        [sampleChange 2 .removed, sampleChange 3 .added]
        none none) := by
  have hLive : liveAfter {7}
      ([sampleChange 2 .removed,
        sampleChange 3 .added].flatMap
          TxnEvent.fileChanges) = {7} := by
    simp [liveAfter, TxnFileChange.applyTo, sampleChange]
  have hValid : ValidFrom {7}
      ([sampleChange 2 .removed,
        sampleChange 3 .added].flatMap
          TxnEvent.fileChanges) := by
    simp [ValidFrom, TxnFileChange.IsValid,
      TxnFileChange.applyTo, sampleChange]
  have hNet : IsNetDelta {7}
      (liveAfter {7}
        ([sampleChange 2 .removed,
          sampleChange 3 .added].flatMap
            TxnEvent.fileChanges))
      (projectDeltaRange 1 3
        [sampleChange 2 .removed, sampleChange 3 .added]
        none none) := by
    apply (projectDeltaRange_net 1 3 hValid).mpr
    intro u hStart _
    rw [hLive]
    exact hStart
  rw [hLive] at hNet
  exact hNet

/- The second removal of the file is lost. -/
theorem projectDeltaRange_removedAgain :
    ∃ live events,
      ValidFrom live
        (events.flatMap TxnEvent.fileChanges) ∧
      ¬ IsNetDelta live
        (liveAfter live
          (events.flatMap TxnEvent.fileChanges))
        (projectDeltaRange 1 4 events none none) := by
  refine ⟨{7}, [sampleChange 2 .removed,
    sampleChange 3 .added, sampleChange 4 .removed], ?_, ?_⟩
  · simp [ValidFrom, TxnFileChange.IsValid,
      TxnFileChange.applyTo, sampleChange]
  · intro hDelta
    have hNone : (projectDeltaRange 1 4
        [sampleChange 2 .removed, sampleChange 3 .added,
          sampleChange 4 .removed] none none).removedFiles =
        [] := by
      decide +kernel
    have hStill : (7 : Uuid) ∈ liveAfter {7}
        ([sampleChange 2 .removed, sampleChange 3 .added,
          sampleChange 4 .removed].flatMap
            TxnEvent.fileChanges) := by
      rw [← hDelta.net, hNone]
      exact .inl ⟨rfl, List.not_mem_nil⟩
    simp [liveAfter, TxnFileChange.applyTo, sampleChange]
      at hStill

end Planar
