import FlowEngine.Proofs.Json.Fields
import FlowEngine.Run.Record
import FlowEngine.Workflow.Item

/-! Items and failures that are written as values are read again as they were. -/
namespace FlowEngine

@[simp] theorem ErrorInfo.ofJson?_toJson (info : ErrorInfo) : ofJson? info.toJson = some info := by
  simp [ofJson?, toJson]

@[simp] theorem BinaryRef.ofJson?_toJson (ref : BinaryRef) : ofJson? ref.toJson = some ref := by
  simp [ofJson?, toJson]

@[simp] theorem PairedItem.ofJson?_toJson (paired : PairedItem) : ofJson? paired.toJson = some paired := by
  obtain ⟨item, input⟩ := paired
  by_cases h : input = 0 <;> simp [ofJson?, toJson, h]

namespace Item

@[simp] theorem ofJson?_toJson (item : Item) : ofJson? item.toJson = some item := by
  have hbinary : Json.keyed? BinaryRef.ofJson? (.obj (item.binary.mapValues BinaryRef.toJson)) = some item.binary :=
    Json.keyed?_obj fun _ _ => BinaryRef.ofJson?_toJson _
  have herror : Json.optional? ErrorInfo.ofJson? (item.error.map ErrorInfo.toJson) = some item.error :=
    Json.optional?_map (fun _ _ => ErrorInfo.ofJson?_toJson _) nofun
  have hpaired : Json.optional? PairedItem.ofJson? (item.pairedItem.map PairedItem.toJson) = some item.pairedItem :=
    Json.optional?_map (fun _ _ => PairedItem.ofJson?_toJson _) nofun
  simp [ofJson?, toJson, herror, hpaired, Json.default?_of_read hbinary]

/-- An item that is written is taken for the item that it is. -/
@[simp] theorem recognise_toJson (item : Item) : recognise item.toJson = item := by
  have hjson : item.toJson.field "json" = .obj item.json := by
    simp [Json.field, Json.field?, toJson, Json.mk]
  rw [recognise, hjson, ofJson?_toJson]
  rfl

end Item

private theorem Batch.list?_toJson (batch : Batch) : Json.list? Item.ofJson? batch.toJson = some batch :=
  Json.list?_arr fun item _ => item.ofJson?_toJson

private theorem Item.batchOf_toJson (batch : Batch) : batchOf batch.toJson = batch := by
  rw [Batch.toJson, batchOf, List.map_map]
  exact (List.map_congr_left fun item _ => recognise_toJson item).trans batch.map_id

end FlowEngine

/-! Records of runs that are written as values are read again as they were. What it takes is that their points in time
are read again from their texts. -/
namespace FlowEngine

@[simp] theorem Mode.ofJson?_name (mode : Mode) : ofJson? (.str mode.name) = some mode := by
  cases mode <;> decide

@[simp] theorem Status.ofJson?_name (status : Status) : ofJson? (.str status.name) = some status := by
  cases status <;> decide

@[simp] theorem SourceRef.ofJson?_toJson (source : SourceRef) : ofJson? source.toJson = some source := by
  simp [ofJson?, toJson]

@[simp] theorem RunError.ofJson?_toJson (error : RunError) : ofJson? error.toJson = some error := by
  simp [ofJson?, toJson]

private theorem Output.list?_toJson (output : Output) :
    Json.list? (Json.list? Item.ofJson?) output.toJson = some output :=
  Json.list?_arr fun batch _ => Batch.list?_toJson batch

/-- The text of the point denotes the point. -/
def Time.Stamp.ReadsBack (t : Time.Stamp) : Prop := readUniversal? t.toText = some t

instance (t : Time.Stamp) : Decidable t.ReadsBack := inferInstanceAs (Decidable (_ = _))

namespace Task

private theorem stampOf?_stampJson {t : Time.Stamp} (h : t.ReadsBack) : stampOf? (stampJson t) = some t := by
  rw [stampOf?, stampJson, Json.str?_str, Option.bind_some]
  exact h

@[simp] theorem successOf?_statusName (success : Bool) : successOf? (.str (statusName success)) = some success := by
  cases success <;> decide

private theorem ofJson?_toJson {task : Task} (hattempts : task.attempts < 2 ^ 32) (hstart : task.startTime.ReadsBack) :
    ofJson? task.toJson = some task := by
  have hdata : Json.optional? (Json.list? (Json.list? Item.ofJson?)) (task.data.map Output.toJson) = some task.data :=
    Json.optional?_map (fun _ _ => Output.list?_toJson _) nofun
  have herror : Json.optional? ErrorInfo.ofJson? (task.error.map ErrorInfo.toJson) = some task.error :=
    Json.optional?_map (fun _ _ => ErrorInfo.ofJson?_toJson _) nofun
  have hsources : Json.list? SourceRef.ofJson? (.arr (task.sources.map SourceRef.toJson)) = some task.sources :=
    Json.list?_arr fun source _ => source.ofJson?_toJson
  have hstamp := stampOf?_stampJson hstart
  have hnat := Json.natBelow?_ofNat hattempts
  generalize hbound : (2 ^ 32 : Nat) = bound at hnat
  simp [ofJson?, toJson, hdata, herror, Json.default?_of_read hsources, hstamp, hbound, hnat, -Nat.reducePow]

end Task

namespace RunRecord

/-- All tasks of the record. -/
def tasks (record : RunRecord) : List Task := record.runData.flatMap (·.2)

/-- All points in time that the record tells. -/
def stamps (record : RunRecord) : List Time.Stamp :=
  record.startedAt :: record.finishedAt.toList ++ record.tasks.map (·.startTime)

private theorem ofJson?_toJson {record : RunRecord} (hattempts : ∀ task ∈ record.tasks, task.attempts < 2 ^ 32)
    (hstamps : ∀ t ∈ record.stamps, t.ReadsBack) : ofJson? record.toJson = some record := by
  obtain ⟨hstarted, hrest⟩ := List.forall_mem_cons.mp hstamps
  obtain ⟨hfinished, htasks⟩ := List.forall_mem_append.mp hrest
  have hdata : RunData.ofJson? record.runData.toJson = some record.runData := by
    refine Json.keyed?_obj fun entry hentry => Json.list?_arr fun task htask => Task.ofJson?_toJson ?_ ?_
    · exact hattempts task (List.mem_flatMap.mpr ⟨entry, hentry, htask⟩)
    · exact htasks _ (List.mem_map_of_mem (List.mem_flatMap.mpr ⟨entry, hentry, htask⟩))
  have herror : Json.optional? RunError.ofJson? (record.error.map RunError.toJson) = some record.error :=
    Json.optional?_map (fun _ _ => RunError.ofJson?_toJson _) nofun
  have hstarted := Task.stampOf?_stampJson hstarted
  have hfinished : Json.optional? Task.stampOf? (record.finishedAt.map Task.stampJson) = some record.finishedAt :=
    Json.optional?_map (fun t ht => Task.stampOf?_stampJson (hfinished t (Option.mem_toList.mpr ht))) nofun
  simp [ofJson?, toJson, hdata, herror, hstarted, hfinished]

end RunRecord

/-- A record of a run is read again as it was, whatever happened in the run, as long as counts of tries have no more than
32 bits and the texts of its points in time denote them. A batch is read again without any condition: each of its items
is taken for an item, and none for data. -/
theorem written_is_read_again :
    (∀ record : RunRecord, (∀ task ∈ record.tasks, task.attempts < 2 ^ 32) → (∀ t ∈ record.stamps, t.ReadsBack) →
      RunRecord.ofJson? record.toJson = some record) ∧
    ∀ batch : Batch, Item.batchOf batch.toJson = batch ∧ ∀ item ∈ batch, Item.ofJson? item.toJson = some item :=
  ⟨fun _ => RunRecord.ofJson?_toJson, fun batch => ⟨Item.batchOf_toJson batch, fun item _ => item.ofJson?_toJson⟩⟩

/-- A run in which one node puts out an item with all that an item may have, and the next one fails. -/
def failedRun : RunRecord :=
  let item : Item := ⟨[("json", .obj []), ("n", .num (.float 0.5))],
    [("scan", ⟨some "f1", "image/png", some "scan", some "png", some 70000, none⟩)],
    some ⟨"no such field", "EXPRESSION_ERROR", some "Read", some 1, some "$json.x"⟩, some ⟨3, 1⟩⟩
  let failure : ErrorInfo := ⟨"boom", "NODE_EXECUTION_ERROR", some "Send", none, none⟩
  { executionId := "e1", workflowId := none, workflowName := "scans", mode := .webhook, status := .failed
    runData := [
      ("Read", [⟨⟨1700000000, 250000000, 0⟩, 12, true, some [[item], []], none, [], 1, true⟩]),
      ("Send", [⟨⟨1700000001, 0, 0⟩, 40, false, none, some failure, [⟨"Read", 0, 0⟩], 3, false⟩])]
    lastNode := some "Send", error := some ⟨"Node 'Send' failed: boom", "NODE_EXECUTION_ERROR", some "Send"⟩
    startedAt := ⟨1699999999, 999000000, 0⟩, finishedAt := some ⟨1700000001, 40000000, 0⟩ }

theorem written_is_read_again_failedRun :
    (∀ task ∈ failedRun.tasks, task.attempts < 2 ^ 32) ∧ (∀ t ∈ failedRun.stamps, t.ReadsBack) ∧
      RunRecord.ofJson? failedRun.toJson = some failedRun :=
  have hattempts : ∀ task ∈ failedRun.tasks, task.attempts < 2 ^ 32 := by decide
  have hstamps : ∀ t ∈ failedRun.stamps, t.ReadsBack := by decide +kernel
  ⟨hattempts, hstamps, written_is_read_again.1 failedRun hattempts hstamps⟩

end FlowEngine
