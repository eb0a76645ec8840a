import FlowEngine.Proofs.Json.Readers
import FlowEngine.Proofs.Run.Pinned
import FlowEngine.Proofs.Workflow.Reloading

/-! Pinned items in a workflow, and in the options of a run. -/
namespace FlowEngine
open Shape

/-! Items are read behind their shape as they are read at once. -/

private theorem PairedItem.reads : Reads Definition.pairedShape ofJson? := by
  refine reads_record (by decide) (fun h => ?_) fun hm ha => ?_
  · rw [h.required reads_natural rfl, h.withDefault reads_natural rfl]
  · simp only [Option.bind_eq_bind, Option.bind_eq_some_iff] at ha
    obtain ⟨item, hitem, input, hinput, -⟩ := ha
    exact List.forall_mem_cons.mpr ⟨accepts_of_required hm reads_natural hitem,
      List.forall_mem_singleton.mpr (accepts_of_default hm reads_natural hinput)⟩

private theorem BinaryRef.reads : Reads Definition.binaryShape ofJson? := by
  refine reads_record (by decide) (fun h => ?_) fun hm ha => ?_
  · rw [h.optional reads_text rfl nofun, h.withDefault reads_text rfl, h.optional reads_text rfl nofun,
      h.optional reads_text rfl nofun, h.optional reads_natural rfl nofun, h.optional reads_text rfl nofun]
  · simp only [Option.bind_eq_bind, Option.bind_eq_some_iff] at ha
    obtain ⟨id, hid, mimeType, hmimeType, fileName, hfileName, extension, hextension, size, hsize, data, hdata, -⟩ := ha
    simp only [List.forall_mem_cons, List.not_mem_nil, IsEmpty.forall_iff, implies_true, and_true]
    exact ⟨accepts_of_optional hm reads_text hid, accepts_of_default hm reads_text hmimeType,
      accepts_of_optional hm reads_text hfileName, accepts_of_optional hm reads_text hextension,
      accepts_of_optional hm reads_natural hsize, accepts_of_optional hm reads_text hdata⟩

private theorem ErrorInfo.reads : Reads Definition.errorShape ofJson? := by
  refine reads_record (by decide) (fun h => ?_) fun hm ha => ?_
  · rw [h.required reads_text rfl, h.required reads_text rfl, h.optional reads_text rfl nofun,
      h.optional reads_natural rfl nofun, h.optional reads_text rfl nofun]
  · simp only [Option.bind_eq_bind, Option.bind_eq_some_iff] at ha
    obtain ⟨message, hmessage, code, hcode, node, hnode, index, hindex, expression, hexpression, -⟩ := ha
    simp only [List.forall_mem_cons, List.not_mem_nil, IsEmpty.forall_iff, implies_true, and_true]
    exact ⟨accepts_of_required hm reads_text hmessage, accepts_of_required hm reads_text hcode,
      accepts_of_optional hm reads_text hnode, accepts_of_optional hm reads_natural hindex,
      accepts_of_optional hm reads_text hexpression⟩

private theorem Item.reads : Reads Definition.itemShape ofJson? := by
  rw [Definition.itemShape_eq]
  refine reads_record (by decide) (fun h => ?_) fun hm ha => ?_
  · rw [h.withDefault reads_object rfl, h.withDefault BinaryRef.reads.keyed rfl, h.optional ErrorInfo.reads rfl nofun,
      h.optional PairedItem.reads rfl nofun]
  · simp only [Option.bind_eq_bind, Option.bind_eq_some_iff] at ha
    obtain ⟨json, hjson, binary, hbinary, error, herror, paired, hpaired, -⟩ := ha
    simp only [List.forall_mem_cons, List.not_mem_nil, IsEmpty.forall_iff, implies_true, and_true]
    exact ⟨accepts_of_default hm reads_object hjson, accepts_of_default hm BinaryRef.reads.keyed hbinary,
      accepts_of_optional hm ErrorInfo.reads herror, accepts_of_optional hm PairedItem.reads hpaired⟩

/-! Items of a batch, which may be written as plain data. -/

namespace Item

/-- The data of an item that is read of an object. -/
private theorem json_of_ofJson? {fields : Keyed Json} {item : Item} (h : ofJson? (.obj fields) = some item) :
    Json.default? Json.fields? [] (fields.get? "json") = some item.json := by
  rw [ofJson?] at h
  obtain ⟨_, ⟨⟩, h⟩ := Option.bind_eq_some_iff.mp h
  obtain ⟨json, hjson, h⟩ := Option.bind_eq_some_iff.mp h
  obtain ⟨binary, -, h⟩ := Option.bind_eq_some_iff.mp h
  obtain ⟨error, -, h⟩ := Option.bind_eq_some_iff.mp h
  obtain ⟨paired, -, h⟩ := Option.bind_eq_some_iff.mp h
  cases h
  exact hjson

/-- An object is taken for the item that is read of it if it has a field for the data of an item. Any other object is
taken for data, but read as an item without data. -/
private theorem ofJson?_eq_recognise_iff {fields : Keyed Json} :
    ofJson? (.obj fields) = some (recognise (.obj fields)) ↔
      fields = [] ∨ (fields.get? "json").isSome ∧ (ofJson? (.obj fields)).isSome := by
  rw [recognise, Json.field, Json.field?, Json.fields?_obj, Option.bind_some]
  cases hget : fields.get? "json" with
  | none =>
    change ofJson? (.obj fields) = some (ofFields fields) ↔ _
    simp only [Option.isSome_none, Bool.false_eq_true, false_and, or_false]
    constructor
    · intro h
      have hjson := json_of_ofJson? h
      rw [hget] at hjson
      exact (Option.some.inj hjson).symm
    · rintro rfl
      rfl
  | some value =>
    have hne : fields ≠ [] := by
      rintro rfl
      cases hget
    simp only [hne, Option.isSome_some, true_and, false_or, Option.getD_some]
    constructor
    · intro h
      rw [h]
      rfl
    · intro h
      obtain ⟨item, hitem⟩ := Option.isSome_iff_exists.mp h
      have hjson := json_of_ofJson? hitem
      rw [hget] at hjson
      cases value with
      | obj => rw [hitem]; rfl
      | _ => cases hjson

/-- The object is empty, or is written like an item. -/
def Written (value : Json) : Prop :=
  value = .obj [] ∨ (value.field? "json").isSome ∧ (ofJson? value).isSome

/-- All objects of an array are read as the items that they are taken for if they are written as such. -/
private theorem list?_eq_batchOf_iff {values : List Json} (hobjects : ∀ value ∈ values, ∃ fields, value = .obj fields) :
    Json.list? ofJson? (.arr values) = some (batchOf (.arr values)) ↔ ∀ value ∈ values, Written value := by
  rw [batchOf]
  refine mapM_eq_some_iff.trans ?_
  rw [List.forall₂_map_right_iff, List.forall₂_same]
  refine forall₂_congr fun value hmem => ?_
  obtain ⟨fields, rfl⟩ := hobjects value hmem
  rw [ofJson?_eq_recognise_iff, Written, Json.field?, Json.fields?_obj, Option.bind_some, Json.obj.injEq]

end Item

/-! Definitions with an entry of pinned items. -/

namespace Definition
variable {text text₀ : String} {value : Json} {definition base : Definition} {fields m n : Keyed Json} {k : Nat}

private theorem ofFields_eq_some_iff : ofFields fields = some definition ↔
    fields.optional Json.str? "id" = some definition.id ∧
    fields.withDefault Json.str? "" "name" = some definition.name ∧
    fields.withDefault Json.bool? false "active" = some definition.active ∧
    fields.required (Json.list? fun v => v.fields?.bind NodeDef.ofFields) "nodes" = some definition.nodes ∧
    fields.withDefault (Json.keyed? (Json.keyed? (Json.list? (Json.list? fun v => v.fields?.bind Target.ofFields)))) []
      "connections" = some definition.connections ∧
    fields.withDefault (fun v => v.fields?.bind Settings.ofFields) Settings.none "settings" = some definition.settings ∧
    fields.optional Json.fields? "staticData" = some definition.staticData ∧
    fields.withDefault (Json.keyed? (Json.list? Item.ofJson?)) [] "pinData" = some definition.pinData := by
  constructor
  · intro h
    rw [ofFields] at h
    obtain ⟨id, hid, h⟩ := Option.bind_eq_some_iff.mp h
    obtain ⟨name, hname, h⟩ := Option.bind_eq_some_iff.mp h
    obtain ⟨active, hactive, h⟩ := Option.bind_eq_some_iff.mp h
    obtain ⟨nodes, hnodes, h⟩ := Option.bind_eq_some_iff.mp h
    obtain ⟨connections, hconnections, h⟩ := Option.bind_eq_some_iff.mp h
    obtain ⟨settings, hsettings, h⟩ := Option.bind_eq_some_iff.mp h
    obtain ⟨staticData, hstaticData, h⟩ := Option.bind_eq_some_iff.mp h
    obtain ⟨pinData, hpinData, h⟩ := Option.bind_eq_some_iff.mp h
    cases h
    exact ⟨hid, hname, hactive, hnodes, hconnections, hsettings, hstaticData, hpinData⟩
  · rintro ⟨hid, hname, hactive, hnodes, hconnections, hsettings, hstaticData, hpinData⟩
    rw [ofFields, hid, hname, hactive, hnodes, hconnections, hsettings, hstaticData, hpinData]
    rfl

/-- Fields that differ from those of a definition in the pinned items at most. -/
private theorem ofFields_eq_some_iff_of_base (hbase : ofFields n = some base)
    (hsame : ∀ name ∈ ["id", "name", "active", "nodes", "connections", "settings", "staticData"],
      m.get? name = n.get? name) :
    ofFields m = some definition ↔
      ∃ pins, m.withDefault (Json.keyed? (Json.list? Item.ofJson?)) [] "pinData" = some pins ∧
        definition = { base with pinData := pins } := by
  obtain ⟨hid, hname, hactive, hnodes, hconnections, hsettings, hstaticData, -⟩ := ofFields_eq_some_iff.mp hbase
  simp only [List.forall_mem_cons, List.not_mem_nil, IsEmpty.forall_iff, implies_true, and_true] at hsame
  obtain ⟨eid, ename, eactive, enodes, econnections, esettings, estaticData⟩ := hsame
  rw [Keyed.optional_eq, ← eid, ← Keyed.optional_eq] at hid
  rw [Keyed.withDefault_eq, ← ename, ← Keyed.withDefault_eq] at hname
  rw [Keyed.withDefault_eq, ← eactive, ← Keyed.withDefault_eq] at hactive
  rw [Keyed.required_eq, ← enodes, ← Keyed.required_eq] at hnodes
  rw [Keyed.withDefault_eq, ← econnections, ← Keyed.withDefault_eq] at hconnections
  rw [Keyed.withDefault_eq, ← esettings, ← Keyed.withDefault_eq] at hsettings
  rw [Keyed.optional_eq, ← estaticData, ← Keyed.optional_eq] at hstaticData
  rw [ofFields_eq_some_iff, hid, hname, hactive, hnodes, hconnections, hsettings, hstaticData]
  obtain ⟨id, name, active, nodes, connections, settings, staticData, pins⟩ := definition
  constructor
  · simp only [Option.some.injEq]
    rintro ⟨rfl, rfl, rfl, rfl, rfl, rfl, rfl, hpins⟩
    exact ⟨pins, hpins, rfl⟩
  · rintro ⟨pins, hpins, ⟨⟩⟩
    exact ⟨rfl, rfl, rfl, rfl, rfl, rfl, rfl, hpins⟩

/-- The text is taken for JSON, and is written of the value; no object in it names a field twice. -/
def Spelt (text : String) (value : Json) : Prop :=
  (Text.trimStart text).front = '\x7b' ∧
    ∃ d k, Json.readDocument (Text.trimStart text) = (d, none) ∧ d.Spells k value

private theorem parse_eq_ok_iff_of_spelt (h : Spelt text value) : parse text = .ok definition ↔
    ∃ w, shape.read true (.ofJson value) = .ok w ∧ w.fields?.bind ofFields = some definition := by
  obtain ⟨hbrace, d, k, hread, hspells⟩ := h
  have hself := Document.spells_ofJson hspells.plain
  have hsame (w : Json) : shape.read true d = .ok w ↔ shape.read true (.ofJson value) = .ok w :=
    ⟨read_of_spells shape hspells hself, read_of_spells shape hself hspells⟩
  rw [parse_eq_ok_iff hbrace hread, and_iff_right rfl]
  exact exists_congr fun w => and_congr_left fun _ => hsame w

private theorem Spelt.plain (h : Spelt text (.obj fields)) : ∃ k, (Json.obj fields).Plain (k + 1) := by
  obtain ⟨-, d, k, -, hspells⟩ := h
  have hplain := hspells.plain
  cases k with
  | zero => cases hplain
  | succ k => exact ⟨k, hplain⟩

def fieldShapes : List (String × Bool × Shape) :=
  [("id", false, .maybe .text), ("name", false, .text), ("active", false, .flag),
    ("nodes", true, .list NodeDef.shape), ("connections", false, connectionShape),
    ("settings", false, Settings.shape), ("staticData", false, .maybe .object),
    ("pinData", false, .keyed (.list itemShape))]

private theorem fieldShapes_nodup : (fieldShapes.map (·.1)).Nodup := by decide

/-- The shape of the pinned items. -/
private theorem fieldShapes_pinData {field : String × Bool × Shape} (hmem : field ∈ fieldShapes)
    (hname : field.1 = "pinData") : field = ("pinData", false, .keyed (.list itemShape)) := by
  simp only [fieldShapes, List.mem_cons, List.not_mem_nil, or_false] at hmem
  rcases hmem with rfl | rfl | rfl | rfl | rfl | rfl | rfl | rfl <;> first | rfl | exact absurd hname (by decide)

private theorem reads_pinData :
    Reads (.keyed (.list itemShape)) (Json.keyed? (Json.list? Item.ofJson?)) := Item.reads.list.keyed

/-- The pinned items are those that are read of their field as it is written. -/
private theorem pinData_of_parse (h : Spelt text (.obj fields)) (hparse : parse text = .ok definition) :
    fields.withDefault (Json.keyed? (Json.list? Item.ofJson?)) [] "pinData" = some definition.pinData := by
  obtain ⟨k, hplain⟩ := h.plain
  obtain ⟨w, hread, hfields⟩ := (parse_eq_ok_iff_of_spelt h).mp hparse
  obtain ⟨n, rfl, hn⟩ := normalises_of_read hplain hread
  obtain ⟨-, -, -, -, -, -, -, hpins⟩ := ofFields_eq_some_iff.mp hfields
  rwa [hn.withDefault reads_pinData rfl] at hpins

/-- A text that differs from that of a definition in the field of the pinned items at most. -/
private theorem parse_eq_ok_iff_of_base (h₀ : Spelt text₀ (.obj fields)) (hbase : parse text₀ = .ok base)
    (h : Spelt text (.obj (fields.put "pinData" value))) : parse text = .ok definition ↔
      ∃ pins, Json.keyed? (Json.list? Item.ofJson?) value = some pins ∧ definition = { base with pinData := pins } := by
  obtain ⟨k₀, hplain₀⟩ := h₀.plain
  obtain ⟨k, hplain⟩ := h.plain
  obtain ⟨w₀, hread₀, hfields₀⟩ := (parse_eq_ok_iff_of_spelt h₀).mp hbase
  have haccepts₀ := (exists_read_iff fieldShapes_nodup hplain₀).mp ⟨w₀, hread₀⟩
  obtain ⟨n₀, rfl, hn₀⟩ := normalises_of_read hplain₀ hread₀
  have hvalue : (fields.put "pinData" value).get? "pinData" = some value := by rw [Keyed.get?_put, if_pos rfl]
  have hother {name : String} (hne : "pinData" ≠ name) : (fields.put "pinData" value).get? name = fields.get? name := by
    rw [Keyed.get?_put, if_neg hne]
  -- what is read of the other fields is what is read of them in the first text
  have hsame {n : Keyed Json} (hn : Normalises fieldShapes k (fields.put "pinData" value) n) :
      ofFields n = some definition ↔
        ∃ pins, Json.keyed? (Json.list? Item.ofJson?) value = some pins ∧ definition = { base with pinData := pins } := by
    rw [ofFields_eq_some_iff_of_base hfields₀ fun name hname => ?_, hn.withDefault reads_pinData rfl,
      Keyed.withDefault_eq, hvalue]
    · rfl
    · have hne : "pinData" ≠ name := fun heq => absurd (heq ▸ hname) (by decide)
      have hknown : name ∈ fieldShapes.map (·.1) := List.mem_append_left ["pinData"] hname
      obtain ⟨shape, hshape⟩ := exists_field?_of_mem hknown
      exact hn.get?_eq hn₀ hshape (hother hne)
  rw [parse_eq_ok_iff_of_spelt h]
  constructor
  · rintro ⟨w, hread, hfields⟩
    obtain ⟨n, rfl, hn⟩ := normalises_of_read hplain hread
    exact (hsame hn).mp hfields
  · rintro ⟨pins, hpins, rfl⟩
    have haccepts : ∀ field ∈ fieldShapes, Accepts (fields.put "pinData" value) field := by
      intro field hfield
      by_cases hname : field.1 = "pinData"
      · have hread : (fields.put "pinData" value).withDefault (Json.keyed? (Json.list? Item.ofJson?)) [] "pinData" =
            some pins := by
          rw [Keyed.withDefault_eq, hvalue]
          exact hpins
        rw [fieldShapes_pinData hfield hname]
        exact accepts_of_default hplain.2 reads_pinData hread
      · obtain ⟨hneeded, hreadable⟩ := haccepts₀ field hfield
        rw [← hother (Ne.symm hname)] at hneeded
        exact ⟨hneeded, fun v hget => hreadable v (hother (Ne.symm hname) ▸ hget)⟩
    obtain ⟨w, hread⟩ := (exists_read_iff fieldShapes_nodup hplain).mpr haccepts
    obtain ⟨n, rfl, hn⟩ := normalises_of_read hplain hread
    exact ⟨_, hread, (hsame hn).mpr ⟨pins, hpins, rfl⟩⟩

variable {name : String} {values : List Json} {pins : Keyed Json}

/-- One more entry of pinned items in a text. -/
private theorem parse_eq_ok_iff_of_pin (h₀ : Spelt text₀ (.obj fields)) (hbase : parse text₀ = .ok base)
    (hpins : (fields.get? "pinData").getD (.obj []) = .obj pins)
    (h : Spelt text (.obj (fields.put "pinData" (.obj (pins.put name value))))) : parse text = .ok definition ↔
      ∃ batch, Json.list? Item.ofJson? value = some batch ∧ definition = base.pin name batch := by
  have hbasePins : Json.keyed? (Json.list? Item.ofJson?) (.obj pins) = some base.pinData := by
    have hread := pinData_of_parse h₀ hbase
    rw [Keyed.withDefault_eq] at hread
    cases hget : fields.get? "pinData" with
    | none =>
      rw [hget] at hread hpins
      cases hpins
      exact hread
    | some found =>
      rw [hget] at hread hpins
      obtain rfl : found = .obj pins := hpins
      exact hread
  have hrelated := keyed?_eq_some_iff.mp hbasePins
  rw [parse_eq_ok_iff_of_base h₀ hbase h]
  constructor
  · rintro ⟨entries, hentries, rfl⟩
    have hname := (keyed?_eq_some_iff.mp hentries).get? name
    rw [Keyed.get?_put, if_pos rfl] at hname
    obtain ⟨batch, -, hbatch⟩ := Keyed.exists_of_rel_left hname
    have hput : Json.keyed? (Json.list? Item.ofJson?) (.obj (pins.put name value)) =
        some (base.pinData.put name batch) := keyed?_eq_some_iff.mpr (hrelated.put hbatch)
    cases hentries.symm.trans hput
    exact ⟨batch, hbatch, rfl⟩
  · rintro ⟨batch, hbatch, rfl⟩
    exact ⟨_, keyed?_eq_some_iff.mpr (hrelated.put hbatch), rfl⟩

/-- Of an array of objects for a node, the workflow makes the batch that the options of a run make of it, if and only if
every object is empty or written like an item; the run is then the same whichever of the two pins it. The workflow
is readable if every object is readable as an item, which needs no data. -/
theorem pinned_alike_iff_written (engine : Engine) (hblind : engine.registry.Blind)
    (hobjects : ∀ value ∈ values, ∃ fields, value = .obj fields)
    (h₀ : Spelt text₀ (.obj fields)) (hbase : parse text₀ = .ok base)
    (hpins : (fields.get? "pinData").getD (.obj []) = .obj pins)
    (h : Spelt text (.obj (fields.put "pinData" (.obj (pins.put name (.arr values)))))) :
    ((∃ definition, parse text = .ok definition) ↔ ∀ value ∈ values, (Item.ofJson? value).isSome) ∧
      ((∃ definition, parse text = .ok definition ∧
          definition.pinData.get? name = some (Item.batchOf (.arr values))) ↔ ∀ value ∈ values, Item.Written value) ∧
      ∀ definition, parse text = .ok definition → definition.pinData.get? name = some (Item.batchOf (.arr values)) →
        ∀ seed options, options.pinned.get? name = none →
          engine.execute definition seed options =
            engine.execute base seed (options.pin name (Item.batchOf (.arr values))) := by
  have hparse {definition : Definition} : parse text = .ok definition ↔
      ∃ batch, Json.list? Item.ofJson? (.arr values) = some batch ∧ definition = base.pin name batch :=
    parse_eq_ok_iff_of_pin h₀ hbase hpins h
  have hget {batch : Batch} : (base.pin name batch).pinData.get? name = some batch := by
    rw [pin, Keyed.get?_put, if_pos rfl]
  refine ⟨?_, ?_, ?_⟩
  · rw [← isSome_mapM_iff, Option.isSome_iff_exists]
    constructor
    · rintro ⟨definition, hdefinition⟩
      obtain ⟨batch, hbatch, -⟩ := hparse.mp hdefinition
      exact ⟨batch, hbatch⟩
    · rintro ⟨batch, hbatch⟩
      exact ⟨_, hparse.mpr ⟨batch, hbatch, rfl⟩⟩
  · rw [← Item.list?_eq_batchOf_iff hobjects]
    constructor
    · rintro ⟨definition, hdefinition, hpinned⟩
      obtain ⟨batch, hbatch, rfl⟩ := hparse.mp hdefinition
      rwa [Option.some.inj (hget.symm.trans hpinned)] at hbatch
    · intro hbatch
      exact ⟨_, hparse.mpr ⟨_, hbatch, rfl⟩, hget⟩
  · intro definition hdefinition hpinned seed options hfree
    obtain ⟨batch, -, rfl⟩ := hparse.mp hdefinition
    rw [Option.some.inj (hget.symm.trans hpinned)]
    exact (Engine.execute_pin hblind hfree).symm

/-! Texts with and without pinned items. -/

/-- What is written of an object is spelt of it. -/
private theorem spelt_render (hplain : (Json.obj fields).Plain 127)
    (hfloats : ∀ x ∈ (Json.obj fields).floats, Json.read (Num.float x).render = .ok (.num (.float x))) :
    Spelt (Json.obj fields).render (.obj fields) := by
  obtain ⟨rest, hrest⟩ : ∃ rest, (Json.obj fields).render.toList = '\x7b' :: rest := by
    cases fields with
    | nil => exact ⟨_, rfl⟩
    | cons => exact ⟨_, Json.toList_render_obj⟩
  have htrim : Text.trimStart (Json.obj fields).render = (Json.obj fields).render := by
    rw [Text.trimStart, hrest, List.dropWhile_cons_of_neg (by decide), ← hrest, String.ofList_toList]
  rw [Spelt, htrim]
  exact ⟨front_of_toList hrest, _, _, Json.readDocument_render hplain hfloats, Document.spells_ofJson hplain⟩

def loneFields : Keyed Json :=
  .ofList [("name", .str "wf"), ("nodes", .arr [.mk [("name", .str "A"), ("type", .str "noOp")]])]

def pinnedFields (values : List Json) : Keyed Json := loneFields.put "pinData" (.obj (Keyed.put [] "A" (.arr values)))

private theorem plain_loneFields : (Json.obj loneFields).Plain 127 := by
  refine Json.plain_mk ?_
  simp only [List.forall_mem_cons, List.not_mem_nil, IsEmpty.forall_iff, implies_true, and_true]
  refine ⟨trivial, List.forall_mem_singleton.mpr (Json.plain_mk ?_)⟩
  simp [Json.Plain]

private theorem plain_pinnedFields (h : ∀ value ∈ values, value.Plain 124) :
    (Json.obj (pinnedFields values)).Plain 127 :=
  have hpins : (Json.obj (Keyed.put [] "A" (.arr values))).Plain 126 :=
    ⟨.put .nil, Keyed.forall_mem_put (List.forall_mem_nil _) h⟩
  ⟨.put plain_loneFields.1, Keyed.forall_mem_put plain_loneFields.2 hpins⟩

private theorem spelt_loneFields : Spelt (Json.obj loneFields).render (.obj loneFields) := by
  have hfloats : (Json.obj loneFields).floats = [] := by decide +kernel
  exact spelt_render plain_loneFields (hfloats ▸ List.forall_mem_nil _)

private theorem spelt_pinnedFields (h : ∀ value ∈ values, value.Plain 124)
    (hfloats : (Json.obj (pinnedFields values)).floats = []) :
    Spelt (Json.obj (pinnedFields values)).render (.obj (pinnedFields values)) :=
  spelt_render (plain_pinnedFields h) (hfloats ▸ List.forall_mem_nil _)

private theorem exists_parse_loneFields : ∃ base, parse (Json.obj loneFields).render = .ok base := by
  have hread : (parse (Json.obj loneFields).render).toOption.isSome = true := by decide +kernel
  cases hparse : parse (Json.obj loneFields).render with
  | ok base => exact ⟨base, rfl⟩
  | error failure =>
    rw [hparse] at hread
    cases hread

def bareEngine : Engine := { Engine.smallEngine with registry := .standard }

def itemAndNothing : List Json := [.obj [("json", .obj [("b", .ofNat 2)])], .obj []]

theorem pinned_alike_iff_written_itemAndNothing : ∃ base definition,
    parse (Json.obj loneFields).render = .ok base ∧ parse (Json.obj (pinnedFields itemAndNothing)).render = .ok definition ∧
      definition.pinData.get? "A" = some (Item.batchOf (.arr itemAndNothing)) ∧
      ∀ seed, bareEngine.execute definition seed (.ofMode .manual) =
        bareEngine.execute base seed ((RunOptions.ofMode .manual).pin "A" (Item.batchOf (.arr itemAndNothing))) := by
  obtain ⟨base, hbase⟩ := exists_parse_loneFields
  have hplain : ∀ value ∈ itemAndNothing, value.Plain 124 := by
    simp [itemAndNothing, Json.Plain, Keyed.Ascending, Json.ofNat, Num.InRange]
  have hobjects : ∀ value ∈ itemAndNothing, ∃ fields, value = .obj fields := by simp [itemAndNothing]
  have hwritten : ∀ value ∈ itemAndNothing, Item.Written value := by
    refine List.forall_mem_cons.mpr ⟨.inr ⟨rfl, rfl⟩, List.forall_mem_singleton.mpr (.inl rfl)⟩
  obtain ⟨-, halike, hruns⟩ := pinned_alike_iff_written bareEngine Node.Registry.blind_standard hobjects
    spelt_loneFields hbase rfl (spelt_pinnedFields hplain (by decide +kernel))
  obtain ⟨definition, hparse, hpinned⟩ := halike.mpr hwritten
  exact ⟨base, definition, hbase, hparse, hpinned, fun seed => hruns definition hparse hpinned seed _ rfl⟩

/-- An object that is not written like an item loses its data where the workflow pins it. -/
theorem plain_object_is_pinned_without_data : ∃ definition,
    parse (Json.obj (pinnedFields [.obj [("b", .ofNat 2)]])).render = .ok definition ∧
      definition.pinData.get? "A" = some [Item.ofFields []] ∧
      Item.batchOf (.arr [.obj [("b", .ofNat 2)]]) = [Item.ofFields [("b", .ofNat 2)]] := by
  obtain ⟨base, hbase⟩ := exists_parse_loneFields
  have hplain : ∀ value ∈ [Json.obj [("b", .ofNat 2)]], value.Plain 124 := by
    simp [Json.Plain, Keyed.Ascending, Json.ofNat, Num.InRange]
  refine ⟨base.pin "A" [Item.ofFields []], ?_, ?_, rfl⟩
  · exact (parse_eq_ok_iff_of_pin spelt_loneFields hbase rfl
      (spelt_pinnedFields hplain (by decide +kernel))).mpr ⟨_, rfl, rfl⟩
  · rw [pin, Keyed.get?_put, if_pos rfl]

end Definition

end FlowEngine
