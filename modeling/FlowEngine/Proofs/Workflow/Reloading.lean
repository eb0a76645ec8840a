import FlowEngine.Proofs.Decimal.Normal
import FlowEngine.Proofs.Json.Faithful
import FlowEngine.Proofs.Json.Rendering
import FlowEngine.Proofs.Run.Written
import FlowEngine.Workflow.Definition

/-! Workflow definitions that were read are read again as they are, after they have been written. -/
namespace FlowEngine
open Shape

variable {k : Nat}

private theorem CredentialRef.faithful : Faithful shape (fun v => v.fields?.bind ofFields) toJson (k + 1) := by
  intro v ref hadmits hplain hread
  obtain ⟨m, rfl, -, hm⟩ := exists_fits hadmits hplain
  simp only [Json.fields?_obj, Option.bind_some, ofFields, Option.bind_eq_bind, Option.bind_eq_some_iff,
    Option.pure_def, Option.some.injEq] at hread
  obtain ⟨id, hid, name, hname, rfl⟩ := hread
  have hid := survives_of_optional hm rfl faithful_text hid
  have hname := survives_of_default hm rfl faithful_text survives_text hname
  refine survives_record (List.forall_mem_append.mpr ⟨fits_whenSome hid rfl, ?_⟩) ?_ rfl ?_
  · exact List.forall_mem_singleton.mpr (hname.fits rfl)
  · simp
  · simp [ofFields]

private theorem Target.faithful : Faithful shape (fun v => v.fields?.bind ofFields) toJson (k + 1) := by
  intro v target hadmits hplain hread
  obtain ⟨m, rfl, -, hm⟩ := exists_fits hadmits hplain
  simp only [Json.fields?_obj, Option.bind_some, ofFields, Option.bind_eq_bind, Option.bind_eq_some_iff,
    Option.pure_def, Option.some.injEq] at hread
  obtain ⟨node, hnode, kind, hkind, index, hindex, rfl⟩ := hread
  have hnode := survives_of_required hm rfl faithful_text hnode
  have hkind := survives_of_default hm rfl faithful_text survives_text hkind
  have hindex := survives_of_default hm rfl faithful_natural (survives_natural (by decide) (Nat.le_refl _)) hindex
  refine survives_record ?_ ?_ rfl ?_
  · exact List.forall_mem_cons.mpr ⟨hnode.fits rfl, List.forall_mem_cons.mpr ⟨hkind.fits rfl,
      List.forall_mem_singleton.mpr (hindex.fits rfl)⟩⟩
  · simp
  · simp [ofFields]

namespace NodeDef

private theorem survives_version {n : Nat} (hn : n < 2 ^ 32) :
    Survives (.number acceptsVersion) wholeVersion .ofNat k n := by
  obtain ⟨hfinite, hnot, htrunc⟩ := Binary64.ofInt_whole (n := n) (by omega)
  refine ⟨⟨.int n, ?_, rfl⟩, .of_zero ⟨by omega, by omega⟩, ?_⟩
  · change (!decide (Binary64.ofInt n < 0.0) && Binary64.isFinite (Binary64.ofInt n)) = true
    rw [hfinite, decide_eq_false hnot]
    rfl
  · change some (min (Binary64.truncInt (Binary64.ofInt n)).toNat (2 ^ 32 - 1)) = some n
    rw [htrunc, Int.toNat_natCast, Nat.min_eq_left (by omega)]

private theorem faithful_version : Faithful (.number acceptsVersion) wholeVersion .ofNat k := by
  intro v n _ _ hread
  obtain ⟨x, -, rfl⟩ := Option.map_eq_some_iff.mp hread
  exact survives_version (by omega)

private theorem faithful_position : Faithful (.tuple 2 (.number fun _ => true))
    (Json.list? fun x => x.float?.map fun x => .num (.float x)) .arr (k + 1) := by
  rintro _ xs ⟨items, rfl, hlength, -⟩ - hread
  have hrelated := mapM_eq_some_iff.mp hread
  have hxs : ∀ x ∈ xs, ∃ y, x = .num (.float y) := fun x hx => by
    obtain ⟨item, -, hitem⟩ := exists_of_forall₂ hrelated hx
    obtain ⟨y, -, rfl⟩ := Option.map_eq_some_iff.mp hitem
    exact ⟨y, rfl⟩
  refine ⟨⟨xs, rfl, hrelated.length_eq.symm.trans hlength, fun x hx => ?_⟩, fun x hx => ?_, ?_⟩
  · obtain ⟨y, rfl⟩ := hxs x hx
    exact ⟨.float y, rfl, rfl⟩
  · obtain ⟨y, rfl⟩ := hxs x hx
    exact .of_zero trivial
  · refine Json.list?_self fun x hx => ?_
    obtain ⟨y, rfl⟩ := hxs x hx
    rfl

private theorem faithful : Faithful shape (fun v => v.fields?.bind ofFields) toJson (k + 3) := by
  intro v node hadmits hplain hread
  obtain ⟨m, rfl, -, hm⟩ := exists_fits hadmits hplain
  replace hread : ofFields m = some node := hread
  rw [ofFields] at hread
  -- field by field, as they are read
  obtain ⟨id, hid, hread⟩ := Option.bind_eq_some_iff.mp hread
  have hid := survives_of_optional hm rfl faithful_text hid
  obtain ⟨name, hname, hread⟩ := Option.bind_eq_some_iff.mp hread
  have hname := survives_of_required hm rfl faithful_text hname
  obtain ⟨type, htype, hread⟩ := Option.bind_eq_some_iff.mp hread
  have htype := survives_of_required hm rfl faithful_text htype
  obtain ⟨version, hversion, hread⟩ := Option.bind_eq_some_iff.mp hread
  have hversion := survives_of_default hm rfl faithful_version (survives_version (by decide)) hversion
  obtain ⟨parameters, hparameters, hread⟩ := Option.bind_eq_some_iff.mp hread
  have hparameters := survives_of_default hm rfl faithful_object survives_noFields hparameters
  obtain ⟨position, hposition, hread⟩ := Option.bind_eq_some_iff.mp hread
  have hposition := survives_of_optional hm rfl faithful_position hposition
  obtain ⟨disabled, hdisabled, hread⟩ := Option.bind_eq_some_iff.mp hread
  have hdisabled := survives_of_default hm rfl faithful_flag survives_flag hdisabled
  obtain ⟨continueOnFail, hcontinueOnFail, hread⟩ := Option.bind_eq_some_iff.mp hread
  have hcontinueOnFail := survives_of_default hm rfl faithful_flag survives_flag hcontinueOnFail
  obtain ⟨retryOnFail, hretryOnFail, hread⟩ := Option.bind_eq_some_iff.mp hread
  have hretryOnFail := survives_of_default hm rfl faithful_flag survives_flag hretryOnFail
  obtain ⟨maxTries, hmaxTries, hread⟩ := Option.bind_eq_some_iff.mp hread
  have hmaxTries := survives_of_default hm rfl faithful_natural (survives_natural (by decide) (by decide)) hmaxTries
  obtain ⟨waitBetweenTries, hwaitBetweenTries, hread⟩ := Option.bind_eq_some_iff.mp hread
  have hwaitBetweenTries := survives_of_optional hm rfl faithful_natural hwaitBetweenTries
  obtain ⟨alwaysOutputData, halwaysOutputData, hread⟩ := Option.bind_eq_some_iff.mp hread
  have halwaysOutputData := survives_of_default hm rfl faithful_flag survives_flag halwaysOutputData
  obtain ⟨executeOnce, hexecuteOnce, hread⟩ := Option.bind_eq_some_iff.mp hread
  have hexecuteOnce := survives_of_default hm rfl faithful_flag survives_flag hexecuteOnce
  obtain ⟨notes, hnotes, hread⟩ := Option.bind_eq_some_iff.mp hread
  have hnotes := survives_of_optional hm rfl faithful_text hnotes
  obtain ⟨credentials, hcredentials, hread⟩ := Option.bind_eq_some_iff.mp hread
  have hcredentials := survives_of_default hm rfl CredentialRef.faithful.keyed survives_noEntries hcredentials
  cases hread
  refine survives_record ?_ ?_ rfl ?_
  · simp only [List.forall_mem_append, List.forall_mem_cons, List.not_mem_nil, IsEmpty.forall_iff, implies_true, and_true]
    exact ⟨⟨⟨⟨⟨⟨⟨fits_whenSome hid rfl, hname.fits rfl, htype.fits rfl, hversion.fits rfl, hparameters.fits rfl⟩,
      fits_whenSome hposition rfl⟩, hdisabled.fits rfl, hcontinueOnFail.fits rfl, hretryOnFail.fits rfl,
      hmaxTries.fits rfl⟩, fits_whenSome hwaitBetweenTries rfl⟩, halwaysOutputData.fits rfl, hexecuteOnce.fits rfl⟩,
      fits_whenSome hnotes rfl⟩, fits_unless (hcredentials.fits rfl)⟩
  · simp
  · simp [ofFields, hversion.read, hparameters.read, optional?_survivor hposition nofun,
      Json.default?_of_read hcredentials.read]

end NodeDef

namespace Settings

private theorem survives_none : Survives shape (fun v => v.fields?.bind ofFields) toJson (k + 1) none :=
  have hentries : ∀ entry ∈ ([] : List (String × Json)), Fits _ true k entry := List.forall_mem_nil _
  survives_record hentries (by simp) rfl rfl

/-- The names of the settings that have a meaning are taken from the others when these are read. -/
private theorem ofFields_toJson {settings : Settings} (hascending : settings.others.Ascending)
    (htimeout : settings.others.get? "executionTimeout" = .none) (htimezone : settings.others.get? "timezone" = .none) :
    settings.toJson.fields?.bind ofFields = some settings := by
  obtain ⟨timeout, timezone, others⟩ := settings
  have hothers : ((Keyed.ofList (Json.whenSome "executionTimeout" timeout Json.ofInt ++
      Json.whenSome "timezone" timezone .str ++ others)).remove "executionTimeout").remove "timezone" = others := by
    refine Keyed.Ascending.ext Keyed.Ascending.ofList.remove.remove hascending fun name => ?_
    by_cases hzone : name = "timezone"
    · rw [hzone, Keyed.get?_remove_self, htimezone]
    rw [Keyed.get?_remove hzone]
    by_cases hlimit : name = "executionTimeout"
    · rw [hlimit, Keyed.get?_remove_self, htimeout]
    rw [Keyed.get?_remove hlimit]
    simp [hascending.get?_ofList, Ne.symm hzone, Ne.symm hlimit]
  simpa [ofFields, toJson, hascending.get?_ofList, htimeout, htimezone] using hothers

private theorem faithful : Faithful shape (fun v => v.fields?.bind ofFields) toJson (k + 1) := by
  intro v settings hadmits hplain hread
  obtain ⟨m, rfl, hascending, hm⟩ := exists_fits hadmits hplain
  simp only [Json.fields?_obj, Option.bind_some, ofFields, Option.bind_eq_bind, Option.bind_eq_some_iff,
    Option.pure_def, Option.some.injEq] at hread
  obtain ⟨timeout, htimeout, timezone, htimezone, rfl⟩ := hread
  have htimeout := survives_of_optional hm rfl faithful_integer htimeout
  have htimezone := survives_of_optional hm rfl faithful_text htimezone
  have hothers : ((m.remove "executionTimeout").remove "timezone").Ascending := hascending.remove.remove
  refine survives_record ?_ (by simp) rfl ?_
  · refine List.forall_mem_append.mpr ⟨List.forall_mem_append.mpr
      ⟨fits_whenSome htimeout rfl, fits_whenSome htimezone rfl⟩, fun entry hentry => hm entry ?_⟩
    exact List.mem_of_mem_filter (List.mem_of_mem_filter hentry)
  · refine ofFields_toJson hothers ?_ Keyed.get?_remove_self
    rw [Keyed.get?_remove (by decide), Keyed.get?_remove_self]

end Settings

/-! Items. -/

namespace Definition

def binaryShape : Shape :=
  .record [("id", false, .maybe .text), ("mimeType", false, .text), ("fileName", false, .maybe .text),
    ("fileExtension", false, .maybe .text), ("fileSize", false, .maybe (.natural (2 ^ 64))),
    ("data", false, .maybe .text)] false

def errorShape : Shape :=
  .record [("message", true, .text), ("code", true, .text), ("node", false, .maybe .text),
    ("itemIndex", false, .maybe (.natural (2 ^ 64))), ("expression", false, .maybe .text)] false

def pairedShape : Shape :=
  .record [("item", true, .natural (2 ^ 64)), ("input", false, .natural (2 ^ 64))] false

theorem itemShape_eq : itemShape = .record [("json", false, .object), ("binary", false, .keyed binaryShape),
    ("error", false, .maybe errorShape), ("pairedItem", false, .maybe pairedShape)] false := rfl

end Definition

private theorem BinaryRef.faithful : Faithful Definition.binaryShape ofJson? toJson (k + 1) := by
  intro v ref hadmits hplain hread
  obtain ⟨m, rfl, -, hm⟩ := exists_fits hadmits hplain
  simp only [ofJson?, Json.record?_obj, Option.bind_eq_bind, Option.bind_some, Option.bind_eq_some_iff,
    Option.pure_def, Option.some.injEq] at hread
  obtain ⟨id, hid, mimeType, hmimeType, fileName, hfileName, extension, hextension, size, hsize, data, hdata, rfl⟩ := hread
  have hid := survives_of_optional hm rfl faithful_text hid
  have hmimeType := survives_of_default hm rfl faithful_text survives_text hmimeType
  have hfileName := survives_of_optional hm rfl faithful_text hfileName
  have hextension := survives_of_optional hm rfl faithful_text hextension
  have hsize := survives_of_optional hm rfl faithful_natural hsize
  have hdata := survives_of_optional hm rfl faithful_text hdata
  refine survives_record ?_ (by simp) rfl (ofJson?_toJson _)
  simp only [List.forall_mem_append, List.forall_mem_cons, List.not_mem_nil, IsEmpty.forall_iff, implies_true, and_true]
  exact ⟨⟨⟨⟨⟨fits_whenSome hid rfl, hmimeType.fits rfl⟩, fits_whenSome hfileName rfl⟩, fits_whenSome hextension rfl⟩,
    fits_whenSome hsize rfl⟩, fits_whenSome hdata rfl⟩

private theorem ErrorInfo.faithful : Faithful Definition.errorShape ofJson? toJson (k + 1) := by
  intro v info hadmits hplain hread
  obtain ⟨m, rfl, -, hm⟩ := exists_fits hadmits hplain
  simp only [ofJson?, Json.record?_obj, Option.bind_eq_bind, Option.bind_some, Option.bind_eq_some_iff,
    Option.pure_def, Option.some.injEq] at hread
  obtain ⟨message, hmessage, code, hcode, node, hnode, index, hindex, expression, hexpression, rfl⟩ := hread
  have hmessage := survives_of_required hm rfl faithful_text hmessage
  have hcode := survives_of_required hm rfl faithful_text hcode
  have hnode := survives_of_optional hm rfl faithful_text hnode
  have hindex := survives_of_optional hm rfl faithful_natural hindex
  have hexpression := survives_of_optional hm rfl faithful_text hexpression
  refine survives_record ?_ (by simp) rfl (ofJson?_toJson _)
  simp only [List.forall_mem_append, List.forall_mem_cons, List.not_mem_nil, IsEmpty.forall_iff, implies_true, and_true]
  exact ⟨⟨⟨⟨hmessage.fits rfl, hcode.fits rfl⟩, fits_whenSome hnode rfl⟩, fits_whenSome hindex rfl⟩,
    fits_whenSome hexpression rfl⟩

private theorem PairedItem.faithful : Faithful Definition.pairedShape ofJson? toJson (k + 1) := by
  intro v paired hadmits hplain hread
  obtain ⟨m, rfl, -, hm⟩ := exists_fits hadmits hplain
  simp only [ofJson?, Json.record?_obj, Option.bind_eq_bind, Option.bind_some, Option.bind_eq_some_iff,
    Option.pure_def, Option.some.injEq] at hread
  obtain ⟨item, hitem, input, hinput, rfl⟩ := hread
  have hitem := survives_of_required hm rfl faithful_natural hitem
  have hinput := survives_of_default hm rfl faithful_natural (survives_natural (by decide) (Nat.le_refl _)) hinput
  refine survives_record ?_ (by simp) rfl (ofJson?_toJson _)
  exact List.forall_mem_append.mpr ⟨List.forall_mem_singleton.mpr (hitem.fits rfl), fits_unless (hinput.fits rfl)⟩

private theorem Item.faithful : Faithful Definition.itemShape ofJson? toJson (k + 3) := by
  intro v item hadmits hplain hread
  rw [Definition.itemShape_eq] at hadmits ⊢
  obtain ⟨m, rfl, -, hm⟩ := exists_fits hadmits hplain
  simp only [ofJson?, Json.record?_obj, Option.bind_eq_bind, Option.bind_some, Option.bind_eq_some_iff,
    Option.pure_def, Option.some.injEq] at hread
  obtain ⟨json, hjson, binary, hbinary, error, herror, paired, hpaired, rfl⟩ := hread
  have hjson := survives_of_default hm rfl faithful_object survives_noFields hjson
  have hbinary := survives_of_default hm rfl BinaryRef.faithful.keyed survives_noEntries hbinary
  have herror := survives_of_optional hm rfl ErrorInfo.faithful herror
  have hpaired := survives_of_optional hm rfl PairedItem.faithful hpaired
  refine survives_record ?_ (by simp) rfl (ofJson?_toJson _)
  simp only [List.forall_mem_append, List.forall_mem_singleton]
  exact ⟨⟨⟨hjson.fits rfl, fits_unless (hbinary.fits rfl)⟩, fits_whenSome herror rfl⟩, fits_whenSome hpaired rfl⟩

private theorem Batch.faithful : Faithful (.list Definition.itemShape) (Json.list? Item.ofJson?) toJson (k + 4) :=
  Item.faithful.list

/-! Definitions. -/

namespace Definition

private theorem faithful : Faithful shape (fun v => v.fields?.bind ofFields) toJson (k + 6) := by
  intro v definition hadmits hplain hread
  obtain ⟨m, rfl, -, hm⟩ := exists_fits hadmits hplain
  simp only [Json.fields?_obj, Option.bind_some, ofFields, Option.bind_eq_bind, Option.bind_eq_some_iff,
    Option.pure_def, Option.some.injEq] at hread
  obtain ⟨id, hid, name, hname, active, hactive, nodes, hnodes, connections, hconnections, settings, hsettings,
    staticData, hstaticData, pinData, hpinData, rfl⟩ := hread
  have hid := survives_of_optional hm rfl faithful_text hid
  have hname := survives_of_default hm rfl faithful_text survives_text hname
  have hactive := survives_of_default hm rfl faithful_flag survives_flag hactive
  have hnodes := survives_of_required hm rfl NodeDef.faithful.list hnodes
  have hconnections := survives_of_default hm rfl Target.faithful.list.list.keyed.keyed survives_noEntries hconnections
  have hsettings := survives_of_default hm rfl Settings.faithful Settings.survives_none hsettings
  have hstaticData := survives_of_optional hm rfl faithful_object hstaticData
  have hpinData := survives_of_default hm rfl Batch.faithful.keyed survives_noEntries hpinData
  refine survives_record ?_ (by simp) rfl ?_
  · simp only [List.forall_mem_append, List.forall_mem_cons, List.not_mem_nil, IsEmpty.forall_iff, implies_true, and_true]
    exact ⟨⟨⟨fits_whenSome hid rfl, hname.fits rfl, hactive.fits rfl, hnodes.fits rfl, hconnections.fits rfl,
      hsettings.fits rfl⟩, fits_whenSome hstaticData rfl⟩, fits_unless (hpinData.fits rfl)⟩
  · simp [ofFields, hnodes.read, hconnections.read, hsettings.read, Json.default?_of_read hpinData.read]

variable {text : String} {definition : Definition}

theorem front_of_toList {c : Char} {rest : List Char} (h : text.toList = c :: rest) : text.front = c := by
  have hfront : text.front? = some c := by rw [String.front?_eq, h, List.head?_cons]
  rw [String.front, String.Slice.front, String.front?_toSlice, hfront]
  rfl

/-- A definition is written as an object. -/
private theorem exists_toList_render : ∃ rest, definition.toJson.render.toList = '\x7b' :: rest := by
  rw [toJson, Json.mk]
  generalize Keyed.ofList _ = fields
  cases fields with
  | nil => exact ⟨_, rfl⟩
  | cons => exact ⟨_, Json.toList_render_obj⟩

/-- What a text comes to that is taken for JSON. -/
theorem parse_eq_ok_iff {d : Document} {fault : Option Json.Fault} (hbrace : (Text.trimStart text).front = '\x7b')
    (hread : Json.readDocument (Text.trimStart text) = (d, fault)) :
    parse text = .ok definition ↔
      fault = none ∧ ∃ value, shape.read true d = .ok value ∧ value.fields?.bind ofFields = some definition := by
  have hempty : (Text.trimStart text).isEmpty = false := by
    rw [String.isEmpty_eq_false_iff]
    intro hempty
    rw [hempty] at hbrace
    cases hbrace
  rw [parse, hempty, if_neg Bool.false_ne_true, if_pos (beq_iff_eq.mpr hbrace), hread]
  dsimp only [ofDocument]
  cases shape.read true d with
  | error => simp
  | ok value =>
    cases hvalue : value.fields?.bind ofFields with
    | none => simp [hvalue]
    | some found => cases fault <;> simp [hvalue]

/-- The value of a text that is taken for JSON. -/
private theorem parse_json (hbrace : (Text.trimStart text).front = '\x7b') (hparse : parse text = .ok definition) :
    ∃ value : Json, shape.Admits value ∧ value.Plain 127 ∧ value.fields?.bind ofFields = some definition := by
  rcases hread : Json.readDocument (Text.trimStart text) with ⟨d, fault⟩
  obtain ⟨rfl, value, hvalue, hfields⟩ := (parse_eq_ok_iff hbrace hread).mp hparse
  obtain ⟨rest, hrest, -⟩ := Json.Reader.readDocument_eq_ok hread
  have hplain := (Json.Reader.readsPlain _).value hrest
  obtain ⟨hadmits, hplain⟩ := admits_of_read shape hplain hvalue
  exact ⟨value, hadmits, hplain, hfields⟩

/-- What is written of a definition is read as the definition. -/
private theorem parse_render (h : shape.Survives (fun v => v.fields?.bind ofFields) toJson 127 definition)
    (hfloats : ∀ x ∈ definition.toJson.floats, Json.read (Num.float x).render = .ok (.num (.float x))) :
    parse definition.toJson.render = .ok definition := by
  obtain ⟨rest, hrest⟩ := definition.exists_toList_render
  have htrim : Text.trimStart definition.toJson.render = definition.toJson.render := by
    rw [Text.trimStart, hrest, List.dropWhile_cons_of_neg (by decide), ← hrest, String.ofList_toList]
  refine (parse_eq_ok_iff ?_ ?_).mpr ⟨rfl, _, read_ofJson shape h.admits h.plain, h.read⟩
  · rw [htrim, front_of_toList hrest]
  · rw [htrim, Json.readDocument_render h.plain hfloats]

/-- A definition that was read of JSON is read again as it is, once it has been written. -/
theorem parse_render_of_parse (hbrace : (Text.trimStart text).front = '\x7b') (hparse : parse text = .ok definition)
    (hfloats : ∀ x ∈ definition.toJson.floats, Json.read (Num.float x).render = .ok (.num (.float x))) :
    parse definition.toJson.render = .ok definition := by
  obtain ⟨value, hadmits, hplain, hvalue⟩ := parse_json hbrace hparse
  exact parse_render (faithful (k := 121) hadmits hplain hvalue) hfloats

/-- A text with a position that is not whole, a version that loses its fraction and a setting that has no meaning. -/
def looseText : String :=
  "\x7b\"nodes\":[\x7b\"name\":\"A\",\"type\":\"b\",\"typeVersion\":2.5,\"position\":[0.5,2]\x7d],\"settings\":\x7b\"c\":null\x7d\x7d"

theorem looseText_is_read_again : ∃ definition : Definition, parse looseText = .ok definition ∧
    definition.toJson.floats = [0.5, 2.0] ∧ definition.settings.others.names = ["c"] ∧
    definition.nodes.map (·.version) = [2] ∧ parse definition.toJson.render = .ok definition := by
  have hread : (parse looseText).toOption.any (fun definition => decide (definition.toJson.floats = [0.5, 2.0]) &&
      definition.settings.others.names == ["c"] && definition.nodes.map (·.version) == [2]) = true := by
    decide +kernel
  cases hparse : parse looseText with
  | error e =>
    rw [hparse] at hread
    cases hread
  | ok definition =>
    rw [hparse] at hread
    obtain ⟨⟨hfloats, hothers⟩, hversions⟩ : (definition.toJson.floats = [0.5, 2.0] ∧
        definition.settings.others.names = ["c"]) ∧ definition.nodes.map (·.version) = [2] := by
      simpa [Except.toOption] using hread
    refine ⟨definition, rfl, hfloats, hothers, hversions, parse_render_of_parse (by decide +kernel) hparse ?_⟩
    rw [hfloats]
    exact List.forall_mem_cons.mpr ⟨rfl, List.forall_mem_singleton.mpr rfl⟩

end Definition

end FlowEngine
