import FlowEngine.Node.Set
import FlowEngine.Proofs.Node.Items
import FlowEngine.Proofs.Param.Blame

/-! Setting fields on items. Each item is written on its own: its fields are brought to their types, and if all of them
can be, they are put on it one after another. What fails on an item leaves nothing of it behind but the failure. -/
namespace FlowEngine.Node

namespace SetField
variable {field : SetField} {fields : List SetField} {value : Json} {message : String} {dotted : Bool} {data : Keyed Json}

/-- A field has a name, and its value can be brought to its type. -/
def Gives (field : SetField) (value : Json) : Prop :=
  Text.isAllBlank field.name = false ∧ field.kind.convert field.value = .ok value

/-- A field without a name cannot be put on anything, and neither can one whose value cannot be brought to its type. -/
def Faulty (field : SetField) (message : String) : Prop :=
  Text.isAllBlank field.name = true ∧ message = "Field name cannot be empty" ∨
    Text.isAllBlank field.name = false ∧
      ∃ reason, field.kind.convert field.value = .error reason ∧ message = "Field '" ++ field.name ++ "': " ++ reason

/-- Puts a value that is of the type of a field where the name of the field says. -/
def place (dotted : Bool) (data : Keyed Json) (entry : SetField × Json) : Keyed Json :=
  if dotted then Json.putAtPath data entry.1.name entry.2 else data.put entry.1.name entry.2

def given (field : SetField) : Except String Json :=
  if Text.isAllBlank field.name then .error "Field name cannot be empty"
  else (field.kind.convert field.value).mapError fun reason => "Field '" ++ field.name ++ "': " ++ reason

private theorem putOn_eq : field.putOn dotted data = field.given.map fun value => place dotted data (field, value) := by
  rw [putOn, given]
  split
  · rfl
  · cases field.kind.convert field.value <;> rfl

private theorem given_eq_ok_iff : field.given = .ok value ↔ field.Gives value := by
  rw [given, Gives]
  cases Text.isAllBlank field.name <;> cases field.kind.convert field.value <;> simp [Except.mapError]

private theorem given_eq_error_iff : field.given = .error message ↔ field.Faulty message := by
  rw [given, Faulty]
  cases Text.isAllBlank field.name <;> cases field.kind.convert field.value <;> simp [Except.mapError, eq_comm]

/-- A field is faulty, and none before it is. -/
def FirstFault (fields : List SetField) (message : String) : Prop :=
  ∃ (place : Nat) (field : SetField), fields[place]? = some field ∧ field.Faulty message ∧
    ∀ earlier < place, ∀ other : SetField, fields[earlier]? = some other → ∃ value, other.Gives value

private theorem mapM_given_eq_ok_iff {values : List Json} :
    fields.mapM given = .ok values ↔ List.Forall₂ Gives fields values := by
  simp only [mapM_eq_ok_iff, given_eq_ok_iff]

private theorem mapM_given_eq_error_iff : fields.mapM given = .error message ↔ FirstFault fields message := by
  simp only [mapM_eq_error_iff, FirstFault, given_eq_ok_iff, given_eq_error_iff]

private theorem exists_faulty_iff : (∃ message, field.Faulty message) ↔
    Text.isAllBlank field.name = true ∨ ∃ reason, field.kind.convert field.value = .error reason := by
  constructor
  · rintro ⟨_, ⟨hblank, -⟩ | ⟨-, reason, hreason, -⟩⟩
    · exact .inl hblank
    · exact .inr ⟨reason, hreason⟩
  · intro h
    cases hblank : Text.isAllBlank field.name with
    | true => exact ⟨_, .inl ⟨hblank, rfl⟩⟩
    | false =>
      obtain ⟨reason, hreason⟩ := h.resolve_left (by simp [hblank])
      exact ⟨_, .inr ⟨hblank, reason, hreason, rfl⟩⟩

private theorem exists_firstFault_iff : (∃ message, FirstFault fields message) ↔ ∃ field ∈ fields,
    Text.isAllBlank field.name = true ∨ ∃ reason, field.kind.convert field.value = .error reason := by
  simp only [← exists_faulty_iff, ← mapM_given_eq_error_iff, ← given_eq_error_iff]
  rw [exists_eq_error_iff, exists_mapM_eq_ok_iff]
  simp only [exists_eq_error_iff, not_forall, exists_prop]

/-- Fields may be brought to their types first and put on the data afterwards. -/
private theorem foldlM_putOn_eq : fields.foldlM (fun data field => field.putOn dotted data) data =
    (fields.mapM given).map fun values => (fields.zip values).foldl (place dotted) data := by
  induction fields generalizing data with
  | nil => rfl
  | cons field fields ih =>
    rw [List.foldlM_cons, List.mapM_cons, putOn_eq]
    cases field.given with
    | error message => rfl
    | ok value =>
      refine ih.trans ?_
      cases fields.mapM given <;> rfl

end SetField

/-- An item with values put on it for the fields, one after another, or with nothing else. -/
def SetSettings.written (settings : SetSettings) (item : Item) (values : List Json) : Item where
  json := (settings.fields.zip values).foldl (SetField.place settings.dotNotation)
    (if settings.keepOnlySet then [] else item.json)
  binary := if settings.keepOnlySet then [] else item.binary
  error := none
  pairedItem := none

private theorem SetSettings.applyTo_eq {settings : SetSettings} {item : Item} :
    settings.applyTo item = (settings.fields.mapM SetField.given).map (settings.written item) := by
  rw [applyTo, SetField.foldlM_putOn_eq]
  cases settings.fields.mapM SetField.given <;> rfl

variable {context other : Context} {settings : SetSettings} {item out : Item} {index : Nat} {failure : Failure}
  {cause : Breakdown} {setback : Setback}

/-- The output item for an item has its fields. -/
def Written (context : Context) (item : Item) (index : Nat) (out : Item) : Prop :=
  ∃ settings values, context.settings SetSettings.read index = .ok settings ∧
    List.Forall₂ SetField.Gives settings.fields values ∧ out = (settings.written item values).pairedWith index

/-- The parameters of an item cannot be resolved or read, or one of its fields is faulty; then the first such field counts. -/
def Unwritten (context : Context) (index : Nat) (failure : Failure) : Prop :=
  context.settings SetSettings.read index = .error (.failed failure) ∨
    ∃ settings message, context.settings SetSettings.read index = .ok settings ∧
      SetField.FirstFault settings.fields message ∧ failure = context.failure message index

/-- The parameters of an item cannot be resolved or read, or one of its fields has no name or a value that cannot be brought
to its type. -/
def Unwritable (context : Context) (index : Nat) : Prop :=
  (∃ failure, context.settings SetSettings.read index = .error (.failed failure)) ∨
    ∃ settings, context.settings SetSettings.read index = .ok settings ∧ ∃ field ∈ settings.fields,
      Text.isAllBlank field.name = true ∨ ∃ reason, field.kind.convert field.value = .error reason

theorem setItem_eq_ok_iff : setItem context item index = .ok out ↔ Written context item index out := by
  rw [setItem, bind_eq_ok_iff, Written]
  refine exists_congr fun settings => ?_
  rw [exists_and_left, SetSettings.applyTo_eq]
  refine and_congr_right fun _ => ?_
  simp only [← SetField.mapM_given_eq_ok_iff]
  cases settings.fields.mapM SetField.given with
  | ok values => simp [Except.map, pure, Except.pure, eq_comm]
  | error message => simp [Except.map, Context.refuse, throw, throwThe, MonadExceptOf.throw]

theorem setItem_eq_failed_iff (item : Item) (index : Nat) (failure : Failure) :
    setItem context item index = .error (.failed failure) ↔ Unwritten context index failure := by
  rw [setItem, Unwritten]
  cases context.settings SetSettings.read index with
  | error setback => simp [bind, Except.bind]
  | ok settings =>
    simp only [← SetField.mapM_given_eq_error_iff]
    cases hgiven : settings.fields.mapM SetField.given with
    | ok values => simp [bind, Except.bind, SetSettings.applyTo_eq, hgiven, Except.map, pure, Except.pure]
    | error message =>
      simp [bind, Except.bind, SetSettings.applyTo_eq, hgiven, Except.map, Context.refuse, throw, throwThe,
        MonadExceptOf.throw, eq_comm]

/-- A field that is faulty does not break anything down. -/
theorem setItem_eq_broken_iff (item : Item) (index : Nat) (cause : Breakdown) :
    setItem context item index = .error (.broken cause) ↔ context.BreaksDown index cause := by
  rw [← Context.settings_eq_broken_iff SetSettings.read, setItem]
  cases context.settings SetSettings.read index with
  | error setback => simp [bind, Except.bind]
  | ok settings =>
    cases hgiven : settings.fields.mapM SetField.given <;>
      simp [bind, Except.bind, SetSettings.applyTo_eq, hgiven, Except.map, Context.refuse, throw, throwThe,
        MonadExceptOf.throw, pure, Except.pure]

/-- An unwritten item is what its failure is about. -/
private theorem Unwritten.itemIndex (h : Unwritten context index failure) : failure.itemIndex = some index := by
  rcases h with hsettings | ⟨_, _, -, -, rfl⟩
  · exact Context.itemIndex_of_settings hsettings
  · rfl

private theorem exists_unwritten_iff : (∃ failure, Unwritten context index failure) ↔ Unwritable context index := by
  simp only [Unwritten, Unwritable, ← SetField.exists_firstFault_iff, exists_or]
  refine or_congr_right ?_
  constructor
  · rintro ⟨_, settings, message, hsettings, hfault, -⟩
    exact ⟨settings, hsettings, message, hfault⟩
  · rintro ⟨settings, hsettings, message, hfault⟩
    exact ⟨_, settings, message, hsettings, hfault, rfl⟩

private theorem setItems_eq : setItems context =
    ((context.input 0).zipIdx.mapM (context.make id (setItem context)) >>= fun items => pure [items]) := rfl

theorem setItems_eq_ok_iff {output : Output} : setItems context = .ok output ↔
    ∃ items, (context.input 0).zipIdx.mapM (context.make id (setItem context)) = .ok items ∧ output = [items] := by
  rw [setItems_eq, bind_eq_ok_iff]
  simp only [pure, Except.pure, Except.ok.injEq, eq_comm]

theorem setItems_eq_error_iff : setItems context = .error setback ↔
    (context.input 0).zipIdx.mapM (context.make id (setItem context)) = .error setback := by
  rw [setItems_eq]
  cases (context.input 0).zipIdx.mapM (context.make id (setItem context)) <;> simp [bind, Except.bind, pure, Except.pure]

private theorem exists_setItems_eq_ok_iff : (∃ output, setItems context = .ok output) ↔
    ∀ index < (context.input 0).length, (∀ cause, ¬ context.BreaksDown index cause) ∧
      (context.node.continueOnFail = false → ¬ Unwritable context index) := by
  simp only [← exists_unwritten_iff, not_exists]
  rw [← exists_mapM_make_eq_ok_iff setItem_eq_failed_iff setItem_eq_broken_iff]
  simp only [setItems_eq_ok_iff]
  exact ⟨fun ⟨_, items, hitems, _⟩ => ⟨items, hitems⟩, fun ⟨items, hitems⟩ => ⟨_, items, hitems, rfl⟩⟩

private theorem Written.not_unwritable (h : Written context item index out) : ¬ Unwritable context index := by
  rw [← exists_unwritten_iff]
  rintro ⟨failure, hunwritten⟩
  cases (setItem_eq_ok_iff.mpr h).symm.trans ((setItem_eq_failed_iff _ _ _).mpr hunwritten)

/-- What becomes of an item of the input. -/
theorem of_setItems {items : Batch} (h : setItems context = .ok [items]) (hitem : (context.input 0)[index]? = some item) :
    ∃ out, items[index]? = some out ∧ out.pairedItem = some ⟨index, 0⟩ ∧
      (Written context item index out ∨ context.node.continueOnFail = true ∧
        ∃ failure, Unwritten context index failure ∧ out = errorItem context.node.name failure index) := by
  obtain ⟨_, hmade, hitems⟩ := setItems_eq_ok_iff.mp h
  obtain rfl := (List.cons.inj hitems).1
  obtain ⟨out, hthere, hout⟩ := (made_of_mapM hmade).2 index item hitem
  simp only [setItem_eq_ok_iff, setItem_eq_failed_iff] at hout
  refine ⟨out, hthere, ?_, hout⟩
  rcases hout with ⟨_, _, -, -, rfl⟩ | ⟨-, _, -, rfl⟩ <;> rfl

private theorem setItem_congr (hname : other.node.name = context.node.name)
    (hsettings : other.settings SetSettings.read index = context.settings SetSettings.read index) :
    setItem other item index = setItem context item index := by
  simp only [setItem, hsettings, Context.refuse, Context.failure, hname]

/-- Items are written one by one. Where the node comes to an output, that is one batch with an item for every item of the
input, at its place and linked to it. It stands for a failure just if the parameters of the item cannot be resolved or one
of its fields has no name or cannot be brought to its type, and the node goes on after failures; otherwise it is the item,
or an empty one, with the fields put on from left to right. What other items come to does not matter for it. The node comes
to an output unless an expression breaks down, or something fails on an item and the node stops. It fails just if it stops
and something fails on some item, before an expression breaks down; it fails as on the first such item, and the failure
names that item. -/
theorem every_item_is_written_on_its_own (context : Context) :
    (∀ output, setItems context = .ok output → ∃ items : Batch, output = [items] ∧
      items.length = (context.input 0).length ∧
      (∀ index item, (context.input 0)[index]? = some item → ∃ out, items[index]? = some out ∧
        out.pairedItem = some ⟨index, 0⟩ ∧ (out.error.isSome = true ↔ Unwritable context index) ∧
        (Unwritable context index → context.node.continueOnFail = true ∧
          ∃ failure, Unwritten context index failure ∧ out = errorItem context.node.name failure index) ∧
        (¬ Unwritable context index → ∃ settings values, context.settings SetSettings.read index = .ok settings ∧
          List.Forall₂ SetField.Gives settings.fields values ∧
          out.json = (settings.fields.zip values).foldl (SetField.place settings.dotNotation)
            (if settings.keepOnlySet then [] else item.json) ∧
          out.binary = if settings.keepOnlySet then [] else item.binary)) ∧
      ∀ other others, setItems other = .ok [others] → other.node.name = context.node.name → ∀ index,
        other.settings SetSettings.read index = context.settings SetSettings.read index →
        (other.input 0)[index]? = (context.input 0)[index]? → others[index]? = items[index]?) ∧
    ((∃ output, setItems context = .ok output) ↔ ∀ index < (context.input 0).length,
      (∀ cause, ¬ context.BreaksDown index cause) ∧ (context.node.continueOnFail = false → ¬ Unwritable context index)) ∧
    (context.node.continueOnFail = false → ((∃ failure, setItems context = .error (.failed failure)) ↔
      ∃ index < (context.input 0).length, Unwritable context index ∧
        ∀ earlier < index, ∀ cause, ¬ context.BreaksDown earlier cause)) ∧
    ∀ failure, setItems context = .error (.failed failure) → context.node.continueOnFail = false ∧
      ∃ index < (context.input 0).length, failure.itemIndex = some index ∧ Unwritten context index failure ∧
        ∀ earlier < index, ¬ Unwritable context earlier := by
  refine ⟨?_, exists_setItems_eq_ok_iff, ?_, ?_⟩
  · intro output houtput
    obtain ⟨items, hitems, rfl⟩ := setItems_eq_ok_iff.mp houtput
    refine ⟨items, rfl, (made_of_mapM hitems).1, ?_, ?_⟩
    · intro index item hitem
      obtain ⟨out, hthere, hpaired, hwritten | ⟨hcontinues, failure, hunwritten, rfl⟩⟩ := of_setItems houtput hitem
      · have hwritable := hwritten.not_unwritable
        obtain ⟨settings, values, hsettings, hvalues, rfl⟩ := hwritten
        exact ⟨_, hthere, hpaired, iff_of_false Bool.false_ne_true hwritable, fun h => absurd h hwritable,
          fun _ => ⟨settings, values, hsettings, hvalues, rfl, rfl⟩⟩
      · have hunwritable := exists_unwritten_iff.mp ⟨failure, hunwritten⟩
        exact ⟨_, hthere, hpaired, iff_of_true rfl hunwritable, fun _ => ⟨hcontinues, failure, hunwritten, rfl⟩,
          fun h => absurd hunwritable h⟩
    · intro other others hothers hname index hsettings hitem
      obtain ⟨_, hmade, hsame⟩ := setItems_eq_ok_iff.mp hothers
      obtain rfl := (List.cons.inj hsame).1
      exact getElem?_mapM_make_congr hitems hmade hname hitem fun _ => setItem_congr hname hsettings
  · intro hstops
    simp only [setItems_eq_error_iff, ← exists_unwritten_iff]
    exact exists_mapM_make_eq_failed_iff setItem_eq_failed_iff setItem_eq_broken_iff hstops
  · intro failure hfails
    rw [setItems_eq_error_iff, mapM_make_eq_failed_iff setItem_eq_failed_iff setItem_eq_broken_iff] at hfails
    obtain ⟨hstops, index, hindex, hunwritten, hbefore⟩ := hfails
    refine ⟨hstops, index, hindex, hunwritten.itemIndex, hunwritten, fun earlier hearlier => ?_⟩
    rw [← exists_unwritten_iff, not_exists]
    exact (hbefore earlier hearlier).1

def numberSetter (continueOnFail : Bool) (values : List String) : Context :=
  let field : Json := .mk [("name", .str "n"), ("type", .str "number"), ("value", .str "={{ $json.v }}")]
  .alone set { NodeDef.named "Set" "set" with continueOnFail, parameters := [("fields", .arr [field])] }
    (values.map fun value => Item.ofFields [("v", .str value)])

/-- Settings with one field that gives a text, by their parts. -/
theorem settings_of_one_text {read : Except Setback SetSettings} {name text : String} {kind : FieldKind}
    {keepOnlySet dotNotation : Bool} (h : (read.toOption.map fun settings =>
      (settings.fields.map fun field => (field.name, field.kind, field.value.str?), settings.keepOnlySet,
        settings.dotNotation)) = some ([(name, kind, some text)], keepOnlySet, dotNotation)) :
    read = .ok ⟨[⟨name, kind, .str text⟩], keepOnlySet, dotNotation⟩ := by
  cases read with
  | error _ => cases h
  | ok settings =>
    obtain ⟨_ | ⟨⟨_, _, value⟩, _ | _⟩, _, _⟩ := settings
    · cases h
    · cases value <;> simp_all [Except.toOption, Json.str?]
    · simp [Except.toOption] at h

theorem every_item_is_written_on_its_own_numberSetter :
    (∃ first second third, setItems (numberSetter true ["1", "x", "3"]) = .ok [[first, second, third]] ∧
      first.error.isSome = false ∧ second.error.isSome = true ∧ third.error.isSome = false ∧
      ∃ others, setItems (numberSetter true ["1", "2", "3"]) = .ok [others] ∧ others[2]? = some third) ∧
    ∃ failure, setItems (numberSetter false ["1", "x", "3"]) = .error (.failed failure) ∧ ∃ index < 3,
      failure.itemIndex = some index ∧ Unwritten (numberSetter false ["1", "x", "3"]) index failure ∧
      ∀ earlier < index, ¬ Unwritable (numberSetter false ["1", "x", "3"]) earlier := by
  constructor
  · have hone := every_item_is_written_on_its_own (numberSetter true ["1", "x", "3"])
    have hother := every_item_is_written_on_its_own (numberSetter true ["1", "2", "3"])
    obtain ⟨_, hitems, herrors⟩ : ∃ output, setItems (numberSetter true ["1", "x", "3"]) = .ok output ∧
        (output.map (·.map (·.error.isSome)) == [[false, true, false]]) = true := exists_eq_ok_of_any (by decide +kernel)
    obtain ⟨items, rfl, hlength, -, hisolated⟩ := hone.1 _ hitems
    obtain ⟨_, hothers, -⟩ : ∃ output, setItems (numberSetter true ["1", "2", "3"]) = .ok output ∧
        (output.length == 1) = true := exists_eq_ok_of_any (by decide +kernel)
    obtain ⟨others, rfl, -⟩ := hother.1 _ hothers
    obtain ⟨first, second, third, rfl⟩ := List.length_eq_three.mp hlength
    obtain ⟨hfirst, hrest⟩ := List.cons.inj (List.cons.inj (eq_of_beq herrors)).1
    obtain ⟨hsecond, hthird⟩ := List.cons.inj hrest
    refine ⟨first, second, third, hitems, hfirst, hsecond, (List.cons.inj hthird).1, others, hothers, ?_⟩
    have hthere : (numberSetter true ["1", "x", "3"]).settings SetSettings.read 2 =
        .ok ⟨[⟨"n", .number, .str "3"⟩], false, true⟩ := settings_of_one_text (by decide +kernel)
    have hthere' : (numberSetter true ["1", "2", "3"]).settings SetSettings.read 2 =
        .ok ⟨[⟨"n", .number, .str "3"⟩], false, true⟩ := settings_of_one_text (by decide +kernel)
    exact hisolated _ _ hothers rfl 2 (hthere'.trans hthere.symm) rfl
  · obtain ⟨failure, hfails⟩ : ∃ failure,
        setItems (numberSetter false ["1", "x", "3"]) = .error (.failed failure) := exists_eq_failed (by decide +kernel)
    exact ⟨failure, hfails, ((every_item_is_written_on_its_own _).2.2.2 failure hfails).2⟩

def blankSetter : Context :=
  let field : Json := .mk [("name", .str " "), ("value", .ofNat 1)]
  .alone set { NodeDef.named "Set" "set" with continueOnFail := true, parameters := [("fields", .arr [field])] } [default]

/-- An item may stand for a failure although its parameters are resolved and its fields are brought to their types. -/
theorem blank_name_is_refused : ¬ ∀ (context : Context) (items : Batch), setItems context = .ok [items] →
    ∀ index out, items[index]? = some out → (out.error.isSome = true ↔
      (∃ setback, context.settings SetSettings.read index = .error setback) ∨
        ∃ settings, context.settings SetSettings.read index = .ok settings ∧
          ∃ field ∈ settings.fields, ∃ reason, field.kind.convert field.value = .error reason) := by
  intro h
  obtain ⟨output, houtput, herrors⟩ : ∃ output, setItems blankSetter = .ok output ∧
      (output.map (·.map (·.error.isSome)) == [[true]]) = true := exists_eq_ok_of_any (by decide +kernel)
  obtain ⟨settings, hsettings, hconvert⟩ : ∃ settings, blankSetter.settings SetSettings.read 0 = .ok settings ∧
      (settings.fields.all fun field => (field.kind.convert field.value).toOption.isSome) = true :=
    exists_eq_ok_of_any (by decide +kernel)
  obtain ⟨items, hitems, rfl⟩ := setItems_eq_ok_iff.mp houtput
  obtain ⟨out, rfl⟩ := List.length_eq_one_iff.mp (made_of_mapM hitems).1
  have herror : out.error.isSome = true := (List.cons.inj (List.cons.inj (eq_of_beq herrors)).1).1
  rcases (h blankSetter [out] houtput 0 out rfl).mp herror with ⟨failure, hfails⟩ | ⟨_, hread, field, hfield, reason, hreason⟩
  · cases hsettings.symm.trans hfails
  · obtain rfl := Except.ok.inj (hsettings.symm.trans hread)
    have hgiven := List.all_eq_true.mp hconvert field hfield
    rw [hreason] at hgiven
    cases hgiven

end FlowEngine.Node
