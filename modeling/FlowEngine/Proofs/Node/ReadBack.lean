import FlowEngine.Proofs.Expr.Errors
import FlowEngine.Proofs.Json.Paths
import FlowEngine.Proofs.Node.Fields

/-! Fields that are put on an item, and expressions that look at it. The last field is found where it was put. That is
under its own name if no part of the name between two dots is empty; a write passes over empty parts, where a read looks
for a field without a name. -/
namespace FlowEngine

def Scope.LooksAt (scope : Scope) (item : Item) : Prop := scope.root? "$json" = some (.obj item.json)

/-- A scope that sees an item and nothing else. -/
def Scope.alone (item : Item) : Scope where
  root? := fun _ => some (.obj item.json)
  input := []
  output? := fun _ => none
  hasNode := fun _ => false
  previous := none
  index := 0

private theorem Scope.looksAt_alone (item : Item) : (alone item).LooksAt item := rfl

/-- Whatever is given a batch in a run looks at the items of the batch. -/
theorem RunView.looksAt_scope {view : RunView} {input : Batch} {index : Nat} {previous : Option String} {item : Item}
    (h : input[index]? = some item) : (view.scope input index previous).LooksAt item := by
  change some (Json.obj ((input[index]?.map (·.json)).getD [])) = _
  rw [h]
  rfl

namespace Expr

/-- Reads at a path in the item that is looked at: `$get($json, path)`. -/
def getPath (path : String) : Expr := .call (.ident "$get") [.ident "$json", .literal (.str path)]

private theorem run_getPath {scope : Scope} {item : Item} {path : String} {session : Session} (h : scope.LooksAt item) :
    ((evaluate scope (getPath path)).run session).1 = .ok (((Json.obj item.json).atPath? path).getD .null) := by
  have hjson : lookup scope [] "$json" = pure (.json (.obj item.json)) := by
    rw [Scope.LooksAt] at h
    simp [lookup, h]
  have hargs : evalAll scope [] 1 [.ident "$json", .literal (.str path)] = pure [.obj item.json, .str path] := by
    rw [evalAll, evalAll, evalAll, eval.eq_def]
    dsimp only
    rw [hjson, eval.eq_def]
    rfl
  have hcall : eval scope [] 0 (getPath path) = (do
      return .json (← callHelper "get" [.obj item.json, .str path] (.unknownFunction "$get"))) := by
    rw [getPath, eval.eq_def]
    change (do
      let values ← evalAll scope [] 1 [.ident "$json", .literal (.str path)]
      return Val.json (← callHelper "get" values (.unknownFunction "$get"))) = _
    rw [hargs]
    rfl
  rw [evaluate, hcall]
  rfl

end Expr

namespace Node
variable {context : Context} {settings : SetSettings} {field : SetField} {item out : Item} {index : Nat} {path : String}
  {value : Json}

/-- An expression that reads at a path of an item comes to a value, wherever the item is looked at. -/
def FoundAt (item : Item) (path : String) (value : Json) : Prop :=
  ∀ scope session, scope.LooksAt item → ((Expr.evaluate scope (Expr.getPath path)).run session).1 = .ok value

private theorem foundAt_iff : FoundAt item path value ↔ ((Json.obj item.json).atPath? path).getD .null = value := by
  constructor
  · intro h
    have hvalue := h (.alone item) .start (Scope.looksAt_alone item)
    rw [Expr.run_getPath (Scope.looksAt_alone item)] at hvalue
    exact Except.ok.inj hvalue
  · rintro rfl scope session hlooks
    exact Expr.run_getPath hlooks

private theorem exists_of_forall₂_concat {α β : Type} {R : α → β → Prop} {xs : List α} {x : α} {ys : List β}
    (h : List.Forall₂ R (xs ++ [x]) ys) : ∃ front y, List.Forall₂ R xs front ∧ R x y ∧ ys = front ++ [y] := by
  induction xs generalizing ys with
  | nil =>
    obtain ⟨y, rest, hy, hrest, rfl⟩ := List.forall₂_cons_left_iff.mp h
    cases hrest
    exact ⟨[], y, .nil, hy, rfl⟩
  | cons first xs ih =>
    obtain ⟨y, rest, hy, hrest, rfl⟩ := List.forall₂_cons_left_iff.mp h
    obtain ⟨front, last, hfront, hlast, rfl⟩ := ih hrest
    exact ⟨y :: front, last, .cons hy hfront, hlast, rfl⟩

/-- The last field is put on an item after all the others. -/
private theorem Written.last (h : Written context item index out)
    (hsettings : context.settings SetSettings.read index = .ok settings)
    (hdotted : settings.dotNotation = true) (hlast : settings.fields.getLast? = some field) :
    ∃ value, field.Gives value ∧ ∃ data, out.json = Json.putAtPath data field.name value := by
  obtain ⟨_, values, hread, hgives, rfl⟩ := h
  obtain rfl := Except.ok.inj (hsettings.symm.trans hread)
  obtain ⟨front, hfields⟩ := List.getLast?_eq_some_iff.mp hlast
  rw [hfields] at hgives
  obtain ⟨others, value, hothers, hvalue, rfl⟩ := exists_of_forall₂_concat hgives
  refine ⟨value, hvalue, (front.zip others).foldl (SetField.place true) (if settings.keepOnlySet then [] else item.json), ?_⟩
  change (settings.fields.zip (others ++ [value])).foldl (SetField.place settings.dotNotation) _ = _
  rw [hfields, List.zip_append hothers.length_eq, List.foldl_append, hdotted]
  rfl

/-- Where names of fields are paths, the value of the last field, brought to its type, is what `$get` comes to on the
output item at what is left of the name without its empty parts, if anything is. That is the name itself if no part of it
is empty. -/
theorem last_field_is_read_back (hout : setItem context item index = .ok out)
    (hsettings : context.settings SetSettings.read index = .ok settings) (hdotted : settings.dotNotation = true)
    (hlast : settings.fields.getLast? = some field) : ∃ value, field.kind.convert field.value = .ok value ∧
      ((∀ part ∈ Text.pathSegments field.name, part ≠ "") → FoundAt out field.name value) ∧
      ((∃ part ∈ Text.pathSegments field.name, part ≠ "") → FoundAt out (Text.tidyPath field.name) value) := by
  obtain ⟨value, hvalue, data, hdata⟩ := (setItem_eq_ok_iff.mp hout).last hsettings hdotted hlast
  have htidy (h : ∃ part ∈ Text.pathSegments field.name, part ≠ "") : FoundAt out (Text.tidyPath field.name) value := by
    rw [foundAt_iff, hdata, Json.atPath?_tidyPath h]
    rfl
  refine ⟨value, hvalue.2, fun hfull => ?_, htidy⟩
  obtain ⟨part, hpart⟩ := List.exists_mem_of_ne_nil _ (Text.pathSegments_ne_nil field.name)
  rw [← Text.tidyPath_of_full hfull]
  exact htidy ⟨part, hpart, hfull part hpart⟩

def textSetter (name text : String) : Context :=
  let field : Json := .mk [("name", .str name), ("value", .str text)]
  .alone set { NodeDef.named "Set" "set" with parameters := [("fields", .arr [field])] } [default]

private theorem setItem_textSetter {name text : String} (hname : Text.isAllBlank name = false)
    (hsettings : (textSetter name text).settings SetSettings.read 0 = .ok ⟨[⟨name, .string, .str text⟩], false, true⟩) :
    setItem (textSetter name text) default 0 =
      .ok ((Item.ofFields (Json.putAtPath [] name (.str text))).pairedWith 0) :=
  setItem_eq_ok_iff.mpr ⟨_, [.str text], hsettings, .cons ⟨hname, rfl⟩ .nil, rfl⟩

theorem last_field_is_read_back_user :
    (∃ out, setItem (textSetter "user.name" "Ann") default 0 = .ok out ∧ FoundAt out "user.name" (.str "Ann")) ∧
      ∃ out, setItem (textSetter "user..name" "Ann") default 0 = .ok out ∧ FoundAt out "user.name" (.str "Ann") := by
  constructor
  · have hsettings : (textSetter "user.name" "Ann").settings SetSettings.read 0 =
        .ok ⟨[⟨"user.name", .string, .str "Ann"⟩], false, true⟩ := settings_of_one_text (by decide +kernel)
    have hout := setItem_textSetter (by decide +kernel) hsettings
    have hlast : [(⟨"user.name", .string, .str "Ann"⟩ : SetField)].getLast? = some ⟨"user.name", .string, .str "Ann"⟩ := rfl
    obtain ⟨_, hvalue, hfound, -⟩ := last_field_is_read_back hout hsettings rfl hlast
    cases hvalue
    exact ⟨_, hout, hfound (by decide +kernel)⟩
  · have hsettings : (textSetter "user..name" "Ann").settings SetSettings.read 0 =
        .ok ⟨[⟨"user..name", .string, .str "Ann"⟩], false, true⟩ := settings_of_one_text (by decide +kernel)
    have hout := setItem_textSetter (by decide +kernel) hsettings
    have hlast : [(⟨"user..name", .string, .str "Ann"⟩ : SetField)].getLast? = some ⟨"user..name", .string, .str "Ann"⟩ := rfl
    obtain ⟨_, hvalue, -, hfound⟩ := last_field_is_read_back hout hsettings rfl hlast
    cases hvalue
    have hpath : Text.tidyPath "user..name" = "user.name" := by decide +kernel
    exact ⟨_, hout, hpath ▸ hfound (by decide +kernel)⟩

/-- A field with an empty part in its name need not be found under its name. -/
theorem trailing_dot_is_not_read_back : ¬ ∀ (context : Context) (item out : Item) (index : Nat) (settings : SetSettings)
    (field : SetField), setItem context item index = .ok out → context.settings SetSettings.read index = .ok settings →
      settings.dotNotation = true → settings.fields.getLast? = some field →
      ∃ value, field.kind.convert field.value = .ok value ∧ FoundAt out field.name value := by
  intro h
  have hsettings : (textSetter "a." "x").settings SetSettings.read 0 = .ok ⟨[⟨"a.", .string, .str "x"⟩], false, true⟩ :=
    settings_of_one_text (by decide +kernel)
  have hout := setItem_textSetter (by decide +kernel) hsettings
  have hlast : [(⟨"a.", .string, .str "x"⟩ : SetField)].getLast? = some ⟨"a.", .string, .str "x"⟩ := rfl
  obtain ⟨_, hvalue, hfound⟩ := h _ _ _ _ _ _ hout hsettings rfl hlast
  cases hvalue
  have hnone : (Json.obj (Json.putAtPath [] "a." (.str "x"))).atPath? "a." = none :=
    Json.atPath?_of_mem_empty (by decide +kernel) (by decide +kernel)
  rw [foundAt_iff] at hfound
  change ((Json.obj (Json.putAtPath [] "a." (.str "x"))).atPath? "a.").getD .null = .str "x" at hfound
  rw [hnone] at hfound
  cases hfound

end Node
end FlowEngine
