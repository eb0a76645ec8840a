import FlowEngine.Param.Resolve
import FlowEngine.Proofs.Keyed
import Mathlib.Logic.Relation

/-! What resolving a parameter does. A resolution that succeeds adds to the memo and never changes it, and
while a parameter is being resolved nothing else resolves it: conditions that lead back to their own parameter
end in a failure. -/
namespace FlowEngine

namespace Template.Resolve
variable {α β : Type} {x : Resolve α} {f : α → Resolve β} {a a' : α} {b : β} {session session' : Session}

theorem run_bind : (x >>= f).run session = match x.run session with
    | (.ok a, session') => (f a).run session'
    | (.error setback, session') => (.error setback, session') := by
  change (match x.run session with | (result, session') => ExceptT.bindCont f result session') = _
  cases x.run session with
  | mk result session' => cases result <;> rfl

theorem bind_eq_ok : (x >>= f).run session = (.ok b, session') ↔
    ∃ a session₁, x.run session = (.ok a, session₁) ∧ (f a).run session₁ = (.ok b, session') := by
  rw [run_bind]
  constructor
  · intro h
    match hx : x.run session with
    | (.ok a, session₁) => exact ⟨a, session₁, rfl, by rwa [hx] at h⟩
    | (.error setback, session₁) =>
      rw [hx] at h
      cases h
  · rintro ⟨a, session₁, hx, hf⟩
    rwa [hx]

theorem pure_eq_ok : (pure a : Resolve α).run session = (.ok a', session') ↔ a' = a ∧ session' = session := by
  change (Except.ok a, session) = _ ↔ _
  simp [eq_comm]

private theorem bind_pure_eq_ok {g : α → β} : (x >>= fun a => pure (g a)).run session = (.ok b, session') ↔
    ∃ a, x.run session = (.ok a, session') ∧ b = g a := by
  rw [bind_eq_ok]
  constructor
  · rintro ⟨a, session₁, hx, hpure⟩
    obtain ⟨rfl, rfl⟩ := pure_eq_ok.mp hpure
    exact ⟨a, hx, rfl⟩
  · rintro ⟨a, hx, rfl⟩
    exact ⟨a, session', hx, rfl⟩

end Template.Resolve

def Schema.siblings (schema : Schema) : List String := (schema.visibility.getD .always).referenced

namespace Parameters
open Template.Resolve

/-- The value of a declared parameter, if it counts. -/
def valueIf (parameters : Parameters) (scope : Scope) (schema : Schema) (siblings : Keyed Json) :
    Template.Resolve (Option Json) :=
  if (schema.visibility.getD .always).isVisible siblings then some <$> parameters.valueOf scope schema
  else pure none

/-- Resolves one more parameter, and puts its value to those that were found. -/
def lookUp (parameters : Parameters) (scope : Scope) (depth : Nat) (state : Keyed Json × Memo)
    (name : String) : Template.Resolve (Keyed Json × Memo) := do
  let (value, memo) ← parameters.resolveFrom scope depth state.2 name
  return (state.1.put name (value.getD .null), memo)

/-- Parameters are resolved one after another, and their values put to those that were found. -/
inductive LooksUp (parameters : Parameters) (scope : Scope) (depth : Nat) :
    List String → Keyed Json → Memo → Session → Keyed Json → Memo → Session → Prop where
  | nil {found : Keyed Json} {memo : Memo} {session : Session} :
      LooksUp parameters scope depth [] found memo session found memo session
  | cons {name : String} {names : List String} {value : Option Json} {found found' : Keyed Json}
      {memo memo₁ memo' : Memo} {session session₁ session' : Session} :
      (parameters.resolveFrom scope depth memo name).run session = (.ok (value, memo₁), session₁) →
      LooksUp parameters scope depth names (found.put name (value.getD .null)) memo₁ session₁
        found' memo' session' →
      LooksUp parameters scope depth (name :: names) found memo session found' memo' session'

/-- The three ways in which a parameter is resolved. -/
inductive Resolved (parameters : Parameters) (scope : Scope) :
    Nat → Memo → Session → String → Option Json → Memo → Session → Prop where
  | known {depth : Nat} {memo : Memo} {session : Session} {name : String} {value : Option Json} :
      memo.get? name = some value → Resolved parameters scope depth memo session name value memo session
  | undeclared {depth : Nat} {memo : Memo} {session session' : Session} {name : String}
      {value : Option Json} : memo.get? name = none → parameters.schema? name = none →
      (parameters.undeclared scope name).run session = (.ok value, session') →
      Resolved parameters scope depth memo session name value memo session'
  | declared {depth : Nat} {memo memo₁ : Memo} {session session₁ session' : Session} {name : String}
      {schema : Schema} {found : Keyed Json} {value : Option Json} : memo.get? name = none →
      parameters.schema? name = some schema →
      LooksUp parameters scope depth schema.siblings [] memo session found memo₁ session₁ →
      (parameters.valueIf scope schema found).run session₁ = (.ok value, session') →
      Resolved parameters scope (depth + 1) memo session name value (memo₁.put name value) session'

variable {parameters : Parameters} {scope : Scope} {depth : Nat} {name : String} {names : List String}
  {schema : Schema} {memo memo' : Memo} {session session' : Session} {value : Option Json}
  {found found' : Keyed Json}

def accept? (schema : Schema) (given : Json) : Option Json :=
  if schema.required && isBlank given then none else (schema.kind.coerce (schema.choices.map Choice.value) given).toOption

theorem valueOf_eq_ok {accepted : Json} :
    (parameters.valueOf scope schema).run session = (.ok accepted, session') ↔
      ∃ given, (Template.resolve scope ((parameters.configured.get? schema.name).getD schema.default)).run session =
        (.ok given, session') ∧ accept? schema given = some accepted := by
  rw [valueOf, bind_eq_ok]
  simp only [accept?]
  constructor
  · rintro ⟨given, session₁, hgiven, htaken⟩
    split at htaken
    · cases htaken
    · rename_i hgoes
      cases hcoerced : schema.kind.coerce (schema.choices.map Choice.value) given with
      | ok coerced =>
        rw [hcoerced] at htaken
        obtain ⟨rfl, rfl⟩ := pure_eq_ok.mp htaken
        exact ⟨given, hgiven, by rw [if_neg hgoes, hcoerced]; rfl⟩
      | error mismatch =>
        rw [hcoerced] at htaken
        cases htaken
  · rintro ⟨given, hgiven, haccepted⟩
    refine ⟨given, session', hgiven, ?_⟩
    split at haccepted
    · cases haccepted
    · rename_i hgoes
      rw [if_neg hgoes]
      cases hcoerced : schema.kind.coerce (schema.choices.map Choice.value) given with
      | ok coerced =>
        rw [hcoerced] at haccepted
        obtain rfl := Option.some.inj haccepted
        rfl
      | error mismatch =>
        rw [hcoerced] at haccepted
        cases haccepted

theorem valueIf_eq_ok : (parameters.valueIf scope schema found).run session = (.ok value, session') ↔
    if (schema.visibility.getD .always).isVisible found then
      ∃ accepted, (parameters.valueOf scope schema).run session = (.ok accepted, session') ∧ value = some accepted
    else value = none ∧ session' = session := by
  rw [valueIf]
  split
  · rw [map_eq_pure_bind, bind_pure_eq_ok]
  · exact pure_eq_ok

theorem undeclared_eq_ok : (parameters.undeclared scope name).run session = (.ok value, session') ↔
    match parameters.configured.get? name with
    | some raw => ∃ given, (Template.resolve scope raw).run session = (.ok given, session') ∧ value = some given
    | none => value = none ∧ session' = session := by
  rw [Parameters.undeclared]
  cases parameters.configured.get? name with
  | none => exact pure_eq_ok
  | some raw => exact bind_pure_eq_ok

private theorem foldlM_lookUp_eq_ok : (names.foldlM (parameters.lookUp scope depth) (found, memo)).run session =
    (.ok (found', memo'), session') ↔
      parameters.LooksUp scope depth names found memo session found' memo' session' := by
  induction names generalizing found memo session with
  | nil =>
    rw [List.foldlM_nil, pure_eq_ok]
    constructor
    · rintro ⟨h, rfl⟩
      obtain ⟨rfl, rfl⟩ := Prod.mk.inj h
      exact .nil
    · rintro ⟨⟩
      exact ⟨rfl, rfl⟩
  | cons name names ih =>
    rw [List.foldlM_cons, bind_eq_ok]
    constructor
    · rintro ⟨⟨found₁, memo₁⟩, session₁, hfirst, hrest⟩
      rw [lookUp, bind_eq_ok] at hfirst
      obtain ⟨⟨value, memo₂⟩, session₂, hvalue, hfirst⟩ := hfirst
      obtain ⟨hstate, rfl⟩ := pure_eq_ok.mp hfirst
      obtain ⟨rfl, rfl⟩ := Prod.mk.inj hstate
      exact .cons hvalue (ih.mp hrest)
    · rintro (_ | ⟨hvalue, hrest⟩)
      refine ⟨_, _, ?_, ih.mpr hrest⟩
      rw [lookUp, bind_eq_ok]
      exact ⟨_, _, hvalue, rfl⟩

theorem resolveFrom_declared (hmemo : memo.get? name = none) (hschema : parameters.schema? name = some schema) :
    parameters.resolveFrom scope (depth + 1) memo name =
      (schema.siblings.foldlM (parameters.lookUp scope depth) ([], memo) >>= fun (found, memo) => do
        let value ← parameters.valueIf scope schema found
        return (value, memo.put name value)) := by
  rw [resolveFrom.eq_def]
  simp only [hmemo, hschema]
  refine bind_congr fun (found, memo) => ?_
  rw [valueIf]
  split
  · simp only [map_eq_pure_bind, bind_assoc, pure_bind]
  · rw [pure_bind]

/-- The failure of a parameter whose conditions refer to one another too deeply. -/
def circular (parameters : Parameters) (name : String) : Setback :=
  .failed (.node parameters.node ("Parameter '" ++ name ++ "' has circular display options") (some parameters.item))

theorem run_resolveFrom_zero (hmemo : memo.get? name = none) (hschema : parameters.schema? name = some schema) :
    (parameters.resolveFrom scope 0 memo name).run session = (.error (parameters.circular name), session) := by
  rw [resolveFrom.eq_def]
  simp only [hmemo, hschema]
  rfl

theorem resolveFrom_known (hmemo : memo.get? name = some value) :
    parameters.resolveFrom scope depth memo name = pure (value, memo) := by
  rw [resolveFrom.eq_def]
  simp only [hmemo]

theorem resolveFrom_undeclared (hmemo : memo.get? name = none) (hschema : parameters.schema? name = none) :
    parameters.resolveFrom scope depth memo name = (do return (← parameters.undeclared scope name, memo)) := by
  rw [resolveFrom.eq_def]
  simp only [hmemo, hschema]

theorem resolveFrom_eq_ok : (parameters.resolveFrom scope depth memo name).run session =
    (.ok (value, memo'), session') ↔
      parameters.Resolved scope depth memo session name value memo' session' := by
  constructor
  · intro h
    cases hmemo : memo.get? name with
    | some known =>
      rw [resolveFrom_known hmemo, pure_eq_ok] at h
      obtain ⟨⟨⟩, rfl⟩ := h
      exact .known hmemo
    | none =>
      cases hschema : parameters.schema? name with
      | none =>
        rw [resolveFrom_undeclared hmemo hschema, bind_pure_eq_ok] at h
        obtain ⟨given, hgiven, ⟨⟩⟩ := h
        exact .undeclared hmemo hschema hgiven
      | some schema =>
        cases depth with
        | zero =>
          rw [run_resolveFrom_zero hmemo hschema] at h
          cases h
        | succ depth =>
          rw [resolveFrom_declared hmemo hschema, bind_eq_ok] at h
          obtain ⟨⟨found, memo₁⟩, session₁, hfound, h⟩ := h
          obtain ⟨decided, session₂, hdecided, h⟩ := bind_eq_ok.mp h
          obtain ⟨⟨⟩, rfl⟩ := pure_eq_ok.mp h
          exact .declared hmemo hschema (foldlM_lookUp_eq_ok.mp hfound) hdecided
  · intro h
    cases h with
    | known hmemo => rw [resolveFrom_known hmemo]; rfl
    | undeclared hmemo hschema hgiven =>
      rw [resolveFrom_undeclared hmemo hschema, bind_pure_eq_ok]
      exact ⟨_, hgiven, rfl⟩
    | declared hmemo hschema hfound hdecided =>
      rw [resolveFrom_declared hmemo hschema, bind_eq_ok]
      refine ⟨_, _, foldlM_lookUp_eq_ok.mpr hfound, bind_eq_ok.mpr ⟨_, _, hdecided, rfl⟩⟩

/-- What holds of the three ways to resolve a parameter, and is handed on along the parameters that its conditions
look at, holds of all resolutions. -/
theorem resolution_induction {P : Nat → Memo → Session → String → Option Json → Memo → Session → Prop}
    {Q : Nat → List String → Keyed Json → Memo → Session → Keyed Json → Memo → Session → Prop}
    (known : ∀ {depth memo session name value}, Keyed.get? memo name = some value →
      P depth memo session name value memo session)
    (undeclared : ∀ {depth memo session name value session'}, Keyed.get? memo name = none →
      parameters.schema? name = none →
      (parameters.undeclared scope name).run session = (.ok value, session') →
      P depth memo session name value memo session')
    (declared : ∀ {depth memo memo₁ session session₁ session' name schema found value},
      Keyed.get? memo name = none → parameters.schema? name = some schema →
      parameters.LooksUp scope depth schema.siblings [] memo session found memo₁ session₁ →
      Q depth schema.siblings [] memo session found memo₁ session₁ →
      (parameters.valueIf scope schema found).run session₁ = (.ok value, session') →
      P (depth + 1) memo session name value (Keyed.put memo₁ name value) session')
    (nil : ∀ {depth found memo session}, Q depth [] found memo session found memo session)
    (cons : ∀ {depth name names value found found' memo memo₁ memo' session session₁ session'},
      parameters.Resolved scope depth memo session name value memo₁ session₁ →
      P depth memo session name value memo₁ session₁ →
      parameters.LooksUp scope depth names (Keyed.put found name (value.getD .null)) memo₁ session₁
        found' memo' session' →
      Q depth names (Keyed.put found name (value.getD .null)) memo₁ session₁ found' memo' session' →
      Q depth (name :: names) found memo session found' memo' session')
    (depth : Nat) :
    (∀ {memo session name value memo' session'},
      parameters.Resolved scope depth memo session name value memo' session' →
      P depth memo session name value memo' session') ∧
    ∀ {names found memo session found' memo' session'},
      parameters.LooksUp scope depth names found memo session found' memo' session' →
      Q depth names found memo session found' memo' session' := by
  -- Along a list each name is resolved at the depth of the list, so the second part rests on the first one.
  have along (depth : Nat) (step : ∀ {memo session name value memo' session'},
      parameters.Resolved scope depth memo session name value memo' session' →
      P depth memo session name value memo' session') {names found memo session found' memo' session'}
      (h : parameters.LooksUp scope depth names found memo session found' memo' session') :
      Q depth names found memo session found' memo' session' := by
    induction h with
    | nil => exact nil
    | cons hfirst hrest ih =>
      have hfirst := resolveFrom_eq_ok.mp hfirst
      exact cons hfirst (step hfirst) hrest ih
  induction depth with
  | zero =>
    have step {memo session name value memo' session'}
        (h : parameters.Resolved scope 0 memo session name value memo' session') :
        P 0 memo session name value memo' session' := by
      cases h with
      | known hknown => exact known hknown
      | undeclared hnone hschema hgiven => exact undeclared hnone hschema hgiven
    exact ⟨step, along 0 step⟩
  | succ depth ih =>
    have step {memo session name value memo' session'}
        (h : parameters.Resolved scope (depth + 1) memo session name value memo' session') :
        P (depth + 1) memo session name value memo' session' := by
      cases h with
      | known hknown => exact known hknown
      | undeclared hnone hschema hgiven => exact undeclared hnone hschema hgiven
      | declared hnone hschema hfound hvalue => exact declared hnone hschema hfound (ih.2 hfound) hvalue
    exact ⟨step, along (depth + 1) step⟩

def LooksAt (parameters : Parameters) (name other : String) : Prop :=
  ∃ schema, parameters.schema? name = some schema ∧ other ∈ schema.siblings

def Memo.Keeps (memo memo' : Memo) : Prop :=
  ∀ name value, Keyed.get? memo name = some value → Keyed.get? memo' name = some value

def Founded (parameters : Parameters) (name : String) : Prop :=
  Acc (fun other name => parameters.LooksAt name other) name

def Memo.Founded (parameters : Parameters) (memo : Memo) : Prop :=
  ∀ name value, Keyed.get? memo name = some value →
    (parameters.schema? name).isSome = true ∧ parameters.Founded name

theorem Memo.founded_nil : Memo.Founded parameters [] := by
  intro _ _ hknown
  cases hknown

private theorem founded_of_undeclared (hschema : parameters.schema? name = none) : parameters.Founded name := by
  refine .intro name fun other hlooks => ?_
  obtain ⟨schema, hsome, -⟩ := hlooks
  rw [hschema] at hsome
  cases hsome

private theorem not_leads_back (h : parameters.Founded name) : ¬ Relation.TransGen parameters.LooksAt name name := by
  induction h with
  | intro name _ ih =>
    intro hcycle
    obtain ⟨other, hlooks, hleads⟩ := Relation.TransGen.head'_iff.mp hcycle
    exact ih other hlooks (.tail' hleads hlooks)

/-- What resolving some parameters does to the memo: it keeps what is there, and adds founded ones on which they
depend. -/
structure Grows (parameters : Parameters) (names : List String) (memo memo' : Memo) : Prop where
  keeps : memo.Keeps memo'
  founded : ∀ name ∈ names, parameters.Founded name
  added_founded : memo'.Founded parameters
  added : ∀ other value, memo'.get? other = some value → memo.get? other = none →
    ∃ name ∈ names, Relation.ReflTransGen parameters.LooksAt name other

namespace Grows
variable {memo₁ : Memo}

private theorem same (hmemo : memo.Founded parameters) (hfounded : ∀ name ∈ names, parameters.Founded name) :
    parameters.Grows names memo memo := by
  refine ⟨fun _ _ h => h, hfounded, hmemo, fun other value hsome hnone => ?_⟩
  rw [hsome] at hnone
  cases hnone

private theorem cons (first : parameters.Grows [name] memo memo₁) (rest : parameters.Grows names memo₁ memo') :
    parameters.Grows (name :: names) memo memo' := by
  refine ⟨fun other value hold => rest.keeps other value (first.keeps other value hold), ?_,
    rest.added_founded, ?_⟩
  · intro other hother
    rcases List.mem_cons.mp hother with rfl | hother
    · exact first.founded _ (List.mem_singleton_self _)
    · exact rest.founded other hother
  · intro other value hsome hnone
    cases hmid : memo₁.get? other with
    | none =>
      obtain ⟨sibling, hsibling, hleads⟩ := rest.added other value hsome hmid
      exact ⟨sibling, List.mem_cons_of_mem _ hsibling, hleads⟩
    | some known =>
      obtain ⟨sibling, hsibling, hleads⟩ := first.added other known hmid hnone
      exact ⟨sibling, List.mem_cons.mpr (.inl (List.mem_singleton.mp hsibling)), hleads⟩

section
variable (hgrows : parameters.Grows schema.siblings memo memo₁) (hschema : parameters.schema? name = some schema)
  (hnone : memo.get? name = none)
include hgrows hschema

private theorem founded_of_siblings : parameters.Founded name := by
  refine .intro name fun other hlooks => ?_
  obtain ⟨_, hsome, hother⟩ := hlooks
  obtain rfl := Option.some.inj (hschema.symm.trans hsome)
  exact hgrows.founded other hother

include hnone

/-- While a parameter is being resolved, nothing else resolves it. -/
private theorem fresh : memo₁.get? name = none := by
  cases hsome : memo₁.get? name with
  | none => rfl
  | some value =>
    obtain ⟨sibling, hsibling, hleads⟩ := hgrows.added name value hsome hnone
    exact absurd (.head' ⟨schema, hschema, hsibling⟩ hleads)
      (not_leads_back (hgrows.founded_of_siblings hschema))

theorem put_keeps : memo₁.Keeps (memo₁.put name value) := by
  intro other known hold
  rw [Keyed.get?_put, if_neg, hold]
  rintro rfl
  rw [hgrows.fresh hschema hnone] at hold
  cases hold

/-- A parameter is put to the memo behind those that its conditions look at. -/
private theorem put : parameters.Grows [name] memo (memo₁.put name value) := by
  have hfounded := hgrows.founded_of_siblings hschema
  refine ⟨fun other known hold => ?_, fun other hother => ?_, fun other known hsome => ?_,
    fun other known hsome hnone => ⟨name, List.mem_singleton_self _, ?_⟩⟩
  · exact hgrows.put_keeps hschema hnone other known (hgrows.keeps other known hold)
  · rwa [List.mem_singleton.mp hother]
  · rw [Keyed.get?_put] at hsome
    split at hsome
    · rename_i heq
      exact heq ▸ ⟨Option.isSome_of_eq_some hschema, hfounded⟩
    · exact hgrows.added_founded other known hsome
  · rw [Keyed.get?_put] at hsome
    split at hsome
    · rename_i heq
      exact heq ▸ .refl
    · obtain ⟨sibling, hsibling, hleads⟩ := hgrows.added other known hsome hnone
      exact .head ⟨schema, hschema, hsibling⟩ hleads

end

end Grows

private theorem grows_of_resolution (depth : Nat) :
    (∀ {memo session name value memo' session'},
      parameters.Resolved scope depth memo session name value memo' session' → memo.Founded parameters →
      parameters.Grows [name] memo memo') ∧
    ∀ {names found memo session found' memo' session'},
      parameters.LooksUp scope depth names found memo session found' memo' session' →
      memo.Founded parameters → parameters.Grows names memo memo' := by
  refine resolution_induction
    (P := fun _ memo _ name _ memo' _ => memo.Founded parameters → parameters.Grows [name] memo memo')
    (Q := fun _ names _ memo _ _ memo' _ => memo.Founded parameters → parameters.Grows names memo memo')
    ?known ?undeclared ?declared ?nil ?cons depth
  case known =>
    intro _ _ _ name value hknown hmemo
    refine .same hmemo fun other hother => ?_
    exact List.mem_singleton.mp hother ▸ (hmemo name value hknown).2
  case undeclared =>
    intro _ _ _ name _ _ _ hschema _ hmemo
    refine .same hmemo fun other hother => ?_
    exact List.mem_singleton.mp hother ▸ founded_of_undeclared hschema
  case declared =>
    intro _ _ _ _ _ _ _ _ _ _ hnone hschema _ hgrows _ hmemo
    exact (hgrows hmemo).put hschema hnone
  case nil =>
    intro _ _ _ _ hmemo
    exact .same hmemo fun other hother => absurd hother List.not_mem_nil
  case cons =>
    intro _ _ _ _ _ _ _ _ _ _ _ _ _ hfirst _ hrest hmemo
    exact (hfirst hmemo).cons (hrest (hfirst hmemo).added_founded)

theorem Resolved.grows (h : parameters.Resolved scope depth memo session name value memo' session') :
    memo.Founded parameters → parameters.Grows [name] memo memo' :=
  (grows_of_resolution depth).1 h

theorem LooksUp.grows (h : parameters.LooksUp scope depth names found memo session found' memo' session') :
    memo.Founded parameters → parameters.Grows names memo memo' :=
  (grows_of_resolution depth).2 h

theorem schema_name (hschema : parameters.schema? name = some schema) : schema.name = name := by
  have hfound := List.find?_some hschema
  exact beq_iff_eq.mp hfound

theorem schema?_isSome_iff : (parameters.schema? name).isSome = true ↔ name ∈ parameters.schemas.map (·.name) := by
  rw [schema?, List.find?_isSome, List.mem_map]
  simp only [beq_iff_eq]

theorem schema?_eq_none_iff : parameters.schema? name = none ↔ name ∉ parameters.schemas.map (·.name) := by
  rw [← schema?_isSome_iff, Option.not_isSome_iff_eq_none]

/-- The memo knows a declared parameter once it is resolved. -/
theorem Resolved.get?_memo (h : parameters.Resolved scope depth memo session name value memo' session')
    (hdeclared : (parameters.schema? name).isSome = true) : memo'.get? name = some value := by
  cases h with
  | known hknown => exact hknown
  | undeclared _ hschema _ =>
    rw [hschema] at hdeclared
    cases hdeclared
  | declared => rw [Keyed.get?_put, if_pos rfl]

/-! All declared parameters in their order. -/

/-- The values that were found, with that of a parameter if it counts. -/
def withValue (found : Keyed Json) (name : String) : Option Json → Keyed Json
  | some value => found.put name value
  | none => found

theorem get?_withValue {other : String} : (withValue found name value).get? other =
    if name = other then value.or (found.get? other) else found.get? other := by
  cases value with
  | none => simp [withValue]
  | some value => simp [withValue, Keyed.get?_put]

theorem resolveDeclared_cons {schemas : List Schema} :
    parameters.resolveDeclared scope (schema :: schemas) found memo =
      (parameters.resolveFrom scope conditionDepth memo schema.name >>= fun (value, memo) =>
        parameters.resolveDeclared scope schemas (withValue found schema.name value) memo) := by
  rw [resolveDeclared]
  refine bind_congr fun (value, memo) => ?_
  cases value <;> rfl

/-- Declared parameters are resolved one after another, and the values of those that count are collected. -/
inductive Collects (parameters : Parameters) (scope : Scope) :
    List Schema → Keyed Json → Memo → Session → Keyed Json → Memo → Session → Prop where
  | nil {found : Keyed Json} {memo : Memo} {session : Session} :
      Collects parameters scope [] found memo session found memo session
  | cons {schema : Schema} {schemas : List Schema} {value : Option Json} {found found' : Keyed Json}
      {memo memo₁ memo' : Memo} {session session₁ session' : Session} :
      parameters.Resolved scope conditionDepth memo session schema.name value memo₁ session₁ →
      Collects parameters scope schemas (withValue found schema.name value) memo₁ session₁
        found' memo' session' →
      Collects parameters scope (schema :: schemas) found memo session found' memo' session'

variable {schemas : List Schema}

theorem resolveDeclared_eq_ok :
    (parameters.resolveDeclared scope schemas found memo).run session = (.ok found', session') ↔
      ∃ memo', parameters.Collects scope schemas found memo session found' memo' session' := by
  induction schemas generalizing found memo session with
  | nil =>
    rw [resolveDeclared, pure_eq_ok]
    constructor
    · rintro ⟨rfl, rfl⟩
      exact ⟨memo, .nil⟩
    · rintro ⟨_, ⟨⟩⟩
      exact ⟨rfl, rfl⟩
  | cons schema schemas ih =>
    rw [resolveDeclared_cons, bind_eq_ok]
    constructor
    · rintro ⟨⟨value, memo₁⟩, session₁, hfirst, hrest⟩
      obtain ⟨memo', hrest⟩ := ih.mp hrest
      exact ⟨memo', .cons (resolveFrom_eq_ok.mp hfirst) hrest⟩
    · rintro ⟨memo', _ | ⟨hfirst, hrest⟩⟩
      exact ⟨_, _, resolveFrom_eq_ok.mpr hfirst, ih.mpr ⟨memo', hrest⟩⟩

theorem Collects.keeps (h : parameters.Collects scope schemas found memo session found' memo' session')
    (hmemo : memo.Founded parameters) : memo.Keeps memo' := by
  induction h with
  | nil => exact fun _ _ h => h
  | cons hfirst _ ih =>
    have hgrows := hfirst.grows hmemo
    exact fun name value hold => ih hgrows.added_founded name value (hgrows.keeps name value hold)

theorem Collects.found_of_none (h : parameters.Collects scope schemas found memo session found' memo' session')
    (hnone : found'.get? name = none) : found.get? name = none := by
  induction h with
  | nil => exact hnone
  | cons _ _ ih =>
    have hlater := ih hnone
    rw [get?_withValue] at hlater
    split at hlater
    · exact (Option.or_eq_none_iff.mp hlater).2
    · exact hlater

theorem Collects.founded (h : parameters.Collects scope schemas found memo session found' memo' session')
    (hmemo : memo.Founded parameters) : memo'.Founded parameters := by
  induction h with
  | nil => exact hmemo
  | cons hfirst _ ih => exact ih (hfirst.grows hmemo).added_founded

theorem Collects.get?_of_not_mem
    (h : parameters.Collects scope schemas found memo session found' memo' session')
    (hnot : name ∉ schemas.map (·.name)) : found'.get? name = found.get? name := by
  induction h with
  | nil => rfl
  | cons _ _ ih =>
    rw [ih (List.not_mem_of_not_mem_cons hnot), get?_withValue, if_neg (List.ne_of_not_mem_cons hnot).symm]

/-- In the end the memo knows every declared parameter, by the value that was collected. -/
theorem Collects.get?_memo (h : parameters.Collects scope schemas found memo session found' memo' session')
    (hmemo : memo.Founded parameters) (hdistinct : (schemas.map (·.name)).Nodup)
    (hdeclared : ∀ other ∈ schemas.map (·.name), (parameters.schema? other).isSome = true)
    (hempty : ∀ other ∈ schemas.map (·.name), found.get? other = none) (hmem : name ∈ schemas.map (·.name)) :
    memo'.get? name = some (found'.get? name) := by
  induction h with
  | nil => cases hmem
  | @cons schema schemas value found _ _ _ _ _ _ _ hfirst hrest ih =>
    obtain ⟨hnot, hdistinct⟩ := List.nodup_cons.mp hdistinct
    have hmid := (hfirst.grows hmemo).added_founded
    rcases List.mem_cons.mp hmem with rfl | hmem
    · have hkept := hfirst.get?_memo (hdeclared schema.name List.mem_cons_self)
      rw [hrest.keeps hmid _ _ hkept, hrest.get?_of_not_mem hnot, get?_withValue, if_pos rfl,
        hempty schema.name List.mem_cons_self, Option.or_none]
    · refine ih hmid hdistinct (fun other hother => hdeclared other (List.mem_cons_of_mem _ hother)) ?_ hmem
      intro other hother
      have hne : schema.name ≠ other := by
        rintro rfl
        exact hnot hother
      rw [get?_withValue, if_neg hne]
      exact hempty other (List.mem_cons_of_mem _ hother)

/-! The configured parameters that are not declared. -/

def others (parameters : Parameters) : Keyed Json :=
  parameters.configured.filter (fun entry => (parameters.schema? entry.1).isNone)

def passOn (scope : Scope) (found : Keyed Json) (entry : String × Json) : Template.Resolve (Keyed Json) := do
  return found.put entry.1 (← Template.resolve scope entry.2)

theorem not_mem_others (hname : (parameters.schema? name).isSome = true) :
    name ∉ parameters.others.map (·.1) := by
  intro hmem
  obtain ⟨entry, hentry, rfl⟩ := List.mem_map.mp hmem
  have hnone := (List.mem_filter.mp hentry).2
  rw [Option.isNone_iff_eq_none.mp hnone] at hname
  cases hname

theorem passOn_eq_ok {entry : String × Json} :
    (passOn scope found entry).run session = (.ok found', session') ↔
      ∃ given, (Template.resolve scope entry.2).run session = (.ok given, session') ∧
        found' = found.put entry.1 given := bind_pure_eq_ok

theorem get?_of_passOn {entries : List (String × Json)} {values : Keyed Json}
    (h : (entries.foldlM (passOn scope) found).run session = (.ok values, session'))
    (hnot : name ∉ entries.map (·.1)) : values.get? name = found.get? name := by
  induction entries generalizing found session with
  | nil => rw [(pure_eq_ok.mp h).1]
  | cons entry entries ih =>
    rw [List.foldlM_cons, bind_eq_ok] at h
    obtain ⟨found₁, session₁, hfirst, hrest⟩ := h
    obtain ⟨given, -, rfl⟩ := passOn_eq_ok.mp hfirst
    rw [ih hrest (List.not_mem_of_not_mem_cons hnot), Keyed.get?_put, if_neg (List.ne_of_not_mem_cons hnot).symm]

theorem resolveAll_eq_ok {values : Keyed Json} :
    (parameters.resolveAll scope).run session = (.ok values, session') ↔
      ∃ found session₁,
        (parameters.resolveDeclared scope parameters.schemas [] []).run session = (.ok found, session₁) ∧
        (parameters.others.foldlM (passOn scope) found).run session₁ = (.ok values, session') := by
  rw [resolveAll, bind_eq_ok]
  rfl

end Parameters
end FlowEngine
