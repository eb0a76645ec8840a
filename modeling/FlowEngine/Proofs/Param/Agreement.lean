import FlowEngine.Proofs.Param.Hidden

/-! One parameter alone and all parameters together. The values that all parameters come to together solve the
conditions, so a parameter on its own comes to the same value, and so do all of them in another order. Only the
limit on the depth of conditions can make a difference, and values that depend on what was evaluated before. -/
namespace FlowEngine.Parameters
open Template.Resolve

/-- The sessions that come up while values are resolved in a scope. -/
inductive Arises (scope : Scope) : Session → Prop where
  | start : Arises scope .start
  | resolve {session : Session} (raw : Json) : Arises scope session →
      Arises scope ((Template.resolve scope raw).run session).2

/-- A value comes to the same, whatever was evaluated before it. -/
def Steady (scope : Scope) (raw : Json) : Prop :=
  ∀ session, Arises scope session →
    ((Template.resolve scope raw).run session).1 = ((Template.resolve scope raw).run .start).1

def raw? (parameters : Parameters) (name : String) : Option Json :=
  (parameters.configured.get? name).or ((parameters.schema? name).map (·.default))

/-- The conditions of a parameter refer to one another over no more than so many levels. -/
def nestsWithin (parameters : Parameters) : Nat → String → Bool
  | 0, name => (parameters.schema? name).isNone
  | depth + 1, name => (parameters.schema? name).all (fun schema =>
      schema.siblings.all (parameters.nestsWithin depth))

def siblingValues (values : String → Option Json) (names : List String) (found : Keyed Json) : Keyed Json :=
  names.foldl (fun found name => found.put name ((values name).getD .null)) found

/-- The values of the parameters that are not declared come out whenever they are resolved. -/
def Passes (parameters : Parameters) (scope : Scope) (values : String → Option Json) : Prop :=
  ∀ name session, parameters.schema? name = none → Arises scope session →
    ∃ session', Arises scope session' ∧
      (parameters.undeclared scope name).run session = (.ok (values name), session')

/-- The values are what the conditions and the configured values make of them, whenever they are resolved. -/
structure Solves (parameters : Parameters) (scope : Scope) (values : String → Option Json) : Prop where
  declared : ∀ name schema session, parameters.schema? name = some schema → Arises scope session →
    ∃ session', Arises scope session' ∧
      (parameters.valueIf scope schema (siblingValues values schema.siblings [])).run session =
        (.ok (values name), session')
  passes : parameters.Passes scope values

/-- The computation succeeds as it should, or else it goes too deep. -/
def Comes {α : Type} (parameters : Parameters) (x : Template.Resolve α) (session : Session)
    (good : α → Session → Prop) (deep : Prop) : Prop :=
  (∃ a session', x.run session = (.ok a, session') ∧ good a session') ∨
    (deep ∧ ∃ other session', x.run session = (.error (parameters.circular other), session'))

section
variable {α β : Type} {parameters : Parameters} {x : Template.Resolve α} {f : α → Template.Resolve β}
  {session : Session} {good : α → Session → Prop} {good' : β → Session → Prop} {deep deep' : Prop}

private theorem Comes.bind (hx : parameters.Comes x session good deep) (hdeep : deep → deep')
    (hf : ∀ a session', good a session' → parameters.Comes (f a) session' good' deep') :
    parameters.Comes (x >>= f) session good' deep' := by
  obtain ⟨a, session', hx, hgood⟩ | ⟨htoo, other, session', hx⟩ := hx
  · rw [Comes, run_bind, hx]
    exact hf a session' hgood
  · refine .inr ⟨hdeep htoo, other, session', ?_⟩
    rw [run_bind, hx]

private theorem Comes.after {a : α} {session' : Session} (hx : x.run session = (.ok a, session'))
    (hf : parameters.Comes (f a) session' good' deep) : parameters.Comes (x >>= f) session good' deep := by
  rw [Comes, run_bind, hx]
  exact hf

private theorem Comes.mono {good' : α → Session → Prop} (hx : parameters.Comes x session good deep)
    (hdeep : deep → deep')
    (hgood : ∀ a session', good a session' → good' a session') : parameters.Comes x session good' deep' := by
  obtain ⟨a, session', hx, h⟩ | ⟨htoo, hx⟩ := hx
  · exact .inl ⟨a, session', hx, hgood a session' h⟩
  · exact .inr ⟨hdeep htoo, hx⟩

private theorem Comes.pure {a : α} (h : good a session) : parameters.Comes (pure a) session good deep :=
  .inl ⟨a, session, rfl, h⟩

end

variable {parameters : Parameters} {scope : Scope} {depth : Nat} {name : String} {names : List String}
  {schema : Schema} {schemas : List Schema} {memo memo' : Memo} {session session' : Session}
  {value : Option Json} {found found' : Keyed Json} {values : String → Option Json}

def Memo.Agrees (memo : Memo) (values : String → Option Json) : Prop :=
  ∀ name value, Keyed.get? memo name = some value → values name = value

private theorem Memo.Agrees.put (h : memo.Agrees values) : Memo.Agrees (Keyed.put memo name (values name)) values := by
  intro other known hsome
  rw [Keyed.get?_put] at hsome
  split at hsome
  · rename_i heq
    exact heq ▸ Option.some.inj hsome
  · exact h other known hsome

/-- A parameter comes to its value, by whatever the memo knows that is right. -/
def Comes.ToValues (parameters : Parameters) (scope : Scope) (values : String → Option Json) (depth : Nat) : Prop :=
  ∀ memo session name, Memo.Agrees memo values → Arises scope session →
    parameters.Comes (parameters.resolveFrom scope depth memo name) session
      (fun result session' => result.1 = values name ∧ result.2.Agrees values ∧ Arises scope session')
      (parameters.nestsWithin depth name = false)

private theorem comes_lookUps (hstep : Comes.ToValues parameters scope values depth) (hmemo : memo.Agrees values)
    (hsession : Arises scope session) :
    parameters.Comes (names.foldlM (parameters.lookUp scope depth) (found, memo)) session
      (fun result session' => result.1 = siblingValues values names found ∧ result.2.Agrees values ∧
        Arises scope session')
      (∃ name ∈ names, parameters.nestsWithin depth name = false) := by
  induction names generalizing found memo session with
  | nil => exact .pure ⟨rfl, hmemo, hsession⟩
  | cons name names ih =>
    rw [List.foldlM_cons, lookUp, bind_assoc]
    refine (hstep memo session name hmemo hsession).bind (fun h => ⟨name, List.mem_cons_self, h⟩) ?_
    rintro ⟨value, memo₁⟩ session₁ ⟨rfl, hmemo₁, hsession₁⟩
    rw [pure_bind]
    refine (ih hmemo₁ hsession₁).mono ?_ fun _ _ h => h
    rintro ⟨other, hother, hdeep⟩
    exact ⟨other, List.mem_cons_of_mem _ hother, hdeep⟩

private theorem Solves.comes_step (hsolves : parameters.Solves scope values)
    (hstep : ∀ smaller, depth = smaller + 1 → Comes.ToValues parameters scope values smaller) :
    Comes.ToValues parameters scope values depth := by
  intro memo session name hmemo hsession
  cases hknown : memo.get? name with
  | some known =>
    rw [resolveFrom_known hknown]
    exact .pure ⟨(hmemo name known hknown).symm, hmemo, hsession⟩
  | none =>
    cases hschema : parameters.schema? name with
    | none =>
      obtain ⟨session', hsession', hgiven⟩ := hsolves.passes name session hschema hsession
      rw [resolveFrom_undeclared hknown hschema]
      exact .after hgiven (.pure ⟨rfl, hmemo, hsession'⟩)
    | some schema =>
      cases depth with
      | zero => exact .inr ⟨by rw [nestsWithin, hschema]; rfl, name, session, run_resolveFrom_zero hknown hschema⟩
      | succ depth =>
        rw [resolveFrom_declared hknown hschema]
        refine (comes_lookUps (hstep depth rfl) hmemo hsession).bind ?_ ?_
        · intro hdeep
          rw [nestsWithin, hschema, Option.all_some, List.all_eq_false]
          obtain ⟨sibling, hsibling, hdeep⟩ := hdeep
          exact ⟨sibling, hsibling, by rw [hdeep]; exact Bool.false_ne_true⟩
        · rintro ⟨found, memo₁⟩ session₁ ⟨rfl, hmemo₁, hsession₁⟩
          obtain ⟨session', hsession', hvalue⟩ := hsolves.declared name schema session₁ hschema hsession₁
          exact .after hvalue (.pure ⟨rfl, hmemo₁.put, hsession'⟩)

/-- Where the values solve the conditions, every parameter comes to its value at every depth. -/
private theorem Solves.comes (hsolves : parameters.Solves scope values) (depth : Nat) :
    Comes.ToValues parameters scope values depth := by
  -- Only a declared parameter that the memo does not know needs a smaller depth.
  induction depth with
  | zero => exact hsolves.comes_step fun _ h => absurd h (Nat.zero_ne_add_one _)
  | succ depth ih => exact hsolves.comes_step fun smaller h => Nat.succ.inj h ▸ ih

/-! What is evaluated when all parameters are resolved. -/

private theorem raw?_of_schema (hschema : parameters.schema? name = some schema) : parameters.raw? name =
    some ((parameters.configured.get? schema.name).getD schema.default) := by
  rw [raw?, hschema, schema_name hschema]
  cases parameters.configured.get? name <;> rfl

private theorem raw?_of_undeclared (hschema : parameters.schema? name = none) :
    parameters.raw? name = parameters.configured.get? name := by
  rw [raw?, hschema, Option.map_none, Option.or_none]

private theorem Arises.of_resolve {raw given : Json} (hsession : Arises scope session)
    (h : (Template.resolve scope raw).run session = (.ok given, session')) : Arises scope session' := by
  have hnext := hsession.resolve raw
  rwa [h] at hnext

private theorem Arises.of_valueIf (hsession : Arises scope session)
    (h : (parameters.valueIf scope schema found).run session = (.ok value, session')) : Arises scope session' := by
  rw [valueIf_eq_ok] at h
  split at h
  · obtain ⟨accepted, haccepted, -⟩ := h
    obtain ⟨given, hgiven, -⟩ := valueOf_eq_ok.mp haccepted
    exact hsession.of_resolve hgiven
  · exact h.2 ▸ hsession

private theorem Arises.of_undeclared (hsession : Arises scope session)
    (h : (parameters.undeclared scope name).run session = (.ok value, session')) : Arises scope session' := by
  rw [undeclared_eq_ok] at h
  split at h
  · obtain ⟨given, hgiven, -⟩ := h
    exact hsession.of_resolve hgiven
  · exact h.2 ▸ hsession

private theorem arises_of_resolution (depth : Nat) :
    (∀ {memo session name value memo' session'},
      parameters.Resolved scope depth memo session name value memo' session' → Arises scope session →
      Arises scope session') ∧
    ∀ {names found memo session found' memo' session'},
      parameters.LooksUp scope depth names found memo session found' memo' session' →
      Arises scope session → Arises scope session' := by
  refine resolution_induction
    (P := fun _ _ session _ _ _ session' => Arises scope session → Arises scope session')
    (Q := fun _ _ _ _ session _ _ session' => Arises scope session → Arises scope session')
    ?known ?undeclared ?declared ?nil ?cons depth
  case known => exact fun _ h => h
  case undeclared => exact fun _ _ hgiven h => h.of_undeclared hgiven
  case declared => exact fun _ _ _ hlooks hvalue h => (hlooks h).of_valueIf hvalue
  case nil => exact fun h => h
  case cons => exact fun _ hfirst _ hrest h => hrest (hfirst h)

/-- A steady value comes to the same in any other session. -/
private theorem Steady.transfer {raw given : Json} (hsteady : Steady scope raw) (hsession : Arises scope session)
    (hgiven : ((Template.resolve scope raw).run session).1 = .ok given) {other : Session}
    (hother : Arises scope other) :
    ∃ other', Arises scope other' ∧ (Template.resolve scope raw).run other = (.ok given, other') :=
  ⟨_, hother.resolve raw, Prod.ext ((hsteady other hother).trans ((hsteady session hsession).symm.trans hgiven)) rfl⟩

/-! What all parameters come to together. -/

private theorem given_of_passOn {entries : List (String × Json)} {all : Keyed Json} {raw : Json}
    (h : (entries.foldlM (passOn scope) found).run session = (.ok all, session'))
    (hsession : Arises scope session) (hdistinct : (entries.map (·.1)).Nodup) (hmem : (name, raw) ∈ entries) :
    ∃ given other, Arises scope other ∧
      ((Template.resolve scope raw).run other).1 = .ok given ∧ all.get? name = some given := by
  induction entries generalizing found session with
  | nil => cases hmem
  | cons entry entries ih =>
    obtain ⟨hnot, hdistinct⟩ := List.nodup_cons.mp hdistinct
    rw [List.foldlM_cons, bind_eq_ok] at h
    obtain ⟨found₁, session₁, hfirst, hrest⟩ := h
    obtain ⟨given, hgiven, rfl⟩ := passOn_eq_ok.mp hfirst
    rcases List.mem_cons.mp hmem with rfl | hmem
    · refine ⟨given, session, hsession, by rw [hgiven], ?_⟩
      rw [get?_of_passOn hrest hnot, Keyed.get?_put, if_pos rfl]
    · exact ih hrest (hsession.of_resolve hgiven) hdistinct hmem

private theorem Memo.Keeps.agrees (h : memo.Keeps memo') (hagrees : memo'.Agrees values) : memo.Agrees values :=
  fun name value hknown => hagrees name value (h name value hknown)

/-- What the memo knows of a parameter is what its conditions made of the values at some time. -/
def Memo.Evident (parameters : Parameters) (scope : Scope) (values : String → Option Json) (memo : Memo) : Prop :=
  ∀ name value, Keyed.get? memo name = some value → ∃ schema session session',
    parameters.schema? name = some schema ∧ Arises scope session ∧
      (parameters.valueIf scope schema (siblingValues values schema.siblings [])).run session =
        (.ok value, session')

private theorem Memo.Evident.put (h : memo.Evident parameters scope values)
    (hschema : parameters.schema? name = some schema) (hsession : Arises scope session)
    (hvalue : (parameters.valueIf scope schema (siblingValues values schema.siblings [])).run session =
      (.ok value, session')) : Memo.Evident parameters scope values (Keyed.put memo name value) := by
  intro other known hknown
  rw [Keyed.get?_put] at hknown
  split at hknown
  · rename_i heq
    obtain rfl := Option.some.inj hknown
    exact ⟨schema, session, session', heq ▸ hschema, hsession, hvalue⟩
  · exact h other known hknown

private theorem evident_of_resolution (hpasses : parameters.Passes scope values) (depth : Nat) :
    (∀ {memo session name value memo' session'},
      parameters.Resolved scope depth memo session name value memo' session' → memo.Founded parameters →
      memo'.Agrees values → Arises scope session → memo.Evident parameters scope values →
      value = values name ∧ memo'.Evident parameters scope values) ∧
    ∀ {names found memo session found' memo' session'},
      parameters.LooksUp scope depth names found memo session found' memo' session' →
      memo.Founded parameters → memo'.Agrees values → Arises scope session →
      memo.Evident parameters scope values →
      found' = siblingValues values names found ∧ memo'.Evident parameters scope values := by
  refine resolution_induction
    (P := fun _ memo session name value memo' _ => memo.Founded parameters → memo'.Agrees values →
      Arises scope session → memo.Evident parameters scope values →
      value = values name ∧ memo'.Evident parameters scope values)
    (Q := fun _ names found memo session found' memo' _ => memo.Founded parameters → memo'.Agrees values →
      Arises scope session → memo.Evident parameters scope values →
      found' = siblingValues values names found ∧ memo'.Evident parameters scope values)
    ?known ?undeclared ?declared ?nil ?cons depth
  case known =>
    intro _ _ _ name value hknown _ hagrees _ hevident
    exact ⟨(hagrees name value hknown).symm, hevident⟩
  case undeclared =>
    intro _ _ session name value _ _ hschema hgiven _ _ hsession hevident
    obtain ⟨_, -, hvalue⟩ := hpasses name session hschema hsession
    rw [hvalue] at hgiven
    exact ⟨(Except.ok.inj (Prod.mk.inj hgiven).1).symm, hevident⟩
  case declared =>
    intro depth memo memo₁ _ session₁ _ name schema found value hnone hschema hlooks hfound hvalue hmemo hagrees
      hsession hevident
    -- What is right in the end was right before the parameter was put to it, since nothing else resolved it.
    have hgrows := hlooks.grows hmemo
    obtain ⟨rfl, hevident⟩ := hfound hmemo ((hgrows.put_keeps hschema hnone).agrees hagrees) hsession hevident
    refine ⟨(hagrees name value (by rw [Keyed.get?_put, if_pos rfl])).symm, ?_⟩
    exact hevident.put hschema ((arises_of_resolution depth).2 hlooks hsession) hvalue
  case nil =>
    intro _ _ _ _ _ _ _ hevident
    exact ⟨rfl, hevident⟩
  case cons =>
    intro depth _ _ _ _ _ _ _ _ _ _ _ hresolved hfirst hlooks hrest hmemo hagrees hsession hevident
    have hmid := (hresolved.grows hmemo).added_founded
    have hagrees₁ := (hlooks.grows hmid).keeps.agrees hagrees
    obtain ⟨rfl, hevident⟩ := hfirst hmemo hagrees₁ hsession hevident
    exact hrest hmid hagrees ((arises_of_resolution depth).1 hresolved hsession) hevident

private theorem Collects.evident (hpasses : parameters.Passes scope values)
    (h : parameters.Collects scope schemas found memo session found' memo' session')
    (hmemo : memo.Founded parameters) (hagrees : memo'.Agrees values) (hsession : Arises scope session)
    (hevident : memo.Evident parameters scope values) : memo'.Evident parameters scope values := by
  induction h with
  | nil => exact hevident
  | cons hfirst hrest ih =>
    have hmid := (hfirst.grows hmemo).added_founded
    have hagrees₁ := (hrest.keeps hmid).agrees hagrees
    obtain ⟨-, hevident⟩ := (evident_of_resolution hpasses _).1 hfirst hmemo hagrees₁ hsession hevident
    exact ih hmid hagrees ((arises_of_resolution _).1 hfirst hsession) hevident

private theorem Collects.arises (h : parameters.Collects scope schemas found memo session found' memo' session')
    (hsession : Arises scope session) : Arises scope session' := by
  induction h with
  | nil => exact hsession
  | cons hfirst _ ih => exact ih ((arises_of_resolution _).1 hfirst hsession)

/-- Whatever is evaluated for these values comes to the same, whatever was evaluated before it. -/
def AllSteady (parameters : Parameters) (scope : Scope) (all : Keyed Json) : Prop :=
  ∀ name raw, (all.get? name).isSome = true → parameters.raw? name = some raw → Steady scope raw

section
variable {all : Keyed Json} (hsteady : parameters.AllSteady scope all)
include hsteady

private theorem declared_of_evident (hschema : parameters.schema? name = some schema) (hsession : Arises scope session)
    (hvalue : (parameters.valueIf scope schema found).run session = (.ok (all.get? name), session'))
    {other : Session} (hother : Arises scope other) : ∃ other', Arises scope other' ∧
      (parameters.valueIf scope schema found).run other = (.ok (all.get? name), other') := by
  simp only [valueIf_eq_ok] at hvalue ⊢
  split at hvalue
  · rename_i hvisible
    obtain ⟨accepted, haccepted, hsome⟩ := hvalue
    obtain ⟨given, hgiven, htaken⟩ := valueOf_eq_ok.mp haccepted
    have hraw := hsteady name _ (by rw [hsome]; rfl) (raw?_of_schema hschema)
    obtain ⟨other', hother', hgiven⟩ := hraw.transfer hsession (by rw [hgiven]) hother
    simp only [if_pos hvisible]
    exact ⟨other', hother', accepted, valueOf_eq_ok.mpr ⟨given, hgiven, htaken⟩, hsome⟩
  · rename_i hinvisible
    simp only [if_neg hinvisible]
    exact ⟨other, hother, hvalue.1, rfl⟩

private theorem passes_of_passOn (hconfigured : parameters.configured.names.Nodup) (hsession : Arises scope session)
    (hpassed : (parameters.others.foldlM (passOn scope) found).run session = (.ok all, session'))
    (hfound : ∀ name, parameters.schema? name = none → found.get? name = none) :
    parameters.Passes scope all.get? := by
  intro name other hschema hother
  have hothers : (parameters.others.map (·.1)).Nodup :=
    hconfigured.sublist (List.filter_sublist.map _)
  simp only [undeclared_eq_ok]
  cases hget : parameters.configured.get? name with
  | none =>
    refine ⟨other, hother, ?_, rfl⟩
    rw [get?_of_passOn hpassed, hfound name hschema]
    exact fun hmem => Keyed.not_mem_names hget ((List.filter_sublist.map _).subset hmem)
  | some raw =>
    have hmem : (name, raw) ∈ parameters.others :=
      List.mem_filter.mpr ⟨Keyed.mem_of_get? hget, by rw [hschema]; rfl⟩
    obtain ⟨given, before, hbefore, hgiven, hsome⟩ := given_of_passOn hpassed hsession hothers hmem
    have hraw := hsteady name raw (by rw [hsome]; rfl) (by rw [raw?_of_undeclared hschema, hget])
    obtain ⟨other', hother', hgiven⟩ := hraw.transfer hbefore hgiven hother
    exact ⟨other', hother', given, hgiven, hsome⟩

/-- The values that all parameters come to together solve the conditions. -/
private theorem solves_of_resolveAll (hschemas : (parameters.schemas.map (·.name)).Nodup)
    (hconfigured : parameters.configured.names.Nodup)
    (hrun : (parameters.resolveAll scope).run .start = (.ok all, session')) :
    parameters.Solves scope all.get? := by
  obtain ⟨found, session₁, hfound, hpassed⟩ := resolveAll_eq_ok.mp hrun
  obtain ⟨memo, hcollects⟩ := resolveDeclared_eq_ok.mp hfound
  have hpasses := passes_of_passOn hsteady hconfigured (hcollects.arises .start) hpassed fun name hschema =>
    hcollects.get?_of_not_mem (schema?_eq_none_iff.mp hschema)
  have hknown {name : String} (hname : (parameters.schema? name).isSome = true) :
      memo.get? name = some (all.get? name) := by
    rw [get?_of_passOn hpassed (not_mem_others hname)]
    exact hcollects.get?_memo Memo.founded_nil hschemas (fun _ => schema?_isSome_iff.mpr) (fun _ _ => rfl)
      (schema?_isSome_iff.mp hname)
  have hagrees : memo.Agrees all.get? := by
    intro name value hvalue
    have hname := (hcollects.founded Memo.founded_nil name value hvalue).1
    rw [hknown hname] at hvalue
    exact Option.some.inj hvalue
  have hevident := hcollects.evident hpasses Memo.founded_nil hagrees .start fun _ _ hnone => by cases hnone
  refine ⟨fun name schema other hschema hother => ?_, hpasses⟩
  obtain ⟨_, before, after, hsome, hbefore, hvalue⟩ :=
    hevident name _ (hknown (Option.isSome_of_eq_some hschema))
  obtain rfl := Option.some.inj (hschema.symm.trans hsome)
  exact declared_of_evident hsteady hschema hbefore hvalue hother

end

/-! The same parameters in another order. -/

private theorem comes_resolveDeclared (hsolves : parameters.Solves scope values) (hmemo : memo.Agrees values)
    (hsession : Arises scope session) :
    parameters.Comes (parameters.resolveDeclared scope schemas found memo) session
      (fun found' session' => Arises scope session' ∧ ∀ name, found'.get? name =
        if name ∈ schemas.map (·.name) then (values name).or (found.get? name) else found.get? name)
      (∃ schema ∈ schemas, parameters.nestsWithin conditionDepth schema.name = false) := by
  induction schemas generalizing found memo session with
  | nil => exact .pure ⟨hsession, fun name => rfl⟩
  | cons schema schemas ih =>
    rw [resolveDeclared_cons]
    refine (hsolves.comes conditionDepth memo session schema.name hmemo hsession).bind
      (fun h => ⟨schema, List.mem_cons_self, h⟩) ?_
    rintro ⟨value, memo₁⟩ session₁ ⟨rfl, hmemo₁, hsession₁⟩
    refine (ih hmemo₁ hsession₁).mono ?_ ?_
    · rintro ⟨other, hother, hdeep⟩
      exact ⟨other, List.mem_cons_of_mem _ hother, hdeep⟩
    · rintro found' session' ⟨hsession', hfound'⟩
      refine ⟨hsession', fun name => ?_⟩
      rw [hfound', get?_withValue, List.map_cons]
      by_cases hname : schema.name = name
      · subst hname
        cases values schema.name <;> simp
      · simp [hname, Ne.symm hname]

private theorem comes_passOn (entries : List (String × Json)) {deep : Prop} (hsolves : parameters.Solves scope values)
    (hentries : ∀ entry ∈ entries, parameters.schema? entry.1 = none ∧
      parameters.configured.get? entry.1 = some entry.2) (hsession : Arises scope session) :
    parameters.Comes (entries.foldlM (passOn scope) found) session
      (fun all _ => ∀ name, all.get? name =
        if name ∈ entries.map (·.1) then values name else found.get? name) deep := by
  induction entries generalizing found session with
  | nil => exact .pure fun name => rfl
  | cons entry entries ih =>
    obtain ⟨hschema, hget⟩ := hentries entry List.mem_cons_self
    obtain ⟨session₁, hsession₁, hgiven⟩ := hsolves.passes entry.1 session hschema hsession
    rw [undeclared_eq_ok, hget] at hgiven
    obtain ⟨given, hgiven, hvalue⟩ := hgiven
    rw [List.foldlM_cons, passOn, bind_assoc]
    refine .after hgiven ?_
    rw [pure_bind]
    refine (ih (fun other hother => hentries other (List.mem_cons_of_mem _ hother)) hsession₁).mono id ?_
    intro all _ hall name
    rw [hall, Keyed.get?_put, List.map_cons]
    by_cases hname : entry.1 = name
    · subst hname
      simp [hvalue]
    · by_cases hmem : name ∈ entries.map (·.1) <;> simp [hmem, hname, Ne.symm hname]

private theorem Solves.eq_none (hsolves : parameters.Solves scope values) (hschema : parameters.schema? name = none)
    (hothers : name ∉ parameters.others.map (·.1)) : values name = none := by
  obtain ⟨_, -, hgiven⟩ := hsolves.passes name .start hschema .start
  cases hget : parameters.configured.get? name with
  | none =>
    rw [undeclared_eq_ok, hget] at hgiven
    exact hgiven.1
  | some raw =>
    have hmem : (name, raw) ∈ parameters.others :=
      List.mem_filter.mpr ⟨Keyed.mem_of_get? hget, by rw [hschema]; rfl⟩
    exact absurd (List.mem_map_of_mem (f := (·.1)) hmem) hothers

private theorem comes_resolveAll (hsolves : parameters.Solves scope values)
    (hconfigured : parameters.configured.names.Nodup) :
    parameters.Comes (parameters.resolveAll scope) .start (fun all _ => ∀ name, all.get? name = values name)
      (∃ schema ∈ parameters.schemas, parameters.nestsWithin conditionDepth schema.name = false) := by
  have hnothing : Memo.Agrees [] values := fun _ _ hnone => by cases hnone
  refine (comes_resolveDeclared hsolves hnothing .start).bind id ?_
  rintro found session ⟨hsession, hfound⟩
  refine (comes_passOn parameters.others hsolves ?_ hsession).mono id ?_
  · intro entry hentry
    obtain ⟨hmem, hnone⟩ := List.mem_filter.mp hentry
    exact ⟨Option.isNone_iff_eq_none.mp hnone, Keyed.get?_of_mem hconfigured hmem⟩
  · intro all _ hall name
    rw [hall, hfound]
    split
    · rfl
    · rename_i hothers
      split
      · exact Option.or_none
      · rename_i hschemas
        exact (hsolves.eq_none (schema?_eq_none_iff.mpr hschemas) hothers).symm

section
variable (hdistinct : (parameters.schemas.map (·.name)).Nodup) (hperm : schemas.Perm parameters.schemas)
include hdistinct hperm

private theorem schema?_perm : ({ parameters with schemas } : Parameters).schema? name = parameters.schema? name := by
  have byName (schemas : List Schema) : schemas.find? (fun schema => schema.name == name) =
      Keyed.get? (schemas.map fun schema => (schema.name, schema)) name := by
    rw [Keyed.get?, List.find?_map, Option.map_map]
    exact Option.map_id'.symm
  rw [schema?, schema?, byName, byName]
  refine Keyed.get?_perm (hperm.map _) ?_
  rwa [Keyed.names, List.map_map]

private theorem nestsWithin_perm :
    ({ parameters with schemas } : Parameters).nestsWithin depth name = parameters.nestsWithin depth name := by
  induction depth generalizing name with
  | zero => rw [nestsWithin, nestsWithin, schema?_perm hdistinct hperm]
  | succ depth ih =>
    have hsame : ({ parameters with schemas } : Parameters).nestsWithin depth = parameters.nestsWithin depth :=
      funext fun name => ih
    rw [nestsWithin, nestsWithin, schema?_perm hdistinct hperm, hsame]

private theorem Solves.perm (hsolves : parameters.Solves scope values) :
    ({ parameters with schemas } : Parameters).Solves scope values :=
  ⟨fun name schema session hschema => hsolves.declared name schema session
      (by rwa [schema?_perm hdistinct hperm] at hschema),
    fun name session hschema => hsolves.passes name session
      (by rwa [schema?_perm hdistinct hperm] at hschema)⟩

end

/-- Once all parameters come to their values together, each of them alone comes to just its value, and so do all of
them in any other order, if nothing that is evaluated depends on what was evaluated before. The one thing that
can come between is a condition that nests too deeply, and that is reported. -/
theorem resolutions_agree {all : Keyed Json} (hschemas : (parameters.schemas.map (·.name)).Nodup)
    (hconfigured : parameters.configured.names.Nodup)
    (hrun : ((parameters.resolveAll scope).run .start).1 = .ok all) (hsteady : parameters.AllSteady scope all) :
    (∀ name, ((parameters.resolve? scope name).run .start).1 = .ok (all.get? name) ∨
      parameters.nestsWithin conditionDepth name = false ∧
        ∃ other, ((parameters.resolve? scope name).run .start).1 = .error (parameters.circular other)) ∧
    ∀ schemas, schemas.Perm parameters.schemas →
      (∃ all', ((({ parameters with schemas } : Parameters).resolveAll scope).run .start).1 = .ok all' ∧
        ∀ name, all'.get? name = all.get? name) ∨
      (∃ schema ∈ parameters.schemas, parameters.nestsWithin conditionDepth schema.name = false) ∧
        ∃ other, ((({ parameters with schemas } : Parameters).resolveAll scope).run .start).1 =
          .error (parameters.circular other) := by
  have hsolves := solves_of_resolveAll hsteady hschemas hconfigured (Prod.ext hrun rfl)
  constructor
  · intro name
    have hnothing : Memo.Agrees [] all.get? := fun _ _ hnone => by cases hnone
    have hcomes : parameters.Comes (parameters.resolve? scope name) .start (fun value _ => value = all.get? name)
        (parameters.nestsWithin conditionDepth name = false) :=
      (hsolves.comes conditionDepth [] .start name hnothing .start).bind id fun _ _ h => .pure h.1
    obtain ⟨_, _, hvalue, rfl⟩ | ⟨hdeep, other, _, hfailed⟩ := hcomes
    · exact .inl (congrArg Prod.fst hvalue)
    · exact .inr ⟨hdeep, other, congrArg Prod.fst hfailed⟩
  · intro schemas hperm
    obtain ⟨all', _, hall, hsame⟩ | ⟨⟨schema, hschema, hdeep⟩, other, _, hfailed⟩ :=
      comes_resolveAll (hsolves.perm hschemas hperm) hconfigured
    · exact .inl ⟨all', congrArg Prod.fst hall, hsame⟩
    · rw [nestsWithin_perm hschemas hperm] at hdeep
      exact .inr ⟨⟨schema, hperm.mem_iff.mp hschema, hdeep⟩, other, congrArg Prod.fst hfailed⟩

private theorem steady_of_plain {text : String} (hplain : Template.isExpression text = false) :
    Steady scope (.str text) := by
  intro session _
  rw [Template.resolve, hplain]
  rfl

/-- All that counts of the request is plain. -/
theorem resolutions_agree_body :
    (bodyForPost.schemas.map (·.name)).Nodup ∧ bodyForPost.configured.names.Nodup ∧
    ((bodyForPost.resolveAll emptyScope).run .start).1 =
      .ok [("extra", .str "kept"), ("method", .str "GET"), ("note", .str "")] ∧
    ((bodyForPost.resolve? emptyScope "note").run .start).1 = .ok (some (.str "")) ∧
    ((bodyForPost.resolve? emptyScope "body").run .start).1 = .ok none := by
  have hsteady : bodyForPost.AllSteady emptyScope
      [("extra", .str "kept"), ("method", .str "GET"), ("note", .str "")] := by
    intro name raw hsome hraw
    obtain ⟨value, hvalue⟩ := Option.isSome_iff_exists.mp hsome
    have hmem := Keyed.mem_of_get? hvalue
    simp only [List.mem_cons, Prod.mk.injEq, List.not_mem_nil, or_false] at hmem
    rcases hmem with ⟨rfl, -⟩ | ⟨rfl, -⟩ | ⟨rfl, -⟩ <;> cases hraw <;> exact steady_of_plain (by decide +kernel)
  have hrun : ((bodyForPost.resolveAll emptyScope).run .start).1 =
      .ok [("extra", .str "kept"), ("method", .str "GET"), ("note", .str "")] := rfl
  have hagree := (resolutions_agree (by decide) (by decide) hrun hsteady).1
  refine ⟨by decide, by decide, rfl, (hagree "note").resolve_right ?_, (hagree "body").resolve_right ?_⟩
  · exact fun h => absurd h.1 (by decide)
  · exact fun h => absurd h.1 (by decide)

/-- Each parameter but the first counts where the one before it is true. -/
def longChain : Parameters where
  node := "Chain"
  schemas := Schema.boolean "p0" true :: (List.range 17).map fun i =>
    (Schema.boolean ("p" ++ toString (i + 1)) true).showWhen ("p" ++ toString i) [.bool true]
  configured := []
  item := 0

def twoDraws : Parameters where
  node := "Dice"
  schemas := [.json "first", .json "second"]
  configured := [("first", .str "={{ $randomInt(0, 9) }}"),
    ("second", .str "={{ $randomInt(0, 9) }}")]
  item := 0

/-- The last parameter of the chain is one level too deep on its own, and so is the chain from its end. What is
drawn depends on how much was drawn before. -/
theorem resolutions_disagree :
    (longChain.schemas.map (·.name)).Nodup ∧
    ((longChain.resolveAll emptyScope).run .start).1.isOk = true ∧
    ((longChain.resolve? emptyScope "p17").run .start).1.isOk = false ∧
    ((({ longChain with schemas := longChain.schemas.reverse } : Parameters).resolveAll
      emptyScope).run .start).1.isOk = false ∧
    (twoDraws.schemas.map (·.name)).Nodup ∧
    ((twoDraws.resolveAll emptyScope).run .start).1.toOption.map (fun all => (all.get? "second").map (·.display)) =
      some (some "5") ∧
    ((twoDraws.resolve? emptyScope "second").run .start).1.toOption.map (·.map (·.display)) = some (some "0") := by
  decide +kernel

end FlowEngine.Parameters
