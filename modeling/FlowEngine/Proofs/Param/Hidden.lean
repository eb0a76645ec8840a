import FlowEngine.Proofs.Param.Resolving

/-! Parameters that do not count. What is configured for such a parameter is never looked at, so it has no part
in any value nor in any failure. -/
namespace FlowEngine.Parameters
open Template.Resolve
variable {parameters : Parameters} {scope : Scope} {depth : Nat} {name hidden : String} {names : List String}
  {schema : Schema} {memo memo' : Memo} {session session' : Session} {value : Option Json}
  {found found' values configured : Keyed Json}

def Memo.Hides (memo : Memo) (hidden : String) : Prop := ∀ value, Keyed.get? memo hidden ≠ some (some value)

private theorem Memo.Keeps.hides (h : memo.Keeps memo') (hhides : memo'.Hides hidden) : memo.Hides hidden :=
  fun value hsome => hhides value (h hidden (some value) hsome)

def SameBut (hidden : String) (configured configured' : Keyed Json) : Prop :=
  ∀ name, name ≠ hidden → configured'.get? name = configured.get? name

private theorem valueIf_of_sameBut (hsame : SameBut hidden parameters.configured configured)
    (hdecided : (parameters.valueIf scope schema found).run session = (.ok value, session'))
    (hcounts : schema.name = hidden → value = none) :
    (({ parameters with configured } : Parameters).valueIf scope schema found).run session =
      (.ok value, session') := by
  rw [valueIf] at hdecided ⊢
  split at hdecided
  · rename_i hvisible
    have hne : schema.name ≠ hidden := by
      intro heq
      rw [hcounts heq, map_eq_pure_bind, bind_eq_ok] at hdecided
      obtain ⟨_, _, -, hpure⟩ := hdecided
      cases (pure_eq_ok.mp hpure).1
    rw [if_pos hvisible, ← hdecided, valueOf, valueOf, hsame _ hne]
    rfl
  · rename_i hinvisible
    rwa [if_neg hinvisible]

section
variable (hsame : SameBut hidden parameters.configured configured)
  (hdeclared : (parameters.schema? hidden).isSome = true)
include hsame hdeclared

private theorem undeclared_of_sameBut (hschema : parameters.schema? name = none) :
    ({ parameters with configured } : Parameters).undeclared scope name = parameters.undeclared scope name := by
  have hne : name ≠ hidden := by
    rintro rfl
    rw [hschema] at hdeclared
    cases hdeclared
  rw [undeclared, undeclared, hsame name hne]

/-- A parameter that does not count has no part in resolving others. -/
private theorem Resolved.of_sameBut (h : parameters.Resolved scope depth memo session name value memo' session')
    (hmemo : memo.Founded parameters) (hhides : memo'.Hides hidden) :
    ({ parameters with configured } : Parameters).Resolved scope depth memo session name value memo' session' := by
  refine (resolution_induction
    (P := fun depth memo session name value memo' session' => memo.Founded parameters → memo'.Hides hidden →
      ({ parameters with configured } : Parameters).Resolved scope depth memo session name value memo' session')
    (Q := fun depth names found memo session found' memo' session' => memo.Founded parameters →
      memo'.Hides hidden → ({ parameters with configured } : Parameters).LooksUp scope depth names found memo
        session found' memo' session')
    ?known ?undeclared ?declared ?nil ?cons depth).1 h hmemo hhides
  case known =>
    intro _ _ _ _ _ hknown _ _
    exact .known hknown
  case undeclared =>
    intro _ _ _ _ _ _ hnone hschema hgiven _ _
    exact .undeclared hnone hschema (by rwa [undeclared_of_sameBut hsame hdeclared hschema])
  case declared =>
    intro _ _ _ _ _ _ name schema _ value hnone hschema hfound hlooks hvalue hmemo hhides
    have hgrows := hfound.grows hmemo
    refine .declared hnone hschema (hlooks hmemo ((hgrows.put_keeps hschema hnone).hides hhides))
      (valueIf_of_sameBut hsame hvalue fun heq => ?_)
    cases value with
    | none => rfl
    | some value =>
      refine absurd ?_ (hhides value)
      rw [Keyed.get?_put, if_pos ((schema_name hschema).symm.trans heq)]
  case nil =>
    intro _ _ _ _ _ _
    exact .nil
  case cons =>
    intro _ _ _ _ _ _ _ _ _ _ _ _ hresolved hfirst hlooks hrest hmemo hhides
    have hmid := (hresolved.grows hmemo).added_founded
    have hkept := (hlooks.grows hmid).keeps.hides hhides
    exact .cons (resolveFrom_eq_ok.mpr (hfirst hmemo hkept)) (hrest hmid hhides)

end

/-- A parameter that has no value in the end was never known to have one. -/
private theorem Collects.hides {schemas : List Schema} (hdeclared : (parameters.schema? hidden).isSome = true)
    (h : parameters.Collects scope schemas found memo session found' memo' session')
    (hmemo : memo.Founded parameters) (hmem : hidden ∈ schemas.map (·.name))
    (hnone : found'.get? hidden = none) : memo'.Hides hidden := by
  induction h with
  | nil => cases hmem
  | @cons schema _ value found _ _ _ _ _ _ _ hfirst hrest ih =>
    have hmid := (hfirst.grows hmemo).added_founded
    rcases List.mem_cons.mp hmem with rfl | hmem
    · have hvalue : value = none := by
        have hlater := hrest.found_of_none hnone
        rw [get?_withValue, if_pos rfl] at hlater
        exact (Option.or_eq_none_iff.mp hlater).1
      intro other hsome
      rw [hrest.keeps hmid schema.name value (hfirst.get?_memo hdeclared), hvalue] at hsome
      cases hsome
    · exact ih hmid hmem hnone

private theorem Collects.of_sameBut {schemas : List Schema} (hsame : SameBut hidden parameters.configured configured)
    (hdeclared : (parameters.schema? hidden).isSome = true)
    (h : parameters.Collects scope schemas found memo session found' memo' session')
    (hmemo : memo.Founded parameters) (hhides : memo'.Hides hidden) :
    ({ parameters with configured } : Parameters).Collects scope schemas found memo session
      found' memo' session' := by
  induction h with
  | nil => exact .nil
  | cons hfirst hrest ih =>
    have hmid := (hfirst.grows hmemo).added_founded
    have hkept := (hrest.keeps hmid).hides hhides
    exact .cons (hfirst.of_sameBut hsame hdeclared hmemo hkept) (ih hmid hhides)

private theorem resolveAll_of_sameBut (hrun : (parameters.resolveAll scope).run session = (.ok values, session'))
    (hdeclared : hidden ∈ parameters.schemas.map (·.name)) (hnone : values.get? hidden = none)
    (hsame : SameBut hidden parameters.configured configured)
    (hothers : ({ parameters with configured } : Parameters).others = parameters.others) :
    (({ parameters with configured } : Parameters).resolveAll scope).run session = (.ok values, session') := by
  obtain ⟨found, session₁, hfound, hpassed⟩ := resolveAll_eq_ok.mp hrun
  have hschema := schema?_isSome_iff.mpr hdeclared
  obtain ⟨memo, hcollects⟩ := resolveDeclared_eq_ok.mp hfound
  rw [get?_of_passOn hpassed (not_mem_others hschema)] at hnone
  have hhides := hcollects.hides hschema Memo.founded_nil hdeclared hnone
  have hcollects := hcollects.of_sameBut hsame hschema Memo.founded_nil hhides
  exact resolveAll_eq_ok.mpr ⟨found, session₁, resolveDeclared_eq_ok.mpr ⟨memo, hcollects⟩, hothers ▸ hpassed⟩

/-- If a declared parameter has no value when all parameters are resolved, then what is configured for it does
not matter: with any other value, or with none, all come to the same values, and nothing else is evaluated. -/
theorem resolveAll_ignores_hidden (hrun : (parameters.resolveAll scope).run session = (.ok values, session'))
    (hdeclared : hidden ∈ parameters.schemas.map (·.name)) (hnone : values.get? hidden = none) (value : Json) :
    (({ parameters with configured := parameters.configured.put hidden value } : Parameters).resolveAll
      scope).run session = (.ok values, session') ∧
    (({ parameters with configured := parameters.configured.remove hidden } : Parameters).resolveAll
      scope).run session = (.ok values, session') := by
  have hfiltered (value : Json) : (parameters.schema? (hidden, value).1).isNone = false :=
    Option.isNone_eq_false_iff.mpr (schema?_isSome_iff.mpr hdeclared)
  constructor
  · refine resolveAll_of_sameBut hrun hdeclared hnone (fun name hne => ?_) (Keyed.filter_put hfiltered)
    rw [Keyed.get?_put, if_neg hne.symm]
  · exact resolveAll_of_sameBut hrun hdeclared hnone (fun name hne => Keyed.get?_remove hne)
      (Keyed.filter_remove hfiltered)

/-- A request whose body counts only for one method, and a note that counts where there is no body. -/
def bodyForPost : Parameters where
  node := "Request"
  schemas := [(Schema.string "note").showWhen "body" [.null],
    (Schema.json "body").showWhen "method" [.str "POST"], .options "method" ["GET", "POST"]]
  configured := [("body", .str "\x7b\x7b $unknown \x7d\x7d"), ("extra", .str "kept"), ("method", .str "GET")]
  item := 0

def emptyScope : Scope := .ofItems ⟨0, 0, 0⟩ [] 0 [] []

/-- The body could not be evaluated, nor can the text that takes its place be read. -/
theorem resolveAll_ignores_hidden_body :
    (bodyForPost.resolveAll emptyScope).run Session.start =
      (.ok [("extra", .str "kept"), ("method", .str "GET"), ("note", .str "")], Session.start) ∧
    "body" ∈ bodyForPost.schemas.map (·.name) ∧
    (({ bodyForPost with configured := bodyForPost.configured.put "body" (.str "\x7b\x7b 1 +") } :
      Parameters).resolveAll emptyScope).run Session.start =
      (.ok [("extra", .str "kept"), ("method", .str "GET"), ("note", .str "")], Session.start) ∧
    (({ bodyForPost with configured := bodyForPost.configured.remove "body" } :
      Parameters).resolveAll emptyScope).run Session.start =
      (.ok [("extra", .str "kept"), ("method", .str "GET"), ("note", .str "")], Session.start) :=
  ⟨rfl, by decide, resolveAll_ignores_hidden rfl (by decide) rfl (.str "\x7b\x7b 1 +")⟩

end FlowEngine.Parameters
