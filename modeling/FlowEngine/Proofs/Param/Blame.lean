import FlowEngine.Node.Behaviour
import FlowEngine.Proofs.Param.Resolving

/-! Which item a failure of parameters names. Parameters are resolved for one item, and whatever goes wrong on the way,
in an expression, with a value of the wrong kind or with conditions that refer to one another, is a failure on it. -/
namespace FlowEngine

def Template.Resolve.Blames {α : Type} (index : Nat) (x : Resolve α) : Prop :=
  ∀ session failure, (x.run session).1 = .error (.failed failure) → failure.itemIndex = some index

namespace Template
variable {α β : Type} {index : Nat} {scope : Scope}

namespace Resolve

private theorem blames_pure {a : α} : Blames index (pure a) := by
  rintro _ _ ⟨⟩

private theorem blames_throw {failure : Failure} (h : failure.itemIndex = some index) :
    Blames index (throw (.failed failure) : Resolve α) := by
  rintro _ _ ⟨⟩
  exact h

private theorem Blames.bind {x : Resolve α} {f : α → Resolve β} (hx : x.Blames index) (hf : ∀ a, (f a).Blames index) :
    (x >>= f).Blames index := by
  intro session failure hfailed
  rw [run_bind] at hfailed
  match hrun : x.run session with
  | (.ok a, session₁) =>
    rw [hrun] at hfailed
    exact hf a session₁ failure hfailed
  | (.error first, session₁) =>
    rw [hrun] at hfailed
    obtain rfl := Except.error.inj hfailed
    exact hx session failure (by rw [hrun])

private theorem Blames.foldlM {f : β → α → Resolve β} (hf : ∀ b a, (f b a).Blames index) {b : β} {l : List α} :
    (l.foldlM f b).Blames index := by
  induction l generalizing b with
  | nil => exact blames_pure
  | cons a l ih =>
    rw [List.foldlM_cons]
    exact (hf b a).bind fun _ => ih

private theorem blames_ite {c : Prop} [Decidable c] {x y : Resolve α} (hx : x.Blames index) (hy : y.Blames index) :
    (if c then x else y).Blames index := by
  split
  · exact hx
  · exact hy

end Resolve
open Resolve

/-- Failures of expressions are located at the item that the scope looks at. -/
private theorem blames_located {text : String} {x : Eval α} : (located scope text x).Blames scope.index := by
  intro session failure hfailed
  have hrun : ((located scope text x).run session).1 = (x.run session).1.mapError (setback scope text) := rfl
  rw [hrun] at hfailed
  cases hx : (x.run session).1 with
  | ok a => rw [hx] at hfailed; cases hfailed
  | error e =>
    rw [hx] at hfailed
    have hfailed := Except.error.inj hfailed
    unfold setback at hfailed
    split at hfailed
    · cases hfailed
    · obtain rfl := Setback.failed.inj hfailed
      rfl

mutual
private theorem blames_resolve : (v : Json) → (resolve scope v).Blames scope.index
  | .str text => by
    rw [resolve]
    exact blames_ite blames_located blames_pure
  | .arr items => by
    rw [resolve]
    exact (blames_resolveItems items).bind fun _ => blames_pure
  | .obj fields => by
    rw [resolve]
    exact (blames_resolveFields fields).bind fun _ => blames_pure
  | .null => blames_pure
  | .bool _ => blames_pure
  | .num _ => blames_pure

theorem blames_resolveItems : (items : List Json) → (resolveItems scope items).Blames scope.index
  | [] => by
    rw [resolveItems]
    exact blames_pure
  | item :: items => by
    rw [resolveItems]
    exact (blames_resolve item).bind fun _ => (blames_resolveItems items).bind fun _ => blames_pure

theorem blames_resolveFields : (fields : List (String × Json)) → (resolveFields scope fields).Blames scope.index
  | [] => by
    rw [resolveFields]
    exact blames_pure
  | (_, value) :: fields => by
    rw [resolveFields]
    exact (blames_resolve value).bind fun _ => (blames_resolveFields fields).bind fun _ => blames_pure
end

end Template

namespace Parameters
open Template Template.Resolve
variable {α : Type} {parameters : Parameters} {scope : Scope} {schema : Schema}

private theorem blames_refuse {message : String} : (parameters.refuse message : Resolve α).Blames parameters.item :=
  blames_throw rfl

section
variable (hscope : scope.index = parameters.item)
include hscope

private theorem blames_given {raw : Json} : (resolve scope raw).Blames parameters.item := hscope ▸ blames_resolve raw

private theorem blames_valueOf : (parameters.valueOf scope schema).Blames parameters.item := by
  refine (blames_given hscope).bind fun value => blames_ite blames_refuse ?_
  split
  · exact blames_pure
  · exact blames_refuse

private theorem blames_valueIf {siblings : Keyed Json} :
    (parameters.valueIf scope schema siblings).Blames parameters.item :=
  blames_ite ((blames_valueOf hscope).bind fun _ => blames_pure) blames_pure

private theorem blames_undeclared {name : String} : (parameters.undeclared scope name).Blames parameters.item := by
  rw [undeclared]
  split
  · exact (blames_given hscope).bind fun _ => blames_pure
  · exact blames_pure

private theorem blames_resolveFrom_of {depth : Nat} {memo : Memo} {name : String}
    (hdeclared : ∀ schema, memo.get? name = none → parameters.schema? name = some schema →
      (parameters.resolveFrom scope depth memo name).Blames parameters.item) :
    (parameters.resolveFrom scope depth memo name).Blames parameters.item := by
  cases hmemo : memo.get? name with
  | some known => exact resolveFrom_known hmemo ▸ blames_pure
  | none =>
    cases hschema : parameters.schema? name with
    | none =>
      rw [resolveFrom_undeclared hmemo hschema]
      exact (blames_undeclared hscope).bind fun _ => blames_pure
    | some schema => exact hdeclared schema hmemo hschema

/-- By the depth that is left: what a condition looks at is resolved with less of it. -/
private theorem blames_resolveFrom {depth : Nat} {memo : Memo} {name : String} :
    (parameters.resolveFrom scope depth memo name).Blames parameters.item := by
  induction depth generalizing memo name with
  | zero =>
    refine blames_resolveFrom_of hscope fun schema hmemo hschema session failure hfailed => ?_
    rw [run_resolveFrom_zero hmemo hschema] at hfailed
    obtain rfl := Setback.failed.inj (Except.error.inj hfailed)
    rfl
  | succ depth ih =>
    refine blames_resolveFrom_of hscope fun schema hmemo hschema => ?_
    rw [resolveFrom_declared hmemo hschema]
    refine (Blames.foldlM fun state name => ih.bind fun _ => blames_pure).bind fun (found, memo) => ?_
    exact (blames_valueIf hscope).bind fun _ => blames_pure

private theorem blames_resolveDeclared {schemas : List Schema} {found : Keyed Json} {memo : Memo} :
    (parameters.resolveDeclared scope schemas found memo).Blames parameters.item := by
  induction schemas generalizing found memo with
  | nil => exact blames_pure
  | cons schema schemas ih =>
    rw [resolveDeclared_cons]
    exact (blames_resolveFrom hscope).bind fun _ => ih

/-- Resolving all parameters for an item fails on that item, if it does. -/
private theorem blames_resolveAll : (parameters.resolveAll scope).Blames parameters.item := by
  rw [resolveAll]
  exact (blames_resolveDeclared hscope).bind fun found => .foldlM fun _ _ => (blames_given hscope).bind fun _ => blames_pure

end
end Parameters

namespace Node.Context
variable {α : Type} {context : Context} {read : Keyed Json → Option α} {index : Nat} {failure : Failure}

/-- What a node reads of its parameters for an item fails on that item, if it does. -/
theorem itemIndex_of_settings (h : context.settings read index = .error (.failed failure)) :
    failure.itemIndex = some index := by
  rw [settings, parameters] at h
  cases hresolved : settle ((context.declared index).resolveAll (context.scope index)) with
  | error first =>
    rw [hresolved] at h
    obtain rfl := Except.error.inj h
    exact (context.declared index).blames_resolveAll rfl Session.start failure hresolved
  | ok values =>
    rw [hresolved] at h
    dsimp only [bind, Except.bind] at h
    split at h
    · cases h
    · obtain rfl := Setback.failed.inj (Except.error.inj h)
      rfl

end Node.Context
end FlowEngine
