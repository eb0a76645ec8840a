import Mathlib.Data.List.Forall2
import Mathlib.Data.List.Perm.Basic
import Mathlib.Data.String.Basic
import FlowEngine.Proofs.Json.Fields

/-! Values by name stand in the order of their names. So they are the same if lookups find the same in them. -/
namespace FlowEngine.Keyed
variable {α β : Type} {m m' : Keyed α} {name : String} {value : α} {entries : List (String × α)}
  {p : String × α → Prop}

def Ascending (m : Keyed α) : Prop := m.Pairwise (·.1 < ·.1)

private theorem ascending_iff : m.Ascending ↔ m.names.Pairwise (· < ·) := List.pairwise_map.symm

theorem forall_mem_put (hm : ∀ entry ∈ m, p entry) (hp : p (name, value)) : ∀ entry ∈ m.put name value, p entry := by
  induction m with
  | nil => simpa [put] using hp
  | cons entry rest ih =>
    obtain ⟨hentry, hrest⟩ := List.forall_mem_cons.mp hm
    rw [put]
    split
    · exact List.forall_mem_cons.mpr ⟨hp, hrest⟩
    split
    · exact List.forall_mem_cons.mpr ⟨hp, hm⟩
    · exact List.forall_mem_cons.mpr ⟨hentry, ih hrest⟩

theorem forall_mem_putAll (hm : ∀ entry ∈ m, p entry) (hentries : ∀ entry ∈ entries, p entry) :
    ∀ entry ∈ m.putAll entries, p entry := by
  induction entries generalizing m with
  | nil => exact hm
  | cons entry rest ih =>
    obtain ⟨hentry, hrest⟩ := List.forall_mem_cons.mp hentries
    exact ih (forall_mem_put hm hentry) hrest

theorem forall_mem_ofList (hentries : ∀ entry ∈ entries, p entry) : ∀ entry ∈ ofList entries, p entry :=
  forall_mem_putAll (List.forall_mem_nil _) hentries

private theorem mem_names_putAll : name ∈ (m.putAll entries).names ↔ name ∈ m.names ∨ name ∈ entries.map (·.1) := by
  induction entries generalizing m with
  | nil => simp [putAll]
  | cons entry rest ih =>
    change name ∈ ((m.put entry.1 entry.2).putAll rest).names ↔ _
    rw [ih, mem_names_put, List.map_cons, List.mem_cons, or_assoc]

theorem mem_names_ofList : name ∈ (ofList entries).names ↔ name ∈ entries.map (·.1) := by
  rw [ofList, mem_names_putAll]
  exact or_iff_right List.not_mem_nil

namespace Ascending

theorem put (hm : m.Ascending) : (m.put name value).Ascending := by
  induction m with
  | nil => exact List.pairwise_singleton _ _
  | cons entry rest ih =>
    obtain ⟨hentry, hrest⟩ := List.pairwise_cons.mp hm
    rw [Keyed.put]
    split
    · rename_i heq
      exact List.pairwise_cons.mpr ⟨heq ▸ hentry, hrest⟩
    split
    · rename_i hlt
      refine List.pairwise_cons.mpr ⟨List.forall_mem_cons.mpr ⟨hlt, fun other hother => ?_⟩, hm⟩
      exact lt_trans hlt (hentry other hother)
    · rename_i hne hnot
      have hlt : entry.1 < name := lt_of_le_of_ne (not_lt.mp hnot) (Ne.symm hne)
      exact List.pairwise_cons.mpr ⟨forall_mem_put hentry hlt, ih hrest⟩

private theorem putAll (hm : m.Ascending) : (m.putAll entries).Ascending := by
  induction entries generalizing m with
  | nil => exact hm
  | cons entry rest ih => exact ih hm.put

theorem ofList : (ofList entries).Ascending := putAll .nil

theorem remove (hm : m.Ascending) : (m.remove name).Ascending := hm.filter _

theorem mapValues {f : α → β} (hm : m.Ascending) : (m.mapValues f).Ascending := List.pairwise_map.mpr hm

theorem nodup_names (hm : m.Ascending) : m.names.Nodup :=
  List.pairwise_map.mpr (hm.imp fun hlt => ne_of_lt hlt)

private theorem nodup (hm : m.Ascending) : m.Nodup := by
  refine hm.imp fun hlt => ?_
  rintro rfl
  exact lt_irrefl _ hlt

private theorem get?_eq_some_iff (hm : m.Ascending) : m.get? name = some value ↔ (name, value) ∈ m :=
  ⟨mem_of_get?, get?_of_mem hm.nodup_names⟩

theorem ext (hm : m.Ascending) (hm' : m'.Ascending) (h : ∀ name, m.get? name = m'.get? name) : m = m' := by
  have hmem (entry : String × α) : entry ∈ m ↔ entry ∈ m' := by
    rw [← hm.get?_eq_some_iff, ← hm'.get?_eq_some_iff, h]
  have hperm : m.Perm m' := (List.perm_ext_iff_of_nodup hm.nodup hm'.nodup).mpr hmem
  exact hperm.eq_of_pairwise (fun _ _ _ _ hlt hlt' => absurd hlt (lt_asymm hlt')) hm hm'

private theorem get?_cons (hm : Ascending ((name, value) :: m)) (other : String) :
    get? ((name, value) :: m) other = (m.get? other).or (if name = other then some value else none) := by
  obtain ⟨hlt, -⟩ := List.pairwise_cons.mp hm
  by_cases heq : name = other
  · subst heq
    have hnone : m.get? name = none := by
      rw [get?, Option.map_eq_none_iff, List.find?_eq_none]
      exact fun entry hentry => by simpa using (ne_of_lt (hlt entry hentry)).symm
    rw [hnone, Option.none_or, if_pos rfl]
    simp [get?]
  · simp [get?, heq]

theorem get?_ofList (hm : m.Ascending) : (Keyed.ofList m).get? name = m.get? name := by
  induction m with
  | nil => rfl
  | cons entry rest ih =>
    obtain ⟨other, value⟩ := entry
    rw [get?_ofList_cons, ih (List.pairwise_cons.mp hm).2, hm.get?_cons]

theorem ofList_eq (hm : m.Ascending) : Keyed.ofList m = m := ext ofList hm fun _ => hm.get?_ofList

end Ascending

/-! Values by name that are related. -/

theorem exists_of_rel_left {r : α → β → Prop} {a : α} {y : Option β} (h : Option.Rel r (some a) y) :
    ∃ b, y = some b ∧ r a b := by
  cases h with
  | some hr => exact ⟨_, rfl, hr⟩

theorem exists_of_rel_right {r : α → β → Prop} {x : Option α} {b : β} (h : Option.Rel r x (some b)) :
    ∃ a, x = some a ∧ r a b := by
  cases h with
  | some hr => exact ⟨_, rfl, hr⟩

def Related (r : α → β → Prop) (m : Keyed α) (n : Keyed β) : Prop :=
  List.Forall₂ (fun x y => x.1 = y.1 ∧ r x.2 y.2) m n

namespace Related
variable {n : Keyed β} {r : α → β → Prop} {a : α} {b : β}

theorem names_eq (h : Related r m n) : m.names = n.names := by
  rw [names, names, ← List.forall₂_eq_eq_eq, List.forall₂_map_left_iff, List.forall₂_map_right_iff]
  exact h.imp fun _ _ hxy => hxy.1

theorem ascending (h : Related r m n) (hm : m.Ascending) : n.Ascending :=
  ascending_iff.mpr (h.names_eq ▸ ascending_iff.mp hm)

theorem get? (h : Related r m n) (name : String) : Option.Rel r (m.get? name) (n.get? name) := by
  induction h with
  | nil => exact .none
  | @cons x y m n hxy _ ih =>
    obtain ⟨other, a⟩ := x
    obtain ⟨_, b⟩ := y
    obtain ⟨rfl, hr⟩ := hxy
    by_cases hname : other = name
    · subst hname
      rw [get?_cons_self, get?_cons_self]
      exact .some hr
    · rw [get?_cons_of_ne hname, get?_cons_of_ne hname]
      exact ih

theorem put (h : Related r m n) (hr : r a b) : Related r (m.put name a) (n.put name b) := by
  induction h with
  | nil => exact .cons ⟨rfl, hr⟩ .nil
  | @cons x y m n hxy hrest ih =>
    obtain ⟨other, a'⟩ := x
    obtain ⟨_, b'⟩ := y
    obtain ⟨rfl, hr'⟩ := hxy
    rw [Keyed.put, Keyed.put]
    split
    · exact .cons ⟨rfl, hr⟩ hrest
    split
    · exact .cons ⟨rfl, hr⟩ (.cons ⟨rfl, hr'⟩ hrest)
    · exact .cons ⟨rfl, hr'⟩ ih

end Related

end FlowEngine.Keyed
