import Mathlib.Data.Set.Image
import Mathlib.Tactic.Common

/-! Stable sorts: lists in order, with equals in the order in which they came. What merging does at one step, and what
becomes of two sorted halves. -/
namespace FlowEngine
variable {α : Type} {le : α → α → Bool} {S : Set α} {x y : α} {xs ys items left right merged : List α}

/-- Among some values, a comparison is a total preorder. -/
structure TotalPreorderOn (le : α → α → Bool) (S : Set α) : Prop where
  total : ∀ a ∈ S, ∀ b ∈ S, le a b = true ∨ le b a = true
  trans : ∀ a ∈ S, ∀ b ∈ S, ∀ c ∈ S, le a b = true → le b c = true → le a c = true

def tied (le : α → α → Bool) (a b : α) : Bool := le a b && le b a

/-- A list has the items of another, in order, and such as are tied in the order in which they were. -/
structure IsStableSort (le : α → α → Bool) (S : Set α) (sorted items : List α) : Prop where
  perm : sorted.Perm items
  ordered : sorted.Pairwise fun a b => le a b = true
  stable : ∀ a ∈ S, sorted.filter (tied le a) = items.filter (tied le a)

namespace IsStableSort

theorem of_length_le_one (h : items.length ≤ 1) : IsStableSort le S items items where
  perm := .refl _
  ordered := by
    match items, h with
    | [], _ => exact .nil
    | [a], _ => exact List.pairwise_singleton _ a
  stable := fun _ _ => rfl

/-- The first of the left list goes first when nothing on the right is before it. -/
theorem cons_left (h : IsStableSort le S merged (xs ++ y :: ys)) (hle : ∀ z ∈ xs ++ y :: ys, le x z = true) :
    IsStableSort le S (x :: merged) (x :: xs ++ y :: ys) where
  perm := h.perm.cons x
  ordered := List.pairwise_cons.mpr ⟨fun z hz => hle z (h.perm.mem_iff.mp hz), h.ordered⟩
  stable := by
    intro a ha
    rw [List.cons_append, List.filter_cons, List.filter_cons, h.stable a ha]

/-- The first of the right list goes first when it is before everything, and tied with nothing on the left. -/
theorem cons_right (h : IsStableSort le S merged (xs ++ ys)) (hle : ∀ z ∈ xs ++ ys, le y z = true)
    (htied : ∀ a ∈ S, tied le a y = true → ∀ z ∈ xs, tied le a z = false) :
    IsStableSort le S (y :: merged) (xs ++ y :: ys) where
  perm := (h.perm.cons y).trans List.perm_middle.symm
  ordered := List.pairwise_cons.mpr ⟨fun z hz => hle z (h.perm.mem_iff.mp hz), h.ordered⟩
  stable := by
    intro a ha
    rw [List.filter_cons, h.stable a ha, List.filter_append, List.filter_append, List.filter_cons]
    cases hy : tied le a y with
    | false => simp
    | true =>
      have hnone : xs.filter (tied le a) = [] := by
        simpa [List.filter_eq_nil_iff] using htied a ha hy
      simp [hnone]

/-- Merging sorts the two halves' items if it sorts what the halves were sorted to. -/
theorem of_halves (h : IsStableSort le S merged (left ++ right)) (hleft : IsStableSort le S left xs)
    (hright : IsStableSort le S right ys) : IsStableSort le S merged (xs ++ ys) where
  perm := h.perm.trans (hleft.perm.append hright.perm)
  ordered := h.ordered
  stable := by
    intro a ha
    rw [h.stable a ha, List.filter_append, List.filter_append, hleft.stable a ha, hright.stable a ha]

/-- Sorting by what a function gives sorts what it gives. -/
theorem map {β : Type} {le : β → β → Bool} {f : α → β} (h : IsStableSort (fun a b => le (f a) (f b)) S sorted items) :
    IsStableSort le (f '' S) (sorted.map f) (items.map f) where
  perm := h.perm.map f
  ordered := List.pairwise_map.mpr h.ordered
  stable := by
    rintro _ ⟨a, ha, rfl⟩
    rw [List.filter_map, List.filter_map]
    exact congrArg (List.map f) (h.stable a ha)

end IsStableSort

namespace TotalPreorderOn

private theorem refl (h : TotalPreorderOn le S) (hx : x ∈ S) : le x x = true := (h.total x hx x hx).elim id id

theorem comap {β : Type} {le : β → β → Bool} {f : α → β} (h : TotalPreorderOn le (f '' S)) :
    TotalPreorderOn (fun a b => le (f a) (f b)) S where
  total := fun _ ha _ hb => h.total _ (Set.mem_image_of_mem f ha) _ (Set.mem_image_of_mem f hb)
  trans := fun _ ha _ hb _ hc =>
    h.trans _ (Set.mem_image_of_mem f ha) _ (Set.mem_image_of_mem f hb) _ (Set.mem_image_of_mem f hc)

theorem image {β : Type} {le : β → β → Bool} {f : α → β} (h : TotalPreorderOn (fun a b => le (f a) (f b)) S) :
    TotalPreorderOn le (f '' S) where
  total := by
    rintro _ ⟨a, ha, rfl⟩ _ ⟨b, hb, rfl⟩
    exact h.total a ha b hb
  trans := by
    rintro _ ⟨a, ha, rfl⟩ _ ⟨b, hb, rfl⟩ _ ⟨c, hc, rfl⟩
    exact h.trans a ha b hb c hc

/-- What is at most the first of a list in order is at most all of it. -/
theorem le_of_ordered (h : TotalPreorderOn le S) (hx : x ∈ S) (hys : ∀ z ∈ y :: ys, z ∈ S)
    (hordered : (y :: ys).Pairwise fun a b => le a b = true) (hxy : le x y = true) : ∀ z ∈ y :: ys, le x z = true := by
  intro z hz
  rcases List.mem_cons.mp hz with rfl | hrest
  · exact hxy
  · exact h.trans x hx y (hys y List.mem_cons_self) z (hys z hz) hxy ((List.pairwise_cons.mp hordered).1 z hrest)

/-- Where one value is not at most another, what is tied with the other is not tied with anything behind the one. -/
theorem not_tied_of_not_le (h : TotalPreorderOn le S) {a z : α} (ha : a ∈ S) (hx : x ∈ S) (hy : y ∈ S) (hz : z ∈ S)
    (hxy : le x y = false) (hxz : le x z = true) (hay : tied le a y = true) : tied le a z = false := by
  by_contra haz
  simp only [tied, Bool.and_eq_true, Bool.not_eq_false] at hay haz
  have hzy : le z y = true := h.trans z hz a ha y hy haz.2 hay.1
  rw [h.trans x hx z hz y hy hxz hzy] at hxy
  cases hxy

/-- Two lists in order are the same if they have the same items, and those that are tied in the same order. -/
private theorem eq_of_ordered (h : TotalPreorderOn le S) (hxsS : ∀ a ∈ xs, a ∈ S) (hperm : xs.Perm ys)
    (hxs : xs.Pairwise fun a b => le a b = true) (hys : ys.Pairwise fun a b => le a b = true)
    (hties : ∀ a ∈ S, xs.filter (tied le a) = ys.filter (tied le a)) : xs = ys := by
  induction xs generalizing ys with
  | nil => exact hperm.nil_eq
  | cons x xs ih =>
    cases ys with
    | nil => exact absurd hperm.symm.nil_eq (by simp)
    | cons y ys =>
      obtain ⟨hxS, hxsS'⟩ := List.forall_mem_cons.mp hxsS
      have hyS : y ∈ S := hxsS y (hperm.mem_iff.mpr List.mem_cons_self)
      have hxx := h.refl hxS
      have hxy : le x y = true :=
        h.le_of_ordered hxS hxsS hxs hxx y (hperm.mem_iff.mpr List.mem_cons_self)
      have hyx : le y x = true := h.le_of_ordered hyS (fun z hz => hxsS z (hperm.mem_iff.mpr hz)) hys (h.refl hyS) x
        (hperm.mem_iff.mp List.mem_cons_self)
      -- both are the first of all that are tied with the one
      have hfirst := hties x hxS
      rw [List.filter_cons_of_pos (by simp [tied, hxx]), List.filter_cons_of_pos (by simp [tied, hxy, hyx])] at hfirst
      obtain ⟨rfl, -⟩ := List.cons.inj hfirst
      refine congrArg (x :: ·) (ih hxsS' hperm.cons_inv hxs.of_cons hys.of_cons fun a ha => ?_)
      have htie := hties a ha
      rw [List.filter_cons, List.filter_cons] at htie
      split at htie
      · exact (List.cons.inj htie).2
      · exact htie

/-- There is one stable sort of a list. -/
theorem sorted_unique (h : TotalPreorderOn le S) (hitems : ∀ a ∈ items, a ∈ S) (hxs : IsStableSort le S xs items)
    (hys : IsStableSort le S ys items) : xs = ys :=
  h.eq_of_ordered (fun a ha => hitems a (hxs.perm.mem_iff.mp ha)) (hxs.perm.trans hys.perm.symm) hxs.ordered hys.ordered
    fun a ha => (hxs.stable a ha).trans (hys.stable a ha).symm

/-- A further item goes behind all that is at most it, and before what is greater. -/
theorem insert (h : TotalPreorderOn le S) (hsort : IsStableSort le S (xs ++ ys) items) (hx : x ∈ S)
    (hys : ∀ z ∈ ys, z ∈ S) (hlower : ∀ z ∈ xs, le z x = true) (hgreater : ∀ z ∈ ys, le z x = false) :
    IsStableSort le S (xs ++ x :: ys) (items ++ [x]) where
  perm := List.perm_middle.trans ((hsort.perm.cons x).trans (List.perm_append_singleton x items).symm)
  ordered := by
    obtain ⟨hxs, hysorted, hbetween⟩ := List.pairwise_append.mp hsort.ordered
    have hle (z : α) (hz : z ∈ ys) : le x z = true := (h.total x hx z (hys z hz)).resolve_right (by simp [hgreater z hz])
    refine List.pairwise_append.mpr ⟨hxs, List.pairwise_cons.mpr ⟨hle, hysorted⟩, fun a ha b hb => ?_⟩
    rcases List.mem_cons.mp hb with rfl | hb
    · exact hlower a ha
    · exact hbetween a ha b hb
  stable := by
    intro a ha
    rw [List.filter_append, List.filter_append, ← hsort.stable a ha, List.filter_append, List.filter_cons, List.append_assoc]
    cases htied : tied le a x with
    | false => simp [htied]
    | true =>
      have hnone : ys.filter (tied le a) = [] := by
        rw [List.filter_eq_nil_iff]
        intro z hz
        simp [h.not_tied_of_not_le ha (hys z hz) hx (hys z hz) (hgreater z hz) (h.refl (hys z hz)) htied]
      simp [hnone, htied]

end TotalPreorderOn
end FlowEngine
