import Mathlib.Data.List.Forall2
import Mathlib.Tactic.Common

/-! Computations that may fail: what sequences and lists of them come to. -/
namespace FlowEngine
variable {ε α β γ : Type} {x : Except ε α} {f : α → Except ε β} {xs : List α} {ys : List β}

theorem bind_eq_ok_iff {b : β} : (x >>= f) = .ok b ↔ ∃ a, x = .ok a ∧ f a = .ok b := by
  cases x <;> simp [bind, Except.bind]

theorem map_eq_ok_iff {f : α → β} {b : β} : x.map f = .ok b ↔ ∃ a, x = .ok a ∧ f a = b := by
  cases x <;> simp [Except.map]

theorem exists_eq_error_iff : (∃ e, x = .error e) ↔ ¬ ∃ a, x = .ok a := by
  cases x <;> simp

theorem exists_eq_ok_of_any {p : α → Bool} (h : x.toOption.any p = true) : ∃ a, x = .ok a ∧ p a = true := by
  cases x with
  | ok a => exact ⟨a, rfl, h⟩
  | error e => cases h

theorem mapM_eq_ok_iff : xs.mapM f = .ok ys ↔ List.Forall₂ (fun x y => f x = .ok y) xs ys := by
  induction xs generalizing ys with
  | nil => cases ys <;> simp [pure, Except.pure]
  | cons x xs ih =>
    simp only [List.mapM_cons, bind_eq_ok_iff, ih, List.forall₂_cons_left_iff, exists_and_left]
    refine exists_congr fun y => and_congr_right fun _ => exists_congr fun zs => and_congr_right fun _ => ?_
    simp only [pure, Except.pure, Except.ok.injEq, eq_comm]

theorem forall₂_of_mapM (h : xs.mapM f = .ok ys) : List.Forall₂ (fun x y => f x = .ok y) xs ys :=
  mapM_eq_ok_iff.mp h

theorem mapM_eq_some_iff {f : α → Option β} : xs.mapM f = some ys ↔ List.Forall₂ (fun x y => f x = some y) xs ys := by
  induction xs generalizing ys with
  | nil => cases ys <;> simp
  | cons x xs ih =>
    rw [List.mapM_cons, List.forall₂_cons_left_iff]
    constructor
    · intro h
      obtain ⟨y, hy, h⟩ := Option.bind_eq_some_iff.mp h
      obtain ⟨zs, hzs, h⟩ := Option.bind_eq_some_iff.mp h
      cases h
      exact ⟨y, zs, hy, ih.mp hzs, rfl⟩
    · rintro ⟨y, zs, hy, hzs, rfl⟩
      exact Option.bind_eq_some_iff.mpr ⟨y, hy, Option.bind_eq_some_iff.mpr ⟨zs, ih.mpr hzs, rfl⟩⟩

/-- A computation over a list has a result just if it has one on every element. -/
theorem isSome_mapM_iff {f : α → Option β} : (xs.mapM f).isSome ↔ ∀ x ∈ xs, (f x).isSome := by
  induction xs with
  | nil => simp
  | cons x xs ih =>
    rw [List.forall_mem_cons, ← ih, List.mapM_cons]
    cases f x with
    | none => simp
    | some y => cases xs.mapM f <;> simp

theorem exists_of_forall₂ {R : α → β → Prop} (h : List.Forall₂ R xs ys) {y : β} (hy : y ∈ ys) :
    ∃ x ∈ xs, R x y := by
  induction h with
  | nil => cases hy
  | cons hx _ ih =>
    cases hy with
    | head => exact ⟨_, List.mem_cons_self, hx⟩
    | tail _ hy =>
      obtain ⟨x, hmem, hx⟩ := ih hy
      exact ⟨x, List.mem_cons_of_mem _ hmem, hx⟩

theorem exists_forall₂ {R : α → β → Prop} (h : ∀ x ∈ xs, ∃ y, R x y) : ∃ ys, List.Forall₂ R xs ys := by
  induction xs with
  | nil => exact ⟨[], .nil⟩
  | cons x xs ih =>
    obtain ⟨⟨y, hy⟩, hxs⟩ := List.forall_mem_cons.mp h
    obtain ⟨ys, hys⟩ := ih hxs
    exact ⟨y :: ys, .cons hy hys⟩

/-- What holds of a list by its elements holds of any other list that stands for the same elements. -/
theorem forall₂_transfer {R : α → β → Prop} {P : α → γ → Prop} {xs' : List α} {zs : List γ} (h : List.Forall₂ R xs ys)
    (h' : List.Forall₂ R xs' ys) (hP : List.Forall₂ P xs zs) (hR : ∀ x x' y z, R x y → R x' y → P x z → P x' z) :
    List.Forall₂ P xs' zs := by
  induction h generalizing xs' zs with
  | nil =>
    cases h'
    cases hP
    exact .nil
  | cons hx _ ih =>
    cases h' with
    | cons hx' h' =>
      cases hP with
      | cons hz hP => exact .cons (hR _ _ _ _ hx hx' hz) (ih h' hP)

/-- A computation over a list comes to its end just if it does on every element. -/
theorem exists_mapM_eq_ok_iff : (∃ ys, xs.mapM f = .ok ys) ↔ ∀ x ∈ xs, ∃ y, f x = .ok y := by
  induction xs with
  | nil => simp [pure, Except.pure]
  | cons x xs ih =>
    rw [List.forall_mem_cons, ← ih]
    simp only [List.mapM_cons, bind_eq_ok_iff]
    constructor
    · rintro ⟨_, y, hy, ys, hys, -⟩
      exact ⟨⟨y, hy⟩, ys, hys⟩
    · rintro ⟨⟨y, hy⟩, ys, hys⟩
      exact ⟨_, y, hy, ys, hys, rfl⟩

/-- A computation over a list fails at the first element on which it fails. -/
theorem mapM_eq_error_iff {e : ε} : xs.mapM f = .error e ↔
    ∃ (i : Nat) (x : α), xs[i]? = some x ∧ f x = .error e ∧ ∀ j < i, ∀ y, xs[j]? = some y → ∃ b, f y = .ok b := by
  induction xs with
  | nil => simp [pure, Except.pure]
  | cons x xs ih =>
    cases hx : f x with
    | error e' =>
      rw [List.mapM_cons, hx]
      constructor
      · rintro ⟨⟩
        exact ⟨0, x, rfl, hx, fun j hj => absurd hj (Nat.not_lt_zero j)⟩
      · rintro ⟨i, y, hy, hfails, hbefore⟩
        cases i with
        | zero =>
          obtain rfl := Option.some.inj hy
          obtain rfl := Except.error.inj (hx.symm.trans hfails)
          rfl
        | succ i =>
          obtain ⟨b, hb⟩ := hbefore 0 (Nat.succ_pos i) x rfl
          rw [hx] at hb
          cases hb
    | ok b =>
      have hrest : (x :: xs).mapM f = .error e ↔ xs.mapM f = .error e := by
        rw [List.mapM_cons, hx]
        cases xs.mapM f <;> simp [bind, Except.bind, pure, Except.pure]
      rw [hrest, ih]
      constructor
      · rintro ⟨i, y, hy, hfails, hbefore⟩
        refine ⟨i + 1, y, hy, hfails, fun j hj z hz => ?_⟩
        cases j with
        | zero => exact ⟨b, Option.some.inj hz ▸ hx⟩
        | succ j => exact hbefore j (Nat.lt_of_succ_lt_succ hj) z hz
      · rintro ⟨i, y, hy, hfails, hbefore⟩
        cases i with
        | zero =>
          rw [← Option.some.inj hy, hx] at hfails
          cases hfails
        | succ i => exact ⟨i, y, hy, hfails, fun j hj z hz => hbefore (j + 1) (Nat.succ_lt_succ hj) z hz⟩

/-- Two computations on every element, one behind the other, may be done one list behind the other. -/
theorem mapM_bind_mapM {g : β → Option γ} {h : α → Option γ} (hfg : ∀ x ∈ xs, (f x).toOption.bind g = h x) :
    (xs.mapM f).toOption.bind (·.mapM g) = xs.mapM h := by
  induction xs with
  | nil => rfl
  | cons x xs ih =>
    obtain ⟨hx, hxs⟩ := List.forall_mem_cons.mp hfg
    rw [List.mapM_cons, List.mapM_cons, ← hx, ← ih hxs]
    cases f x with
    | error e => rfl
    | ok y =>
      cases xs.mapM f with
      | error e => cases hy : g y <;> simp [Except.toOption, bind, Except.bind, hy]
      | ok ys => exact List.mapM_cons

/-- What is done to every result may be done in the end. -/
theorem mapM_map {h : β → γ} : xs.mapM (fun x => (f x).map h) = (xs.mapM f).map (List.map h) := by
  induction xs with
  | nil => rfl
  | cons x xs ih =>
    rw [List.mapM_cons, List.mapM_cons, ih]
    cases f x with
    | error e => rfl
    | ok y => cases xs.mapM f <;> rfl

end FlowEngine
