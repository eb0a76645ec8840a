import FlowEngine.Keyed

/-! Looking up what was stored by name. -/
namespace FlowEngine.Keyed
variable {α β : Type} {m : Keyed α} {name other : String} {value : α}

theorem get?_cons_self : get? ((name, value) :: m) name = some value := by simp [get?]

theorem get?_cons_of_ne (hne : other ≠ name) : get? ((other, value) :: m) name = m.get? name := by simp [get?, hne]

theorem get?_put : (m.put name value).get? other = if name = other then some value else m.get? other := by
  induction m with
  | nil => by_cases h : name = other <;> simp [put, get?, h]
  | cons entry rest ih =>
    obtain ⟨k, v⟩ := entry
    simp only [get?] at ih ⊢
    rw [put]
    split
    · rename_i hk
      subst hk
      by_cases h : name = other <;> simp [h]
    split
    · by_cases h : name = other <;> simp [h]
    · rename_i hk _
      by_cases h : k = other
      · subst h
        simp [hk]
      · simp [h, ih]

/-- The second of two values that are stored under a name leaves nothing of the first. -/
theorem put_put {first second : α} : (m.put name first).put name second = m.put name second := by
  induction m with
  | nil => simp [put]
  | cons entry rest ih =>
    obtain ⟨k, v⟩ := entry
    rw [put, put]
    split
    · rw [put, if_pos rfl]
    split
    · rw [put, if_pos rfl]
    · rename_i hk hlt
      rw [put, if_neg hk, if_neg hlt, ih]

theorem get?_mapValues {f : α → β} : (m.mapValues f).get? name = (m.get? name).map f := by
  rw [get?, mapValues, List.find?_map, get?, Option.map_map, Option.map_map]
  rfl

theorem mapValues_put {f : α → β} : (m.put name value).mapValues f = (m.mapValues f).put name (f value) := by
  induction m with
  | nil => rfl
  | cons entry rest ih =>
    obtain ⟨k, v⟩ := entry
    rw [put, mapValues, mapValues, List.map_cons, put]
    split
    · rfl
    split
    · rfl
    · exact congrArg ((k, f v) :: ·) ih

theorem mem_of_get? (h : m.get? name = some value) : (name, value) ∈ m := by
  obtain ⟨entry, hfound, rfl⟩ := Option.map_eq_some_iff.mp h
  have hname := List.find?_some hfound
  exact beq_iff_eq.mp hname ▸ List.mem_of_find?_eq_some hfound

theorem not_mem_names (h : m.get? name = none) : name ∉ m.names := by
  intro hmem
  obtain ⟨entry, hentry, rfl⟩ := List.mem_map.mp hmem
  have hne := List.find?_eq_none.mp (Option.map_eq_none_iff.mp h) entry hentry
  exact hne (beq_self_eq_true _)

theorem mem_names_of_get? (h : m.get? name = some value) : name ∈ m.names :=
  List.mem_map_of_mem (f := (·.1)) (mem_of_get? h)

theorem mem_names_iff : name ∈ m.names ↔ ∃ value, m.get? name = some value := by
  refine ⟨fun h => ?_, fun ⟨value, hvalue⟩ => mem_names_of_get? hvalue⟩
  cases hget : m.get? name with
  | none => exact absurd h (not_mem_names hget)
  | some value => exact ⟨value, rfl⟩

theorem mem_names_put : other ∈ (m.put name value).names ↔ other ∈ m.names ∨ other = name := by
  induction m with
  | nil => simp [put, names]
  | cons entry rest ih =>
    obtain ⟨k, v⟩ := entry
    simp only [names, List.map_cons, List.mem_cons] at ih ⊢
    rw [put]
    split
    · rename_i hk
      subst hk
      grind
    · split <;> grind

theorem get?_of_mem (hdistinct : m.names.Nodup) (hmem : (name, value) ∈ m) : m.get? name = some value := by
  induction m with
  | nil => cases hmem
  | cons entry rest ih =>
    obtain ⟨hnot, hdistinct⟩ := List.nodup_cons.mp hdistinct
    rcases List.mem_cons.mp hmem with rfl | hmem
    · simp [get?]
    · have hne : entry.1 ≠ name := by
        rintro rfl
        exact hnot (List.mem_map_of_mem (f := (·.1)) hmem)
      have hget := ih hdistinct hmem
      rw [get?] at hget ⊢
      rwa [List.find?_cons_of_neg (by simpa using hne)]

theorem get?_perm {m' : Keyed α} (hperm : m'.Perm m) (hdistinct : m.names.Nodup) : m'.get? name = m.get? name := by
  have hdistinct' : m'.names.Nodup := (hperm.map _).nodup_iff.mpr hdistinct
  refine Option.ext fun value => ⟨fun h => ?_, fun h => ?_⟩
  · exact get?_of_mem hdistinct (hperm.mem_iff.mp (mem_of_get? h))
  · exact get?_of_mem hdistinct' (hperm.mem_iff.mpr (mem_of_get? h))

theorem put_ne_nil : m.put name value ≠ [] := by
  cases m with
  | nil => simp [put]
  | cons entry rest =>
    rw [put]
    split
    · simp
    · split <;> simp

theorem get?_remove (hne : other ≠ name) : (m.remove name).get? other = m.get? other := by
  rw [remove, get?, get?, List.find?_filter]
  congr 2
  funext entry
  by_cases h : entry.1 = other <;> simp [h, hne]

@[simp] theorem get?_remove_self : (m.remove name).get? name = none := by
  rw [get?, Option.map_eq_none_iff, List.find?_eq_none]
  intro entry hentry
  simpa using (List.mem_filter.mp hentry).2

theorem filter_put {p : String × α → Bool} (hp : ∀ value, p (name, value) = false) :
    (m.put name value).filter p = m.filter p := by
  induction m with
  | nil => simp [put, hp]
  | cons entry rest ih =>
    obtain ⟨k, v⟩ := entry
    rw [put]
    split
    · rename_i heq
      simp [← heq, hp]
    · split
      · simp [List.filter_cons, hp]
      · simp only [List.filter_cons, ih]

theorem filter_remove {p : String × α → Bool} (hp : ∀ value, p (name, value) = false) :
    (m.remove name).filter p = m.filter p := by
  rw [remove, List.filter_filter]
  refine List.filter_congr fun (other, value) _ => ?_
  by_cases h : other = name
  · simp [h, hp]
  · simp [h]

end FlowEngine.Keyed
