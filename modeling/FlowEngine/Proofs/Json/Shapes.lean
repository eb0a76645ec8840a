import FlowEngine.Json.Shape
import FlowEngine.Proofs.Json.Plain

/-! What documents look like that are read by a shape: the normal form, and that a normal form is read as itself. -/
namespace FlowEngine.Shape

mutual
def Admits : Shape → Json → Prop
  | text, v => ∃ s, v = .str s
  | flag, v => ∃ b, v = .bool b
  | natural bound, v => ∃ n : Nat, n < bound ∧ v = .ofNat n
  | integer, v => ∃ n : Int, (-(2 ^ 63) ≤ n ∧ n < 2 ^ 63) ∧ v = .ofInt n
  | number accept, v => ∃ n : Num, accept n.toFloat = true ∧ v = .num n
  | any, _ => True
  | object, v => ∃ fields, v = .obj fields
  | maybe shape, v => v = .null ∨ Admits shape v
  | list shape, v => ∃ items, v = .arr items ∧ ∀ item ∈ items, Admits shape item
  | tuple length shape, v => ∃ items, v = .arr items ∧ items.length = length ∧ ∀ item ∈ items, Admits shape item
  | keyed shape, v => ∃ m, v = .obj m ∧ ∀ entry ∈ m, Admits shape entry.2
  | record fields keepOthers, v => ∃ m, v = .obj m ∧ (∀ entry ∈ m, AdmitsField fields keepOthers entry.1 entry.2) ∧
      ∀ field ∈ fields, field.2.1 = true → field.1 ∈ Keyed.names m

def AdmitsField : List (String × Bool × Shape) → Bool → String → Json → Prop
  | [], keepOthers, _, _ => keepOthers = true
  | (name, _, shape) :: rest, keepOthers, key, v =>
    (name = key ∧ Admits shape v) ∨ (name ≠ key ∧ AdmitsField rest keepOthers key v)
end

variable {lists keepOthers : Bool} {k : Nat} {d : Document} {v : Json} {key : String}
  {fields : List (String × Bool × Shape)} {entries : List (String × Document)} {found : List (String × Json)}
  {known : String → Document → Option (Except ShapeFault Json)} {seen : List String}

private theorem isBlank_of_plain (hd : d.Plain k) : d.isBlank = false := by
  cases d with
  | scalar value text =>
    obtain ⟨v, rfl, -, rfl⟩ := hd.of_scalar
    cases v <;> rfl
  | _ => rfl

theorem missing?_eq_none_iff :
    missing? fields found = none ↔ ∀ field ∈ fields, field.2.1 = true → field.1 ∈ found.map (·.1) := by
  simp only [missing?, Option.map_eq_none_iff, List.find?_eq_none, Bool.and_eq_true, Bool.not_eq_true', List.any_eq_false,
    not_and, beq_iff_eq, List.mem_map]
  refine forall₂_congr fun field _ => forall_congr' fun _ => ?_
  push Not
  rfl

private theorem plain_of_readAny (hd : d.Plain k) (h : readAny d = .ok v) : d.toJson? = some v ∧ v.Plain k := by
  obtain ⟨value, hvalue, hplain⟩ := hd.exists_toJson?
  rw [readAny, hvalue] at h
  cases h
  exact ⟨hvalue, hplain⟩

/-- Where the fields that were read come from. -/
theorem of_readFields (h : readFields known keepOthers seen entries = .ok found) :
    ∀ entry ∈ found, ∃ d, (entry.1, d) ∈ entries ∧ (known entry.1 d = some (.ok entry.2) ∨
      (known entry.1 d = none ∧ keepOthers = true ∧ readAny d = .ok entry.2)) := by
  induction entries generalizing seen found with
  | nil =>
    rw [readFields] at h
    cases h
    exact List.forall_mem_nil _
  | cons entry entries ih =>
    obtain ⟨key, d⟩ := entry
    have hlater {found : List (String × Json)} {seen : List String}
        (h : readFields known keepOthers seen entries = .ok found) :
        ∀ entry ∈ found, ∃ d', (entry.1, d') ∈ (key, d) :: entries ∧ (known entry.1 d' = some (.ok entry.2) ∨
          (known entry.1 d' = none ∧ keepOthers = true ∧ readAny d' = .ok entry.2)) := fun entry hentry =>
      have ⟨d', hmem, hd'⟩ := ih h entry hentry
      ⟨d', List.mem_cons_of_mem _ hmem, hd'⟩
    rw [readFields] at h
    split at h
    · rename_i outcome hknown
      split at h
      · cases h
      · simp only [bind_eq_ok_iff] at h
        obtain ⟨value, rfl, rest, hrest, h⟩ := h
        cases h
        exact List.forall_mem_cons.mpr ⟨⟨d, List.mem_cons_self, .inl hknown⟩, hlater hrest⟩
    · rename_i hknown
      simp only [bind_eq_ok_iff] at h
      obtain ⟨value, hvalue, rest, hrest, h⟩ := h
      cases h
      split
      · rename_i hkeep
        exact List.forall_mem_cons.mpr ⟨⟨d, List.mem_cons_self, .inr ⟨hknown, hkeep, hvalue⟩⟩, hlater hrest⟩
      · exact hlater hrest

private theorem admitsField_of_unknown (h : readKnown lists fields key d = none) : AdmitsField fields true key v := by
  induction fields with
  | nil => rfl
  | cons field fields ih =>
    obtain ⟨name, required, shape⟩ := field
    rw [readKnown] at h
    split at h
    · cases h
    · rename_i hne
      exact .inr ⟨hne, ih h⟩

/-- The items of a list that was read. -/
private theorem of_mapM {shape : Shape} {ds : List Document}
    (ih : ∀ {k d v}, Document.Plain k d → read lists shape d = .ok v →
    shape.Admits v ∧ v.Plain k) (hds : ∀ d ∈ ds, d.Plain k)
    (h : (ds.mapM fun d => read lists shape d).map .arr = .ok v) :
    ∃ items, v = .arr items ∧ items.length = ds.length ∧ (∀ item ∈ items, shape.Admits item) ∧
      (Json.arr items).Plain (k + 1) := by
  obtain ⟨items, hitems, rfl⟩ := map_eq_ok_iff.mp h
  have hread := forall₂_of_mapM hitems
  have hitem (item : Json) (hmem : item ∈ items) : shape.Admits item ∧ item.Plain k :=
    have ⟨d, hd, hvalue⟩ := exists_of_forall₂ hread hmem
    ih (hds d hd) hvalue
  exact ⟨items, rfl, hread.length_eq.symm, fun item hmem => (hitem item hmem).1, fun item hmem => (hitem item hmem).2⟩

/-- The fields of an object with any names that was read. -/
private theorem of_keyed {shape : Shape} (ih : ∀ {k d v}, Document.Plain k d → read lists shape d = .ok v →
    shape.Admits v ∧ v.Plain k) (hentries : ∀ entry ∈ entries, entry.2.Plain k)
    (h : (entries.mapM fun entry => (read lists shape entry.2).map fun v => (entry.1, v)).map .mk = .ok v) :
    (keyed shape).Admits v ∧ v.Plain (k + 1) := by
  obtain ⟨found, hfound, rfl⟩ := map_eq_ok_iff.mp h
  have hentry : ∀ entry ∈ found, shape.Admits entry.2 ∧ entry.2.Plain k := fun entry hmem => by
    obtain ⟨⟨name, d⟩, hd, hvalue⟩ := exists_of_forall₂ (forall₂_of_mapM hfound) hmem
    obtain ⟨value, hread, rfl⟩ := map_eq_ok_iff.mp hvalue
    exact ih (hentries _ hd) hread
  have hfields := Keyed.forall_mem_ofList hentry
  exact ⟨⟨_, rfl, fun entry hmem => (hfields entry hmem).1⟩, Keyed.Ascending.ofList,
    fun entry hmem => (hfields entry hmem).2⟩

/-- The fields of a record that were read. -/
private theorem of_record (ih : ∀ {k key d v}, Document.Plain k d → readKnown lists fields key d = some (.ok v) →
    AdmitsField fields keepOthers key v ∧ v.Plain k) (hentries : ∀ entry ∈ entries, entry.2.Plain k)
    (h : readFields (readKnown lists fields) keepOthers [] entries = .ok found)
    (hmissing : missing? fields found = none) :
    (record fields keepOthers).Admits (.mk found) ∧ (Json.mk found).Plain (k + 1) := by
  have hfound : ∀ entry ∈ found, AdmitsField fields keepOthers entry.1 entry.2 ∧ entry.2.Plain k := by
    intro entry hmem
    obtain ⟨d, hd, hknown | ⟨hunknown, rfl, hany⟩⟩ := of_readFields h entry hmem
    · exact ih (hentries _ hd) hknown
    · exact ⟨admitsField_of_unknown hunknown, (plain_of_readAny (hentries _ hd) hany).2⟩
  have hfields := Keyed.forall_mem_ofList hfound
  refine ⟨⟨_, rfl, fun entry hmem => (hfields entry hmem).1, fun field hfield hrequired => ?_⟩,
    Keyed.Ascending.ofList, fun entry hmem => (hfields entry hmem).2⟩
  exact Keyed.mem_names_ofList.mpr (missing?_eq_none_iff.mp hmissing field hfield hrequired)

/-! What is read by a shape of each kind. -/

section
variable {shape : Shape} (ih : ∀ {k d v}, Document.Plain k d → read lists shape d = .ok v → shape.Admits v ∧ v.Plain k)

private theorem admits_text (h : read lists text d = .ok v) : text.Admits v ∧ v.Plain k := by
  unfold read at h
  split at h <;> cases h
  exact ⟨⟨_, rfl⟩, .of_zero trivial⟩

private theorem admits_flag (h : read lists flag d = .ok v) : flag.Admits v ∧ v.Plain k := by
  unfold read at h
  split at h <;> cases h
  exact ⟨⟨_, rfl⟩, .of_zero trivial⟩

private theorem admits_natural {bound : Nat} (hd : d.Plain k) (h : read lists (natural bound) d = .ok v) :
    (natural bound).Admits v ∧ v.Plain k := by
  unfold read at h
  split at h
  · split at h <;> cases h
    rename_i n _ hbound
    obtain ⟨_, ⟨⟩, hn, -⟩ := hd.of_scalar
    simp only [Bool.and_eq_true, decide_eq_true_eq] at hbound
    refine ⟨⟨n.toNat, by omega, ?_⟩, .of_zero hn⟩
    rw [Json.ofNat, Json.ofInt, Int.toNat_of_nonneg hbound.1]
  · cases h

private theorem admits_integer (hd : d.Plain k) (h : read lists integer d = .ok v) : integer.Admits v ∧ v.Plain k := by
  unfold read at h
  split at h
  · split at h <;> cases h
    rename_i hbound
    obtain ⟨_, ⟨⟩, hn, -⟩ := hd.of_scalar
    simp only [Bool.and_eq_true, decide_eq_true_eq] at hbound
    exact ⟨⟨_, hbound, rfl⟩, .of_zero hn⟩
  · cases h

private theorem admits_number {accept : Float → Bool} (hd : d.Plain k) (h : read lists (number accept) d = .ok v) :
    (number accept).Admits v ∧ v.Plain k := by
  unfold read at h
  split at h
  · split at h <;> cases h
    rename_i haccept
    obtain ⟨_, ⟨⟩, hn, -⟩ := hd.of_scalar
    exact ⟨⟨_, haccept, rfl⟩, .of_zero hn⟩
  · cases h

private theorem admits_object (hd : d.Plain k) (h : read lists object d = .ok v) : object.Admits v ∧ v.Plain k := by
  unfold read at h
  split at h
  · obtain ⟨hvalue, hplain⟩ := plain_of_readAny hd h
    obtain ⟨entries, -, rfl⟩ := Option.map_eq_some_iff.mp hvalue
    exact ⟨⟨_, rfl⟩, hplain⟩
  · rw [isBlank_of_plain hd] at h
    cases h

include ih

private theorem admits_maybe (hd : d.Plain k) (h : read lists (maybe shape) d = .ok v) :
    (maybe shape).Admits v ∧ v.Plain k := by
  unfold read at h
  split at h
  · cases h
    exact ⟨.inl rfl, .of_zero trivial⟩
  · obtain ⟨hadmits, hplain⟩ := ih hd h
    exact ⟨.inr hadmits, hplain⟩

private theorem admits_list (hd : d.Plain k) (h : read lists (list shape) d = .ok v) :
    (list shape).Admits v ∧ v.Plain k := by
  unfold read at h
  split at h
  · cases k with
    | zero => cases hd
    | succ k =>
      obtain ⟨items, rfl, -, hadmits, hplain⟩ := of_mapM ih hd h
      exact ⟨⟨items, rfl, hadmits⟩, hplain⟩
  · rw [isBlank_of_plain hd] at h
    cases h

private theorem admits_tuple {length : Nat} (hd : d.Plain k) (h : read lists (tuple length shape) d = .ok v) :
    (tuple length shape).Admits v ∧ v.Plain k := by
  unfold read at h
  split at h
  · split at h
    · rename_i hlength
      cases k with
      | zero => cases hd
      | succ k =>
        obtain ⟨items, rfl, hsame, hadmits, hplain⟩ := of_mapM ih hd h
        exact ⟨⟨items, rfl, hsame.trans hlength, hadmits⟩, hplain⟩
    · cases h
  · cases h

private theorem admits_keyed (hd : d.Plain k) (h : read lists (keyed shape) d = .ok v) :
    (keyed shape).Admits v ∧ v.Plain k := by
  unfold read at h
  split at h
  · cases k with
    | zero => cases hd
    | succ k => exact of_keyed ih hd h
  · rw [isBlank_of_plain hd] at h
    cases h

end

private theorem admits_record (ih : ∀ {k key d v}, Document.Plain k d → readKnown lists fields key d = some (.ok v) →
    AdmitsField fields keepOthers key v ∧ v.Plain k) (hd : d.Plain k) (h : read lists (record fields keepOthers) d = .ok v) :
    (record fields keepOthers).Admits v ∧ v.Plain k := by
  unfold read at h
  split at h
  · cases k with
    | zero => cases hd
    | succ k =>
      simp only [bind_eq_ok_iff] at h
      obtain ⟨found, hfound, h⟩ := h
      cases hmissing : missing? fields found with
      | some name =>
        rw [hmissing] at h
        cases h
      | none =>
        rw [hmissing] at h
        cases h
        exact of_record ih hd hfound hmissing
  · cases k with
    | zero => cases hd
    | succ k =>
      dsimp only at h
      split at h
      · cases h
      simp only [bind_eq_ok_iff] at h
      obtain ⟨found, hfound, h⟩ := h
      split at h
      · cases h
      · rename_i hmissing
        cases h
        rw [Bool.or_eq_true, not_or, Option.not_isSome_iff_eq_none] at hmissing
        exact of_record ih (fun entry hentry => hd _ (List.of_mem_zip hentry).2) hfound hmissing.2
  · rw [isBlank_of_plain hd] at h
    cases h

mutual
/-- What is read is a normal form, and is as plain as the document. -/
theorem admits_of_read : (shape : Shape) → ∀ {k d v}, Document.Plain k d → read lists shape d = .ok v →
    shape.Admits v ∧ v.Plain k
  | text, _, _, _, _, h => admits_text h
  | flag, _, _, _, _, h => admits_flag h
  | natural _, _, _, _, hd, h => admits_natural hd h
  | integer, _, _, _, hd, h => admits_integer hd h
  | number _, _, _, _, hd, h => admits_number hd h
  | any, _, _, _, hd, h => by
    rw [read_any] at h
    exact ⟨trivial, (plain_of_readAny hd h).2⟩
  | object, _, _, _, hd, h => admits_object hd h
  | maybe shape, _, _, _, hd, h => admits_maybe (admits_of_read shape) hd h
  | list shape, _, _, _, hd, h => admits_list (admits_of_read shape) hd h
  | tuple _ shape, _, _, _, hd, h => admits_tuple (admits_of_read shape) hd h
  | keyed shape, _, _, _, hd, h => admits_keyed (admits_of_read shape) hd h
  | record fields _, _, _, _, hd, h => admits_record (admitsField_of_readKnown fields) hd h

theorem admitsField_of_readKnown : (fields : List (String × Bool × Shape)) → ∀ {keepOthers k key d v}, Document.Plain k d →
    readKnown lists fields key d = some (.ok v) → AdmitsField fields keepOthers key v ∧ v.Plain k
  | [], keepOthers, k, key, d, v, hd, h => by
    rw [readKnown] at h
    cases h
  | (name, required, shape) :: rest, keepOthers, k, key, d, v, hd, h => by
    rw [readKnown] at h
    split at h
    · rename_i heq
      obtain ⟨hadmits, hplain⟩ := admits_of_read shape hd (Option.some.inj h)
      exact ⟨.inl ⟨heq, hadmits⟩, hplain⟩
    · rename_i hne
      obtain ⟨hadmits, hplain⟩ : AdmitsField rest keepOthers key v ∧ v.Plain k := admitsField_of_readKnown rest hd h
      exact ⟨.inr ⟨hne, hadmits⟩, hplain⟩
end

/-! Normal forms are read as themselves. -/

theorem readAny_ofJson (hv : v.Plain k) : readAny (.ofJson v) = .ok v := by
  rw [readAny, Document.toJson?_ofJson hv]

private theorem mapM_ofJson {shape : Shape} {items : List Json}
    (h : ∀ item ∈ items, read lists shape (.ofJson item) = .ok item) :
    ((items.map .ofJson).mapM fun d => read lists shape d).map Json.arr = .ok (.arr items) := by
  refine map_eq_ok_iff.mpr ⟨items, mapM_eq_ok_iff.mpr ?_, rfl⟩
  rw [List.forall₂_map_left_iff]
  exact List.forall₂_same.mpr h

/-- The fields of a normal form of a record, in their order. -/
private theorem readFields_ofJson {m : Keyed Json} (hm : m.Ascending) (hseen : ∀ entry ∈ m, entry.1 ∉ seen)
    (h : ∀ entry ∈ m, readKnown lists fields entry.1 (.ofJson entry.2) = some (.ok entry.2) ∨
      (readKnown lists fields entry.1 (.ofJson entry.2) = none ∧ keepOthers = true ∧
        readAny (.ofJson entry.2) = .ok entry.2)) :
    readFields (readKnown lists fields) keepOthers seen (m.map fun entry => (entry.1, .ofJson entry.2)) = .ok m := by
  induction m generalizing seen with
  | nil => rfl
  | cons entry m ih =>
    obtain ⟨hlt, hm⟩ := List.pairwise_cons.mp hm
    obtain ⟨hentry, hmseen⟩ := List.forall_mem_cons.mp hseen
    obtain ⟨hfield, hfields⟩ := List.forall_mem_cons.mp h
    have hrest {seen : List String} (hseen : ∀ entry ∈ m, entry.1 ∉ seen) := ih hm hseen hfields
    rw [List.map_cons, readFields]
    rcases hfield with hknown | ⟨hunknown, rfl, hany⟩
    · rw [hknown]
      dsimp only
      rw [if_neg (by simpa using hentry), hrest]
      · rfl
      · intro other hother
        rw [List.mem_cons, not_or]
        exact ⟨(ne_of_lt (hlt other hother)).symm, hmseen other hother⟩
    · rw [hunknown]
      dsimp only
      rw [hany, hrest hmseen]
      rfl

mutual
theorem read_ofJson : (shape : Shape) → ∀ {k v}, shape.Admits v → Json.Plain k v → read lists shape (.ofJson v) = .ok v
  | text, k, v, h, hv => by
    obtain ⟨s, rfl⟩ := h
    rfl
  | flag, k, v, h, hv => by
    obtain ⟨b, rfl⟩ := h
    rfl
  | natural bound, k, v, h, hv => by
    obtain ⟨n, hn, rfl⟩ := h
    have hbound : (decide (0 ≤ (n : Int)) && decide ((n : Int) < bound)) = true := by simpa using hn
    exact if_pos hbound
  | integer, k, v, h, hv => by
    obtain ⟨n, hn, rfl⟩ := h
    have hbound : (decide (-(2 ^ 63) ≤ n) && decide (n < 2 ^ 63)) = true := by simpa using hn
    exact if_pos hbound
  | number accept, k, v, h, hv => by
    obtain ⟨n, haccept, rfl⟩ := h
    exact if_pos haccept
  | any, k, v, h, hv => by
    rw [read_any]
    exact readAny_ofJson hv
  | object, k, v, h, hv => by
    obtain ⟨m, rfl⟩ := h
    have hread := readAny_ofJson hv
    rw [Document.ofJson] at hread ⊢
    exact hread
  | maybe shape, k, v, h, hv => by
    rcases h with rfl | h
    · rfl
    · have hread := read_ofJson shape h hv
      cases v with
      | null => rfl
      | _ => exact hread
  | list shape, k, v, h, hv => by
    obtain ⟨items, rfl, hitems⟩ := h
    cases k with
    | zero => cases hv
    | succ k =>
      rw [Document.ofJson, Document.ofItems_eq_map]
      exact mapM_ofJson fun item hmem => read_ofJson shape (hitems item hmem) (hv item hmem)
  | tuple length shape, k, v, h, hv => by
    obtain ⟨items, rfl, hlength, hitems⟩ := h
    cases k with
    | zero => cases hv
    | succ k =>
      rw [Document.ofJson, Document.ofItems_eq_map]
      refine (if_pos ((List.length_map _).trans hlength)).trans ?_
      exact mapM_ofJson fun item hmem => read_ofJson shape (hitems item hmem) (hv item hmem)
  | keyed shape, k, v, h, hv => by
    obtain ⟨m, rfl, hm⟩ := h
    cases k with
    | zero => cases hv
    | succ k =>
      rw [Document.ofJson, Document.ofFields_eq_map]
      refine map_eq_ok_iff.mpr ⟨m, mapM_eq_ok_iff.mpr ?_, congrArg Json.obj hv.1.ofList_eq⟩
      rw [List.forall₂_map_left_iff]
      refine List.forall₂_same.mpr fun entry hmem => ?_
      exact map_eq_ok_iff.mpr ⟨entry.2, read_ofJson shape (hm entry hmem) (hv.2 entry hmem), rfl⟩
  | record fields keepOthers, k, v, h, hv => by
    obtain ⟨m, rfl, hm, hrequired⟩ := h
    cases k with
    | zero => cases hv
    | succ k =>
      have hfields := readFields_ofJson hv.1 (fun _ _ => List.not_mem_nil)
        fun entry hmem => readKnown_ofJson fields (hm entry hmem) (hv.2 entry hmem)
      have hmissing : missing? fields m = none := missing?_eq_none_iff.mpr hrequired
      rw [Document.ofJson, Document.ofFields_eq_map]
      unfold read
      refine bind_eq_ok_iff.mpr ⟨m, hfields, ?_⟩
      rw [hmissing]
      exact congrArg (fun m => Except.ok (Json.obj m)) hv.1.ofList_eq

theorem readKnown_ofJson : (fields : List (String × Bool × Shape)) → ∀ {keepOthers key k v},
    AdmitsField fields keepOthers key v → Json.Plain k v → readKnown lists fields key (.ofJson v) = some (.ok v) ∨
      (readKnown lists fields key (.ofJson v) = none ∧ keepOthers = true ∧ readAny (.ofJson v) = .ok v)
  | [], keepOthers, key, k, v, h, hv => .inr ⟨by rw [readKnown], h, readAny_ofJson hv⟩
  | (name, required, shape) :: rest, keepOthers, key, k, v, h, hv => by
    rw [readKnown]
    rcases h with ⟨rfl, h⟩ | ⟨hne, h⟩
    · rw [if_pos rfl, read_ofJson shape h hv]
      exact .inl rfl
    · rw [if_neg hne]
      exact readKnown_ofJson rest h hv
end

end FlowEngine.Shape
