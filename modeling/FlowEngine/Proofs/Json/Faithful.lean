import FlowEngine.Proofs.Json.Shapes

/-! What was read of a document is written as a normal form again, and read as the same. -/
namespace FlowEngine.Shape
variable {α β : Type}

/-- The value is written as a normal form of the shape, with arrays and objects inside of each other at most so often,
and is read of it. -/
structure Survives (shape : Shape) (read : Json → Option α) (write : α → Json) (k : Nat) (a : α) : Prop where
  admits : shape.Admits (write a)
  plain : (write a).Plain k
  read : read (write a) = some a

def Faithful (shape : Shape) (read : Json → Option α) (write : α → Json) (k : Nat) : Prop :=
  ∀ ⦃v : Json⦄ ⦃a : α⦄, shape.Admits v → v.Plain k → read v = some a → shape.Survives read write k a

variable {k : Nat} {shape : Shape} {read : Json → Option α} {write : α → Json}

theorem faithful_text : Faithful .text Json.str? .str k := by
  rintro _ _ ⟨s, rfl⟩ - ⟨⟩
  exact ⟨⟨_, rfl⟩, .of_zero trivial, rfl⟩

theorem faithful_flag : Faithful .flag Json.bool? .bool k := by
  rintro _ _ ⟨b, rfl⟩ - ⟨⟩
  exact ⟨⟨_, rfl⟩, .of_zero trivial, rfl⟩

theorem faithful_natural {bound : Nat} : Faithful (.natural bound) Json.nat? .ofNat k := by
  rintro _ _ ⟨n, hn, rfl⟩ hplain ⟨⟩
  exact ⟨⟨_, hn, rfl⟩, hplain, rfl⟩

theorem faithful_integer : Faithful .integer Json.int? .ofInt k := by
  rintro _ _ ⟨n, hn, rfl⟩ hplain ⟨⟩
  exact ⟨⟨_, hn, rfl⟩, hplain, rfl⟩

theorem faithful_object : Faithful .object Json.fields? .obj k := by
  rintro _ _ ⟨m, rfl⟩ hplain ⟨⟩
  exact ⟨⟨_, rfl⟩, hplain, rfl⟩

theorem survives_text {s : String} : Survives .text Json.str? .str k s := ⟨⟨_, rfl⟩, .of_zero trivial, rfl⟩

theorem survives_flag {b : Bool} : Survives .flag Json.bool? .bool k b := ⟨⟨_, rfl⟩, .of_zero trivial, rfl⟩

theorem survives_natural {bound n : Nat} (hn : n < bound) (hbound : bound ≤ 2 ^ 64) :
    Survives (.natural bound) Json.nat? .ofNat k n :=
  ⟨⟨n, hn, rfl⟩, .of_zero ⟨by omega, by omega⟩, rfl⟩

theorem survives_noFields : Survives .object Json.fields? .obj (k + 1) [] :=
  ⟨⟨[], rfl⟩, ⟨.nil, List.forall_mem_nil _⟩, rfl⟩

theorem survives_noEntries : Survives (.keyed shape) (Json.keyed? read) (fun m => .obj (m.mapValues write)) (k + 1) [] :=
  ⟨⟨[], rfl, List.forall_mem_nil _⟩, ⟨.nil, List.forall_mem_nil _⟩, rfl⟩

theorem Faithful.list (h : Faithful shape read write k) :
    Faithful (.list shape) (Json.list? read) (fun xs => .arr (xs.map write)) (k + 1) := by
  rintro _ xs ⟨items, rfl, hitems⟩ hplain hread
  have hxs : ∀ x ∈ xs, Survives shape read write k x := fun x hx =>
    have ⟨item, hmem, hitem⟩ := exists_of_forall₂ (mapM_eq_some_iff.mp hread) hx
    h (hitems item hmem) (hplain item hmem) hitem
  refine ⟨⟨_, rfl, List.forall_mem_map.mpr fun x hx => (hxs x hx).admits⟩,
    List.forall_mem_map.mpr fun x hx => (hxs x hx).plain, Json.list?_arr fun x hx => (hxs x hx).read⟩

/-- Fields are read one by one, and keep their names. -/
theorem keyed?_eq_some_iff {m : Keyed α} {fields : Keyed Json} :
    Json.keyed? read (.obj fields) = some m ↔ Keyed.Related (fun v a => read v = some a) fields m := by
  refine mapM_eq_some_iff.trans ⟨fun h => h.imp fun field entry hentry => ?_, fun h => h.imp fun field entry hentry => ?_⟩
  · obtain ⟨a, ha, rfl⟩ := Option.map_eq_some_iff.mp hentry
    exact ⟨rfl, ha⟩
  · exact Option.map_eq_some_iff.mpr ⟨entry.2, hentry.2, by rw [hentry.1]⟩

theorem Faithful.keyed (h : Faithful shape read write k) :
    Faithful (.keyed shape) (Json.keyed? read) (fun m => .obj (m.mapValues write)) (k + 1) := by
  rintro _ m ⟨fields, rfl, hfields⟩ ⟨hascending, hplain⟩ hread
  have hrelated := keyed?_eq_some_iff.mp hread
  have hm : ∀ entry ∈ m, Survives shape read write k entry.2 := fun entry hentry =>
    have ⟨field, hmem, _, hfield⟩ := exists_of_forall₂ hrelated hentry
    h (hfields field hmem) (hplain field hmem) hfield
  exact ⟨⟨_, rfl, List.forall_mem_map.mpr fun entry hentry => (hm entry hentry).admits⟩,
    ⟨(hrelated.ascending hascending).mapValues, List.forall_mem_map.mpr fun entry hentry => (hm entry hentry).plain⟩,
    Json.keyed?_obj fun entry hentry => (hm entry hentry).read⟩

/-! Records, field by field. -/

/-- The shape of a field of a record. -/
def field? (fields : List (String × Bool × Shape)) (name : String) : Option Shape :=
  (fields.find? (·.1 == name)).map (·.2.2)

def Fits (fields : List (String × Bool × Shape)) (keepOthers : Bool) (k : Nat) (entry : String × Json) : Prop :=
  AdmitsField fields keepOthers entry.1 entry.2 ∧ entry.2.Plain k

variable {fields : List (String × Bool × Shape)} {keepOthers : Bool} {m : Keyed Json} {name : String} {v : Json}

private theorem admitsField_iff (hshape : field? fields name = some shape) :
    AdmitsField fields keepOthers name v ↔ shape.Admits v := by
  induction fields with
  | nil => cases hshape
  | cons field fields ih =>
    obtain ⟨other, required, shape'⟩ := field
    rw [AdmitsField]
    by_cases heq : other = name
    · subst heq
      obtain rfl : shape' = shape := by simpa [field?] using hshape
      simp
    · rw [field?, List.find?_cons_of_neg (by simpa using heq)] at hshape
      simp [heq, ih hshape]

/-- The entries of a normal form of a record. -/
theorem exists_fits (hadmits : (record fields keepOthers).Admits v) (hplain : v.Plain (k + 1)) :
    ∃ m : Keyed Json, v = .obj m ∧ m.Ascending ∧ ∀ entry ∈ m, Fits fields keepOthers k entry := by
  obtain ⟨m, rfl, hm, -⟩ := hadmits
  exact ⟨m, rfl, hplain.1, fun entry hentry => ⟨hm entry hentry, hplain.2 entry hentry⟩⟩

private theorem fits_of_get? (hm : ∀ entry ∈ m, Fits fields keepOthers k entry)
    (hshape : field? fields name = some shape) (hget : m.get? name = some v) : shape.Admits v ∧ v.Plain k :=
  have ⟨hadmits, hplain⟩ := hm _ (Keyed.mem_of_get? hget)
  ⟨(admitsField_iff hshape).mp hadmits, hplain⟩

theorem Survives.fits {a : α} (h : Survives shape read write k a) (hshape : field? fields name = some shape) :
    Fits fields keepOthers k (name, write a) :=
  ⟨(admitsField_iff hshape).mpr h.admits, h.plain⟩

theorem survives_of_required {a : α} (hm : ∀ entry ∈ m, Fits fields keepOthers k entry)
    (hshape : field? fields name = some shape) (h : Faithful shape read write k)
    (hread : m.required read name = some a) : Survives shape read write k a := by
  obtain ⟨v, hget, hread⟩ := Option.bind_eq_some_iff.mp hread
  obtain ⟨hadmits, hplain⟩ := fits_of_get? hm hshape hget
  exact h hadmits hplain hread

theorem survives_of_default {a default : α} (hm : ∀ entry ∈ m, Fits fields keepOthers k entry)
    (hshape : field? fields name = some shape) (h : Faithful shape read write k)
    (hdefault : Survives shape read write k default) (hread : m.withDefault read default name = some a) :
    Survives shape read write k a := by
  cases hget : m.get? name with
  | none =>
    rw [Keyed.withDefault_eq, hget] at hread
    cases hread
    exact hdefault
  | some v =>
    rw [Keyed.withDefault_eq, hget] at hread
    obtain ⟨hadmits, hplain⟩ := fits_of_get? hm hshape hget
    exact h hadmits hplain hread

theorem survives_of_optional {a : Option α} (hm : ∀ entry ∈ m, Fits fields keepOthers k entry)
    (hshape : field? fields name = some (.maybe shape)) (h : Faithful shape read write k)
    (hread : m.optional read name = some a) : ∀ b ∈ a, Survives shape read write k b := by
  rintro b rfl
  obtain ⟨v, hget, hnull, hread⟩ := Json.optional?_eq_some_some hread
  obtain ⟨hadmits, hplain⟩ := fits_of_get? hm hshape hget
  exact h (hadmits.resolve_left hnull) hplain hread

/-- A value that is left out or written as null when it is missing. -/
theorem fits_whenSome {a : Option α} (h : ∀ b ∈ a, Survives shape read write k b)
    (hshape : field? fields name = some (.maybe shape)) :
    ∀ entry ∈ Json.whenSome name a write, Fits fields keepOthers k entry := by
  cases a with
  | none => exact List.forall_mem_nil _
  | some b =>
    have hb := h b rfl
    exact List.forall_mem_singleton.mpr ⟨(admitsField_iff hshape).mpr (.inr hb.admits), hb.plain⟩

/-- A value that is left out in some cases. -/
theorem fits_unless {c : Prop} [Decidable c] (h : Fits fields keepOthers k (name, v)) :
    ∀ entry ∈ (if c then [] else [(name, v)] : List (String × Json)), Fits fields keepOthers k entry := by
  split
  · exact List.forall_mem_nil _
  · exact List.forall_mem_singleton.mpr h

theorem optional?_survivor {a : Option α} (h : ∀ b ∈ a, Survives shape read write k b) (hnull : ∀ b, write b ≠ .null) :
    Json.optional? read (a.map write) = some a :=
  Json.optional?_map (fun b hb => (h b hb).read) hnull

/-- A record survives if its entries fit and it is read of them. -/
theorem survives_record {entries : List (String × Json)} {a : α}
    (hentries : ∀ entry ∈ entries, Fits fields keepOthers k entry)
    (hrequired : ∀ field ∈ fields, field.2.1 = true → field.1 ∈ entries.map (·.1)) (hwrite : write a = .mk entries)
    (hread : read (.mk entries) = some a) : Survives (.record fields keepOthers) read write (k + 1) a := by
  have hfields := Keyed.forall_mem_ofList hentries
  refine ⟨hwrite ▸ ⟨_, rfl, fun entry hmem => (hfields entry hmem).1, fun field hfield hneeded => ?_⟩,
    hwrite ▸ ⟨Keyed.Ascending.ofList, fun entry hmem => (hfields entry hmem).2⟩, hwrite ▸ hread⟩
  exact Keyed.mem_names_ofList.mpr (hrequired field hfield hneeded)

end FlowEngine.Shape
