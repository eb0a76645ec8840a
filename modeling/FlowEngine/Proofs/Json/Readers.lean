import FlowEngine.Proofs.Json.Faithful
import FlowEngine.Proofs.Json.Spelling

/-! Readers of values, and the same readers behind a shape: what is read of the normal form is what is read of the value
itself, and there is a normal form wherever something is read. -/
namespace FlowEngine.Shape
variable {α : Type} {k : Nat} {v w : Json} {a : α} {shape : Shape} {f : Json → Option α}

def Reads (shape : Shape) (f : Json → Option α) : Prop :=
  ∀ ⦃k v⦄, Json.Plain k v → (read true shape (.ofJson v)).toOption.bind f = f v

private theorem Reads.eq_of_read (h : shape.Reads f) (hv : v.Plain k) (hread : read true shape (.ofJson v) = .ok w) :
    f w = f v := by
  rw [← h hv, hread]
  rfl

private theorem Reads.exists_read (h : shape.Reads f) (hv : v.Plain k) (ha : f v = some a) :
    ∃ w, read true shape (.ofJson v) = .ok w ∧ f w = some a := by
  rw [← h hv] at ha
  cases hread : read true shape (.ofJson v) with
  | error e =>
    rw [hread] at ha
    cases ha
  | ok w =>
    rw [hread] at ha
    exact ⟨w, rfl, ha⟩

theorem reads_text : Reads .text Json.str? := by
  intro k v hv
  cases v <;> rfl

theorem reads_natural : Reads (.natural (2 ^ 64)) Json.nat? := by
  intro k v hv
  cases v with
  | num n =>
    cases n with
    | int n =>
      have hrange : -(2 ^ 63) ≤ n ∧ n < 2 ^ 64 := by cases k <;> exact hv
      change (if (decide (0 ≤ n) && decide (n < 2 ^ 64)) = true then Except.ok (Json.ofInt n)
        else Except.error ShapeFault.other).toOption.bind Json.nat? = Json.nat? (.num (.int n))
      by_cases hn : 0 ≤ n
      · rw [if_pos (by simpa using ⟨hn, hrange.2⟩)]
        rfl
      · rw [if_neg (by simp [hn])]
        change none = if n < 0 then none else some n.toNat
        rw [if_pos (not_le.mp hn)]
    | float x => rfl
  | _ => rfl

theorem reads_object : Reads .object Json.fields? := by
  intro k v hv
  cases v with
  | obj m =>
    have hread : read true .object (.ofJson (.obj m)) = .ok (.obj m) := read_ofJson .object ⟨m, rfl⟩ hv
    rw [hread]
    rfl
  | _ => rfl

private theorem toOption_map_bind {β γ : Type} {x : Except ShapeFault β} {g : β → γ} {h : γ → Option α} :
    (x.map g).toOption.bind h = x.toOption.bind fun b => h (g b) := by
  cases x <;> rfl

/-- An array whose items are read one by one. -/
theorem Reads.list (h : shape.Reads f) : Reads (.list shape) (Json.list? f) := by
  intro k v hv
  cases v with
  | arr items =>
    cases k with
    | zero => cases hv
    | succ k =>
      rw [Document.ofJson, Document.ofItems_eq_map]
      unfold read
      dsimp only
      rw [List.mapM_map, toOption_map_bind]
      exact mapM_bind_mapM fun item hmem => h (hv item hmem)
  | _ => rfl

/-- An object whose fields are read one by one, whatever their names. -/
theorem Reads.keyed (h : shape.Reads f) : Reads (.keyed shape) (Json.keyed? f) := by
  intro k v hv
  cases v with
  | obj m =>
    cases k with
    | zero => cases hv
    | succ k =>
      rw [Document.ofJson, Document.ofFields_eq_map]
      unfold read
      dsimp only
      rw [List.mapM_map, toOption_map_bind]
      have hfields : (m.mapM fun field => (read true shape (.ofJson field.2)).map fun w => (field.1, w)).toOption.bind
          (·.mapM fun field => (f field.2).map fun a => (field.1, a)) = Json.keyed? f (.obj m) := by
        refine mapM_bind_mapM fun field hmem => ?_
        rw [toOption_map_bind, ← h (hv.2 field hmem)]
        cases read true shape (.ofJson field.2) <;> rfl
      rw [← hfields]
      change ((m.mapM fun field => (read true shape (.ofJson field.2)).map fun w => (field.1, w)).toOption.bind
        fun found => Json.keyed? f (.mk found)) = _
      cases hread : m.mapM fun field => (read true shape (.ofJson field.2)).map fun w => (field.1, w) with
      | error e => rfl
      | ok found =>
        -- the names stay in their order
        have hrelated : Keyed.Related (fun v w => read true shape (.ofJson v) = .ok w) m found :=
          (mapM_eq_ok_iff.mp hread).imp fun field entry hentry => by
            obtain ⟨w, hw, rfl⟩ := map_eq_ok_iff.mp hentry
            exact ⟨rfl, hw⟩
        change Json.keyed? f (.obj (Keyed.ofList found)) = Json.keyed? f (.obj found)
        rw [(hrelated.ascending hv.1).ofList_eq]
  | _ => rfl

/-! Records. -/

/-- The known fields of the second object are the normal forms of those of the first. -/
def Normalises (fields : List (String × Bool × Shape)) (k : Nat) (m n : Keyed Json) : Prop :=
  ∀ name shape, field? fields name = some shape →
    Option.Rel (fun v w => v.Plain k ∧ read true shape (.ofJson v) = .ok w) (m.get? name) (n.get? name)

/-- The field of the object is readable, and is there if it has to be. -/
def Accepts (m : Keyed Json) (field : String × Bool × Shape) : Prop :=
  (field.2.1 = true → ∃ v, m.get? field.1 = some v) ∧
    ∀ v, m.get? field.1 = some v → ∃ w, read true field.2.2 (.ofJson v) = .ok w

variable {fields : List (String × Bool × Shape)} {m n : Keyed Json} {name : String} {needed : Bool}

theorem Normalises.required (h : Normalises fields k m n) (hf : shape.Reads f) (hshape : field? fields name = some shape) :
    n.required f name = m.required f name := by
  have hname := h name shape hshape
  rw [Keyed.required_eq, Keyed.required_eq]
  generalize m.get? name = x at hname ⊢
  generalize n.get? name = y at hname ⊢
  cases hname with
  | none => rfl
  | some hv => exact hf.eq_of_read hv.1 hv.2

theorem Normalises.withDefault (h : Normalises fields k m n) (hf : shape.Reads f) (hshape : field? fields name = some shape)
    (default : α) : n.withDefault f default name = m.withDefault f default name := by
  have hname := h name shape hshape
  rw [Keyed.withDefault_eq, Keyed.withDefault_eq]
  generalize m.get? name = x at hname ⊢
  generalize n.get? name = y at hname ⊢
  cases hname with
  | none => rfl
  | some hv => exact hf.eq_of_read hv.1 hv.2

/-- Null is read as null. -/
private theorem read_maybe (hv : v.Plain k) (hread : read true (.maybe shape) (.ofJson v) = .ok w) (hnull : v ≠ .null) :
    read true shape (.ofJson v) = .ok w := by
  cases v with
  | null => contradiction
  | _ => exact hread

theorem Normalises.optional (h : Normalises fields k m n) (hf : shape.Reads f)
    (hshape : field? fields name = some (.maybe shape)) (hnull : ¬shape.Admits .null) :
    n.optional f name = m.optional f name := by
  have hname := h name _ hshape
  rw [Keyed.optional_eq, Keyed.optional_eq]
  generalize m.get? name = x at hname ⊢
  generalize n.get? name = y at hname ⊢
  cases hname with
  | none => rfl
  | @some v w hv =>
    obtain ⟨hplain, hread⟩ := hv
    by_cases hv : v = .null
    · subst hv
      cases hread
      rfl
    · have hread := read_maybe hplain hread hv
      have hw : w ≠ .null := fun hw => hnull (hw ▸ (admits_of_read shape (Document.ofJson_plain hplain) hread).1)
      have hsome (u : Json) (hu : u ≠ .null) : Json.optional? f (some u) = (f u).map some := by
        cases u with
        | null => contradiction
        | _ => rfl
      rw [hsome v hv, hsome w hw, hf.eq_of_read hplain hread]

theorem accepts_of_required (hm : ∀ entry ∈ m, entry.2.Plain k) (hf : shape.Reads f) (h : m.required f name = some a) :
    Accepts m (name, needed, shape) := by
  obtain ⟨v, hget, ha⟩ := Option.bind_eq_some_iff.mp h
  refine ⟨fun _ => ⟨v, hget⟩, fun u hu => ?_⟩
  obtain rfl : v = u := Option.some.inj (hget.symm.trans hu)
  obtain ⟨w, hw, -⟩ := hf.exists_read (hm _ (Keyed.mem_of_get? hget)) ha
  exact ⟨w, hw⟩

theorem accepts_of_default {default : α} (hm : ∀ entry ∈ m, entry.2.Plain k) (hf : shape.Reads f)
    (h : m.withDefault f default name = some a) : Accepts m (name, false, shape) := by
  refine ⟨nofun, fun v hget => ?_⟩
  rw [Keyed.withDefault_eq, hget] at h
  obtain ⟨w, hw, -⟩ := hf.exists_read (hm _ (Keyed.mem_of_get? hget)) h
  exact ⟨w, hw⟩

theorem accepts_of_optional {a : Option α} (hm : ∀ entry ∈ m, entry.2.Plain k) (hf : shape.Reads f)
    (h : m.optional f name = some a) : Accepts m (name, false, .maybe shape) := by
  refine ⟨nofun, fun v hget => ?_⟩
  rw [Keyed.optional_eq, hget] at h
  cases v with
  | null => exact ⟨.null, rfl⟩
  | _ =>
    obtain ⟨b, hb, -⟩ := Option.map_eq_some_iff.mp h
    obtain ⟨w, hw, -⟩ := hf.exists_read (hm _ (Keyed.mem_of_get? hget)) hb
    exact ⟨w, hw⟩

private theorem readKnown_eq {lists : Bool} {d : Document} :
    readKnown lists fields name d = (field? fields name).map fun shape => read lists shape d := by
  induction fields with
  | nil => rfl
  | cons field fields ih =>
    obtain ⟨other, needed, shape⟩ := field
    rw [readKnown, field?, List.find?_cons]
    by_cases hname : other = name
    · simp [hname]
    · rw [if_neg hname, ih, beq_eq_false_iff_ne.mpr hname]
      rfl

private theorem readEntry_of_known {lists keepOthers : Bool} {d : Document} (h : field? fields name = some shape) :
    readEntry (readKnown lists fields) keepOthers name d = (read lists shape d).map some := by
  rw [readEntry, readKnown_eq, h]
  rfl

private theorem exists_of_field? (h : field? fields name = some shape) : ∃ needed, (name, needed, shape) ∈ fields := by
  obtain ⟨field, hfound, rfl⟩ := Option.map_eq_some_iff.mp h
  obtain rfl : field.1 = name := by simpa using List.find?_some hfound
  exact ⟨field.2.1, List.mem_of_find?_eq_some hfound⟩

theorem exists_field?_of_mem (h : name ∈ fields.map (·.1)) : ∃ shape, field? fields name = some shape := by
  obtain ⟨field, hfield, rfl⟩ := List.mem_map.mp h
  rw [← Option.isSome_iff_exists, field?, Option.isSome_map, List.find?_isSome]
  exact ⟨field, hfield, beq_self_eq_true _⟩

private theorem field?_of_mem (hnames : (fields.map (·.1)).Nodup) (h : (name, needed, shape) ∈ fields) :
    field? fields name = some shape := by
  induction fields with
  | nil => cases h
  | cons field fields ih =>
    obtain ⟨hnot, hnames⟩ := List.nodup_cons.mp hnames
    rw [field?, List.find?_cons]
    rcases List.mem_cons.mp h with rfl | h
    · rw [beq_self_eq_true]
      rfl
    · have hne : field.1 ≠ name := fun heq => hnot (List.mem_map.mpr ⟨_, h, heq.symm⟩)
      rw [beq_eq_false_iff_ne.mpr hne]
      exact ih hnames h

/-- The normal forms of the same fields are the same. -/
theorem Normalises.get?_eq {k' : Nat} {m' n' : Keyed Json} (h : Normalises fields k m n) (h' : Normalises fields k' m' n')
    (hshape : field? fields name = some shape) (hget : m.get? name = m'.get? name) : n.get? name = n'.get? name := by
  have hname := h name shape hshape
  have hname' := h' name shape hshape
  rw [hget] at hname
  generalize m'.get? name = x at hname hname'
  generalize n.get? name = y at hname ⊢
  generalize n'.get? name = y' at hname' ⊢
  cases hname with
  | none =>
    cases hname'
    rfl
  | some hy =>
    cases hname' with
    | some hy' => rw [Except.ok.inj (hy.2.symm.trans hy'.2)]

private theorem nodup_names_mapValues (hnodup : m.names.Nodup) : (m.mapValues Document.ofJson).names.Nodup := by
  rwa [Keyed.names, Keyed.mapValues, List.map_map]

private theorem normalises_of_readFields {found : List (String × Json)} (hnodup : m.names.Nodup)
    (hm : ∀ entry ∈ m, entry.2.Plain k)
    (h : readFields (readKnown true fields) false [] (m.mapValues Document.ofJson) = .ok found) :
    Normalises fields k m (.ofList found) := by
  have hnodup' := nodup_names_mapValues hnodup
  obtain ⟨hread, rfl⟩ := (readFields_eq_ok_iff hnodup' fun _ _ => List.not_mem_nil).mp h
  intro name shape hshape
  rw [Keyed.get?_ofList_of_nodup (names_kept.nodup hnodup'), get?_kept hnodup', Keyed.get?_mapValues]
  cases hget : m.get? name with
  | none => exact .none
  | some v =>
    have hmem := Keyed.mem_of_get? hget
    obtain ⟨o, ho⟩ := hread (name, .ofJson v) (List.mem_map_of_mem hmem)
    rw [readEntry_of_known hshape] at ho
    obtain ⟨w, hw, rfl⟩ := map_eq_ok_iff.mp ho
    rw [Option.map_some, Option.bind_some, readEntry_of_known hshape, ho]
    exact .some ⟨hm _ hmem, hw⟩

private theorem accepts_of_readFields {found : List (String × Json)} (hnames : (fields.map (·.1)).Nodup)
    (hnodup : m.names.Nodup) (hm : ∀ entry ∈ m, entry.2.Plain k)
    (h : readFields (readKnown true fields) false [] (m.mapValues Document.ofJson) = .ok found)
    (hmissing : missing? fields found = none) : ∀ field ∈ fields, Accepts m field := by
  intro field hfield
  have hname := normalises_of_readFields hnodup hm h field.1 field.2.2 (field?_of_mem hnames hfield)
  refine ⟨fun hneeded => ?_, fun v hget => ?_⟩
  · have hmem := Keyed.mem_names_ofList.mpr (missing?_eq_none_iff.mp hmissing field hfield hneeded)
    obtain ⟨w, hw⟩ := Keyed.mem_names_iff.mp hmem
    obtain ⟨v, hv, -⟩ := Keyed.exists_of_rel_right (hw ▸ hname)
    exact ⟨v, hv⟩
  · obtain ⟨w, -, hw⟩ := Keyed.exists_of_rel_left (hget ▸ hname)
    exact ⟨w, hw.2⟩

private theorem exists_readFields (hnodup : m.names.Nodup) (hm : ∀ entry ∈ m, entry.2.Plain k)
    (h : ∀ field ∈ fields, Accepts m field) :
    ∃ found, readFields (readKnown true fields) false [] (m.mapValues Document.ofJson) = .ok found ∧
      missing? fields found = none := by
  have hnodup' := nodup_names_mapValues hnodup
  have hknown {name : String} {shape : Shape} {v : Json} (hshape : field? fields name = some shape)
      (hget : m.get? name = some v) : ∃ w, readEntry (readKnown true fields) false name (.ofJson v) = .ok (some w) := by
    obtain ⟨needed, hfield⟩ := exists_of_field? hshape
    obtain ⟨w, hw⟩ := (h _ hfield).2 v hget
    rw [readEntry_of_known hshape]
    exact ⟨w, map_eq_ok_iff.mpr ⟨w, hw, rfl⟩⟩
  refine ⟨_, (readFields_eq_ok_iff hnodup' fun _ _ => List.not_mem_nil).mpr ⟨List.forall_mem_map.mpr ?_, rfl⟩,
    missing?_eq_none_iff.mpr fun field hfield hneeded => ?_⟩
  · intro entry hmem
    cases hshape : field? fields entry.1 with
    | some shape =>
      obtain ⟨w, hw⟩ := hknown hshape (Keyed.get?_of_mem hnodup hmem)
      exact ⟨some w, hw⟩
    | none =>
      rw [readEntry, readKnown_eq, hshape]
      exact ⟨none, map_eq_ok_iff.mpr ⟨_, readAny_ofJson (hm entry hmem), rfl⟩⟩
  · obtain ⟨v, hget⟩ := (h field hfield).1 hneeded
    obtain ⟨shape, hshape⟩ := exists_field?_of_mem (List.mem_map_of_mem hfield)
    obtain ⟨w, hw⟩ := hknown hshape hget
    have hkept : (kept (readKnown true fields) false (m.mapValues Document.ofJson)).get? field.1 = some w := by
      rw [get?_kept hnodup', Keyed.get?_mapValues, hget, Option.map_some, Option.bind_some, hw]
      rfl
    exact Keyed.mem_names_of_get? hkept

private theorem names_zip {names : List String} {items : List Json} :
    (Keyed.names (names.zip items)).Sublist names := by
  induction names generalizing items with
  | nil => exact .slnil
  | cons name names ih =>
    cases items with
    | nil => exact List.nil_sublist _
    | cons item items => exact ih.cons_cons name

private theorem read_table_eq_ok_iff {ds : Keyed Document} : read true (.record fields false) (.table ds) = .ok w ↔
    ∃ found, readFields (readKnown true fields) false [] ds = .ok found ∧ missing? fields found = none ∧ w = .mk found := by
  unfold read
  refine bind_eq_ok_iff.trans (exists_congr fun found => and_congr_right fun _ => ?_)
  cases missing? fields found with
  | none => simp [eq_comm]
  | some name => simp

theorem normalises_of_read (hplain : (Json.obj m).Plain (k + 1))
    (hread : read true (.record fields false) (.ofJson (.obj m)) = .ok w) : ∃ n, w = .obj n ∧ Normalises fields k m n := by
  rw [Document.ofJson, Document.ofFields_eq_map] at hread
  obtain ⟨found, hfound, -, rfl⟩ := read_table_eq_ok_iff.mp hread
  exact ⟨_, rfl, normalises_of_readFields hplain.1.nodup_names hplain.2 hfound⟩

/-- An object is read as a record if its fields are. -/
theorem exists_read_iff (hnames : (fields.map (·.1)).Nodup) (hplain : (Json.obj m).Plain (k + 1)) :
    (∃ w, read true (.record fields false) (.ofJson (.obj m)) = .ok w) ↔ ∀ field ∈ fields, Accepts m field := by
  rw [Document.ofJson, Document.ofFields_eq_map]
  constructor
  · rintro ⟨w, hread⟩
    obtain ⟨found, hfound, hmissing, -⟩ := read_table_eq_ok_iff.mp hread
    exact accepts_of_readFields hnames hplain.1.nodup_names hplain.2 hfound hmissing
  · intro haccepts
    obtain ⟨found, hfound, hmissing⟩ := exists_readFields hplain.1.nodup_names hplain.2 haccepts
    exact ⟨_, read_table_eq_ok_iff.mpr ⟨found, hfound, hmissing, rfl⟩⟩

private theorem read_list_eq_ok_iff {ds : List Document} : read true (.record fields false) (.list ds) = .ok w ↔
    ds.length ≤ fields.length ∧ ∃ found, readFields (readKnown true fields) false [] ((fields.map (·.1)).zip ds) = .ok found ∧
      missing? fields found = none ∧ w = .mk found := by
  unfold read
  dsimp only
  rw [if_neg (by decide)]
  rw [bind_eq_ok_iff, ← exists_and_left]
  refine exists_congr fun found => ?_
  rw [and_left_comm]
  refine and_congr_right fun _ => ?_
  by_cases hlength : ds.length ≤ fields.length
  · cases missing? fields found with
    | none => simp [not_lt.mpr hlength, hlength, pure, Except.pure, eq_comm]
    | some name => simp [bind, Except.bind]
  · simp [not_le.mp hlength, hlength, bind, Except.bind]

/-- What is read of the normal form is what is read of the value, if it is so of every normal form, and there is one
wherever something is read of the value. -/
private theorem toOption_bind_eq {x : Except ShapeFault Json} (hok : ∀ w, x = .ok w → f w = f v)
    (hsome : ∀ a, f v = some a → ∃ w, x = .ok w) : x.toOption.bind f = f v := by
  cases hx : x with
  | ok w => exact hok w hx
  | error e =>
    cases hv : f v with
    | none => rfl
    | some a =>
      obtain ⟨w, hw⟩ := hsome a hv
      cases hx.symm.trans hw

/-- A record that is read field by field: the reader looks at no more than the known fields, and reads all of them. -/
theorem reads_record {g : Keyed Json → Option α} (hnames : (fields.map (·.1)).Nodup)
    (hsame : ∀ {k m n}, Normalises fields k m n → g n = g m)
    (haccepts : ∀ {k m a}, (∀ entry ∈ m, Json.Plain k entry.2) → g m = some a → ∀ field ∈ fields, Accepts m field) :
    Reads (.record fields false) fun v => (v.record? (fields.map (·.1))).bind g := by
  intro k v hv
  cases v with
  | arr items =>
    cases k with
    | zero => cases hv
    | succ k =>
      have hm : ∀ entry ∈ (fields.map (·.1)).zip items, entry.2.Plain k := fun entry hmem => hv _ (List.of_mem_zip hmem).2
      have hnodup : (Keyed.names ((fields.map (·.1)).zip items)).Nodup := names_zip.nodup hnames
      have hzip : (fields.map (·.1)).zip (items.map Document.ofJson) =
          Keyed.mapValues Document.ofJson ((fields.map (·.1)).zip items) := List.zip_map_right
      rw [Document.ofJson, Document.ofItems_eq_map]
      refine toOption_bind_eq (fun w hread => ?_) fun a ha => ?_
      · obtain ⟨hlength, found, hfound, -, rfl⟩ := read_list_eq_ok_iff.mp hread
        rw [List.length_map] at hlength
        dsimp only [Json.record?]
        rw [List.length_map, if_pos hlength]
        exact hsame (normalises_of_readFields hnodup hm (hzip ▸ hfound))
      · dsimp only [Json.record?] at ha
        rw [List.length_map] at ha
        split at ha
        · rename_i hlength
          obtain ⟨found, hfound, hmissing⟩ := exists_readFields hnodup hm (haccepts hm ha)
          rw [← List.length_map Document.ofJson] at hlength
          exact ⟨_, read_list_eq_ok_iff.mpr ⟨hlength, found, hzip ▸ hfound, hmissing, rfl⟩⟩
        · cases ha
  | obj m =>
    cases k with
    | zero => cases hv
    | succ k =>
      refine toOption_bind_eq (fun w hread => ?_) fun a ha => (exists_read_iff hnames hv).mpr (haccepts hv.2 ha)
      obtain ⟨n, rfl, hnormalises⟩ := normalises_of_read hv hread
      exact hsame hnormalises
  | _ => rfl

end FlowEngine.Shape
