import FlowEngine.Proofs.Json.Shapes

/-! Documents of one value, and that the shapes read the same of all of them: the order of the fields does not count. -/
namespace FlowEngine

namespace Keyed
variable {α : Type} {m : Keyed α} {name : String}

/-- Values by name do not depend on the order of their names, as long as these are distinct. -/
theorem get?_ofList_of_nodup (h : m.names.Nodup) : (ofList m).get? name = m.get? name := by
  induction m with
  | nil => rfl
  | cons entry m ih =>
    obtain ⟨other, a⟩ := entry
    obtain ⟨hnot, hnodup⟩ := List.nodup_cons.mp h
    rw [get?_ofList_cons, ih hnodup]
    by_cases hname : other = name
    · subst hname
      have hnone : get? m other = none := by
        by_contra hsome
        obtain ⟨b, hb⟩ := Option.ne_none_iff_exists'.mp hsome
        exact hnot (mem_names_of_get? hb)
      rw [hnone, get?_cons_self, Option.none_or, if_pos rfl]
    · rw [get?_cons_of_ne hname, if_neg hname, Option.or_none]

private theorem ofList_eq_of_get? {m' : Keyed α} (hm : m.names.Nodup) (hm' : m'.names.Nodup)
    (h : ∀ name, m.get? name = m'.get? name) : ofList m = ofList m' := by
  refine Ascending.ext .ofList .ofList fun name => ?_
  rw [get?_ofList_of_nodup hm, get?_ofList_of_nodup hm', h]

end Keyed

namespace Document

/-- The document is written of the value, with arrays and objects inside of each other at most so often, and no object
names a field twice. -/
def Spells : Nat → Document → Json → Prop
  | _, scalar value text, v => value = some v ∧ v.Plain 0 ∧ text = v.str?
  | 0, list _, _ => False
  | 0, table _, _ => False
  | k + 1, list ds, v => ∃ items, v = .arr items ∧ List.Forall₂ (Spells k) ds items
  | k + 1, table ds, v => ∃ m : Keyed Json, v = .obj m ∧ m.Ascending ∧ (Keyed.names ds).Nodup ∧
      ∀ name, Option.Rel (Spells k) (Keyed.get? ds name) (m.get? name)
  | _, broken, _ => False

variable {k : Nat} {v : Json} {d d' : Document} {m : Keyed Json} {ds ds' : Keyed Document}

private theorem Spells.of_scalar {value : Option Json} {text : Option String} (hd : (scalar value text).Spells k v) :
    value = some v ∧ v.Plain 0 ∧ text = v.str? := by
  cases k <;> exact hd

theorem spells_ofJson (hv : v.Plain k) : (ofJson v).Spells k v := by
  induction k generalizing v with
  | zero =>
    cases v with
    | arr => cases hv
    | obj => cases hv
    | _ => exact ⟨rfl, hv, rfl⟩
  | succ k ih =>
    cases v with
    | arr items =>
      rw [ofJson, ofItems_eq_map]
      refine ⟨items, rfl, ?_⟩
      rw [List.forall₂_map_left_iff]
      exact List.forall₂_same.mpr fun item hmem => ih (hv item hmem)
    | obj m =>
      rw [ofJson, ofFields_eq_map]
      refine ⟨m, rfl, hv.1, ?_, Keyed.Related.get? ?_⟩
      · rw [Keyed.names, List.map_map]
        exact hv.1.nodup_names
      · rw [Keyed.Related, List.forall₂_map_left_iff]
        exact List.forall₂_same.mpr fun entry hmem => ⟨rfl, ih (hv.2 entry hmem)⟩
    | _ => exact ⟨rfl, hv, rfl⟩

theorem Spells.plain (hd : d.Spells k v) : v.Plain k := by
  induction k generalizing d v with
  | zero =>
    cases d with
    | scalar => exact hd.2.1
    | _ => cases hd
  | succ k ih =>
    cases d with
    | scalar => exact hd.2.1.of_zero
    | list ds =>
      obtain ⟨items, rfl, hitems⟩ := hd
      intro item hmem
      obtain ⟨d, -, hspells⟩ := exists_of_forall₂ hitems hmem
      exact ih hspells
    | table ds =>
      obtain ⟨m, rfl, hascending, -, hrel⟩ := hd
      refine ⟨hascending, fun field hmem => ?_⟩
      obtain ⟨d, -, hspells⟩ := Keyed.exists_of_rel_right (Keyed.get?_of_mem hascending.nodup_names hmem ▸ hrel field.1)
      exact ih hspells
    | broken => cases hd

/-- What is written of a scalar. -/
private theorem Spells.eq_scalar (hv : v.Plain 0) (hd : d.Spells k v) : d = scalar (some v) v.str? := by
  cases d with
  | scalar value text =>
    obtain ⟨rfl, -, rfl⟩ := hd.of_scalar
    rfl
  | list ds =>
    cases k with
    | zero => cases hd
    | succ k =>
      obtain ⟨items, rfl, -⟩ := hd
      cases hv
  | table ds =>
    cases k with
    | zero => cases hd
    | succ k =>
      obtain ⟨m, rfl, -⟩ := hd
      cases hv
  | broken => cases k <;> cases hd

/-- Fields that are read under their names make up the object, whatever their order. -/
private theorem toJson?_table {m : Keyed Json} {ds : Keyed Document} (hascending : m.Ascending)
    (hnodup : ds.names.Nodup)
    (hrel : ∀ name, Option.Rel (fun d v => Document.toJson? d = some v) (ds.get? name) (m.get? name)) :
    (table ds).toJson? = some (.obj m) := by
  have hvalue (field : String × Document) (hmem : field ∈ ds) : ∃ value, field.2.toJson? = some value := by
    obtain ⟨value, -, hvalue⟩ := Keyed.exists_of_rel_left (Keyed.get?_of_mem hnodup hmem ▸ hrel field.1)
    exact ⟨value, hvalue⟩
  obtain ⟨es, hes⟩ : ∃ es, Keyed.Related (fun d v => Document.toJson? d = some v) ds es :=
    exists_forall₂ fun field hmem => by
      obtain ⟨value, hvalue⟩ := hvalue field hmem
      exact ⟨(field.1, value), rfl, hvalue⟩
  have hread : fieldsToJson? ds = some es := fieldsToJson?_eq_some_iff.mpr (hes.imp fun _ _ h => ⟨h.1.symm, h.2⟩)
  have hsame : Keyed.ofList es = m := by
    refine Keyed.Ascending.ext .ofList hascending fun name => ?_
    rw [Keyed.get?_ofList_of_nodup (hes.names_eq ▸ hnodup)]
    have hentry := hes.get? name
    have hname := hrel name
    generalize Keyed.get? ds name = x at hentry hname
    generalize Keyed.get? es name = y at hentry ⊢
    generalize m.get? name = z at hname ⊢
    cases hentry with
    | none =>
      cases hname
      rfl
    | some hvalue =>
      cases hname with
      | some hvalue' => rw [Option.some.inj (hvalue.symm.trans hvalue')]
  rw [Document.toJson?, hread, Option.map_some, Json.mk, hsame]

private theorem Spells.toJson? (hd : d.Spells k v) : d.toJson? = some v := by
  induction k generalizing d v with
  | zero =>
    cases d with
    | scalar value text =>
      obtain ⟨rfl, -, -⟩ := hd
      rfl
    | _ => cases hd
  | succ k ih =>
    cases d with
    | scalar value text =>
      obtain ⟨rfl, -, -⟩ := hd
      rfl
    | list ds =>
      obtain ⟨items, rfl, hitems⟩ := hd
      rw [Document.toJson?, itemsToJson?_eq_some_iff.mpr (hitems.imp fun _ _ => ih), Option.map_some]
    | table ds =>
      obtain ⟨m, rfl, hascending, hnodup, hrel⟩ := hd
      refine toJson?_table hascending hnodup fun name => ?_
      have hname := hrel name
      generalize Keyed.get? ds name = x at hname ⊢
      generalize m.get? name = y at hname ⊢
      cases hname with
      | none => exact .none
      | some hspells => exact .some (ih hspells)
    | broken => cases hd

/-- Documents of one value under the names of one object. -/
structure Alike (k : Nat) (m : Keyed Json) (ds ds' : Keyed Document) : Prop where
  nodup : ds.names.Nodup
  nodup' : ds'.names.Nodup
  rel : ∀ name, Option.Rel (Spells k) (ds.get? name) (m.get? name)
  rel' : ∀ name, Option.Rel (Spells k) (ds'.get? name) (m.get? name)

private theorem Alike.get? (h : Alike k m ds ds') (name : String) :
    (ds.get? name = none ∧ ds'.get? name = none) ∨
      ∃ d d' v, ds.get? name = some d ∧ ds'.get? name = some d' ∧ d.Spells k v ∧ d'.Spells k v := by
  have hrel := h.rel name
  have hrel' := h.rel' name
  generalize ds.get? name = x at hrel ⊢
  generalize ds'.get? name = x' at hrel' ⊢
  generalize m.get? name = y at hrel hrel'
  cases hrel with
  | none =>
    cases hrel'
    exact .inl ⟨rfl, rfl⟩
  | some hd =>
    cases hrel' with
    | some hd' => exact .inr ⟨_, _, _, rfl, rfl, hd, hd'⟩

/-- Two documents of one value are the same scalar, or both arrays, or both objects. -/
private theorem Spells.both (hd : d.Spells k v) (hd' : d'.Spells k v) : d' = d ∨
    (∃ k' items ds ds', k = k' + 1 ∧ v = .arr items ∧ d = list ds ∧ d' = list ds' ∧
      List.Forall₂ (Spells k') ds items ∧ List.Forall₂ (Spells k') ds' items) ∨
    ∃ k' m ds ds', k = k' + 1 ∧ v = .obj m ∧ d = table ds ∧ d' = table ds' ∧ Alike k' m ds ds' := by
  cases d with
  | scalar value text =>
    obtain ⟨rfl, hv, rfl⟩ := hd.of_scalar
    exact .inl (hd'.eq_scalar hv)
  | list ds =>
    cases k with
    | zero => cases hd
    | succ k =>
      obtain ⟨items, rfl, hitems⟩ := hd
      cases d' with
      | scalar => cases hd'.of_scalar.2.1
      | list ds' =>
        obtain ⟨_, ⟨⟩, hitems'⟩ := hd'
        exact .inr (.inl ⟨k, items, ds, ds', rfl, rfl, rfl, rfl, hitems, hitems'⟩)
      | table => obtain ⟨_, ⟨⟩, -⟩ := hd'
      | broken => cases hd'
  | table ds =>
    cases k with
    | zero => cases hd
    | succ k =>
      obtain ⟨m, rfl, -, hnodup, hrel⟩ := hd
      cases d' with
      | scalar => cases hd'.of_scalar.2.1
      | list => obtain ⟨_, ⟨⟩, -⟩ := hd'
      | table ds' =>
        obtain ⟨_, ⟨⟩, -, hnodup', hrel'⟩ := hd'
        exact .inr (.inr ⟨k, m, ds, ds', rfl, rfl, rfl, rfl, hnodup, hnodup', hrel, hrel'⟩)
      | broken => cases hd'
  | broken => cases k <;> cases hd

end Document

namespace Shape
variable {lists keepOthers : Bool} {fields : List (String × Bool × Shape)} {seen : List String} {found : List (String × Json)}
  {known known' : String → Document → Option (Except ShapeFault Json)} {ds ds' : Keyed Document} {name : String}
  {d d' : Document} {k : Nat} {v w : Json}

/-- What a field of a record is read as, if it is kept. -/
def readEntry (known : String → Document → Option (Except ShapeFault Json)) (keepOthers : Bool) (name : String)
    (d : Document) : Except ShapeFault (Option Json) :=
  match known name d with
  | some outcome => outcome.map some
  | none => (readAny d).map fun value => if keepOthers then some value else none

/-- The fields of a record that are kept, where all can be read. -/
def kept (known : String → Document → Option (Except ShapeFault Json)) (keepOthers : Bool) (ds : Keyed Document) :
    Keyed Json :=
  ds.filterMap fun field => (readEntry known keepOthers field.1 field.2).toOption.join.map fun value => (field.1, value)

private theorem kept_cons {o : Option Json} (h : readEntry known keepOthers name d = .ok o) :
    kept known keepOthers ((name, d) :: ds) = (o.map fun value => (name, value)).toList ++ kept known keepOthers ds := by
  rw [kept, List.filterMap_cons, h]
  cases o <;> rfl

/-- The first field is read on its own. If the record knows it, it may not stand again. -/
private theorem readFields_cons : readFields known keepOthers seen ((name, d) :: ds) =
    if (known name d).isSome && seen.contains name then .error .other
    else do
      let o ← readEntry known keepOthers name d
      let rest ← readFields known keepOthers (if (known name d).isSome then name :: seen else seen) ds
      return (o.map fun value => (name, value)).toList ++ rest := by
  rw [readFields, readEntry]
  cases known name d with
  | none =>
    cases readAny d with
    | error e => rfl
    | ok value => cases keepOthers <;> exact bind_congr fun _ => rfl
  | some outcome =>
    rw [Option.isSome_some, Bool.true_and, if_pos rfl]
    dsimp only
    split
    · rfl
    · cases outcome <;> rfl

/-- Fields of distinct names are read one by one. -/
theorem readFields_eq_ok_iff (hnodup : ds.names.Nodup) (hseen : ∀ name ∈ ds.names, name ∉ seen) :
    readFields known keepOthers seen ds = .ok found ↔
      (∀ entry ∈ ds, ∃ o, readEntry known keepOthers entry.1 entry.2 = .ok o) ∧ found = kept known keepOthers ds := by
  induction ds generalizing seen found with
  | nil =>
    rw [readFields, Except.ok.injEq, and_iff_right (List.forall_mem_nil _), eq_comm]
    rfl
  | cons entry ds ih =>
    obtain ⟨name, d⟩ := entry
    obtain ⟨hname, hnodup⟩ := List.nodup_cons.mp hnodup
    obtain ⟨hnot, hseen⟩ := List.forall_mem_cons.mp hseen
    have hlater : ∀ other ∈ Keyed.names ds, other ∉ if (known name d).isSome then name :: seen else seen := by
      intro other hother
      have hne : other ≠ name := fun heq => hname (heq ▸ hother)
      split <;> simp [hne, hseen other hother]
    rw [readFields_cons, if_neg (by simp [hnot]), List.forall_mem_cons, bind_eq_ok_iff]
    constructor
    · rintro ⟨o, ho, h⟩
      obtain ⟨rest, hrest, h⟩ := bind_eq_ok_iff.mp h
      obtain ⟨hds, rfl⟩ := (ih hnodup hlater).mp hrest
      cases h
      exact ⟨⟨⟨o, ho⟩, hds⟩, (kept_cons ho).symm⟩
    · rintro ⟨⟨⟨o, ho⟩, hds⟩, rfl⟩
      refine ⟨o, ho, bind_eq_ok_iff.mpr ⟨_, (ih hnodup hlater).mpr ⟨hds, rfl⟩, ?_⟩⟩
      rw [kept_cons ho]
      rfl

theorem names_kept : (kept known keepOthers ds).names.Sublist ds.names := by
  induction ds with
  | nil => exact .slnil
  | cons field ds ih =>
    rw [kept, List.filterMap_cons]
    cases (readEntry known keepOthers field.1 field.2).toOption.join with
    | none => exact ih.cons _
    | some value => exact ih.cons_cons _

theorem get?_kept (hnodup : ds.names.Nodup) : (kept known keepOthers ds).get? name =
    (ds.get? name).bind fun d => (readEntry known keepOthers name d).toOption.join := by
  induction ds with
  | nil => rfl
  | cons field ds ih =>
    obtain ⟨other, d⟩ := field
    obtain ⟨hnot, hnodup⟩ := List.nodup_cons.mp hnodup
    rw [kept, List.filterMap_cons]
    by_cases hname : other = name
    · subst hname
      rw [Keyed.get?_cons_self, Option.bind_some]
      cases (readEntry known keepOthers other d).toOption.join with
      | some value => exact Keyed.get?_cons_self
      | none =>
        by_contra hsome
        obtain ⟨value, hvalue⟩ := Option.ne_none_iff_exists'.mp hsome
        exact hnot (names_kept.mem (Keyed.mem_names_of_get? hvalue))
    · rw [Keyed.get?_cons_of_ne hname]
      cases (readEntry known keepOthers other d).toOption.join with
      | some value => exact (Keyed.get?_cons_of_ne hname).trans (ih hnodup)
      | none => exact ih hnodup

private theorem missing?_congr {found found' : Keyed Json} (h : ∀ name, found'.get? name = found.get? name) :
    missing? fields found' = missing? fields found := by
  have hany (m : Keyed Json) (name : String) : m.any (fun entry => entry.1 == name) = (m.get? name).isSome := by
    rw [Bool.eq_iff_iff, List.any_eq_true, Keyed.get?, Option.isSome_map, List.find?_isSome]
  rw [missing?, missing?]
  congr 2
  funext field
  rw [hany, hany, h]

/-- What is read of objects that are alike: the same under every name. -/
private theorem kept_of_alike {m : Keyed Json} (halike : Document.Alike k m ds ds')
    (ih : ∀ name d d' v o, d.Spells k v → d'.Spells k v → readEntry known keepOthers name d = .ok o →
      readEntry known keepOthers name d' = .ok o)
    (hread : ∀ entry ∈ ds, ∃ o, readEntry known keepOthers entry.1 entry.2 = .ok o) :
    (∀ entry ∈ ds', ∃ o, readEntry known keepOthers entry.1 entry.2 = .ok o) ∧
      ∀ name, (kept known keepOthers ds').get? name = (kept known keepOthers ds).get? name := by
  have hboth (name : String) : (ds.get? name = none ∧ ds'.get? name = none) ∨ ∃ d d' o, ds.get? name = some d ∧
      ds'.get? name = some d' ∧ readEntry known keepOthers name d = .ok o ∧ readEntry known keepOthers name d' = .ok o := by
    rcases halike.get? name with hnone | ⟨d, d', v, hget, hget', hd, hd'⟩
    · exact .inl hnone
    · obtain ⟨o, ho⟩ := hread _ (Keyed.mem_of_get? hget)
      exact .inr ⟨d, d', o, hget, hget', ho, ih name d d' v o hd hd' ho⟩
  refine ⟨fun entry hmem => ?_, fun name => ?_⟩
  · have hentry := Keyed.get?_of_mem halike.nodup' hmem
    rcases hboth entry.1 with ⟨-, hnone⟩ | ⟨d, d', o, -, hget', -, ho⟩
    · rw [hentry] at hnone
      cases hnone
    · rw [hentry] at hget'
      cases hget'
      exact ⟨o, ho⟩
  · rw [get?_kept halike.nodup, get?_kept halike.nodup']
    rcases hboth name with ⟨hget, hget'⟩ | ⟨d, d', o, hget, hget', ho, ho'⟩
    · rw [hget, hget']
    · rw [hget, hget', Option.bind_some, Option.bind_some, ho, ho']

private theorem mk_eq_of_alike {m : Keyed Json} (halike : Document.Alike k m ds ds')
    (h : ∀ name, (kept known keepOthers ds').get? name = (kept known keepOthers ds).get? name) :
    Json.mk (kept known keepOthers ds') = Json.mk (kept known keepOthers ds) :=
  congrArg Json.obj (Keyed.ofList_eq_of_get? (names_kept.nodup halike.nodup') (names_kept.nodup halike.nodup) h)

/-- A record is read the same of objects that are alike. -/
private theorem record_of_alike {m : Keyed Json} (halike : Document.Alike k m ds ds')
    (ih : ∀ name d d' v o, d.Spells k v → d'.Spells k v → readEntry known keepOthers name d = .ok o →
      readEntry known keepOthers name d' = .ok o)
    (h : readFields known keepOthers [] ds = .ok found) :
    ∃ found', readFields known keepOthers [] ds' = .ok found' ∧ Json.mk found' = Json.mk found ∧
      missing? fields found' = missing? fields found := by
  obtain ⟨hread, rfl⟩ := (readFields_eq_ok_iff halike.nodup fun _ _ => List.not_mem_nil).mp h
  obtain ⟨hread', hsame⟩ := kept_of_alike halike ih hread
  exact ⟨_, (readFields_eq_ok_iff halike.nodup' fun _ _ => List.not_mem_nil).mpr ⟨hread', rfl⟩,
    mk_eq_of_alike halike hsame, missing?_congr hsame⟩

/-- An object with any names is read like a record that knows all names. -/
private theorem mapM_eq_ok_iff_kept {f : Document → Except ShapeFault Json} :
    (ds.mapM fun entry => (f entry.2).map fun v => (entry.1, v)) = .ok found ↔
      (∀ entry ∈ ds, ∃ o, readEntry (fun _ d => some (f d)) false entry.1 entry.2 = .ok o) ∧
        found = kept (fun _ d => some (f d)) false ds := by
  induction ds generalizing found with
  | nil =>
    rw [List.mapM_nil, and_iff_right (List.forall_mem_nil _)]
    exact (Except.ok.injEq _ _).to_iff.trans eq_comm
  | cons entry ds ih =>
    obtain ⟨name, d⟩ := entry
    rw [List.mapM_cons, List.forall_mem_cons, bind_eq_ok_iff]
    constructor
    · rintro ⟨_, hentry, h⟩
      obtain ⟨value, hvalue, rfl⟩ := map_eq_ok_iff.mp hentry
      obtain ⟨rest, hrest, h⟩ := bind_eq_ok_iff.mp h
      obtain ⟨hds, rfl⟩ := ih.mp hrest
      cases h
      have ho : readEntry (fun _ d => some (f d)) false name d = .ok (some value) := map_eq_ok_iff.mpr ⟨value, hvalue, rfl⟩
      exact ⟨⟨⟨_, ho⟩, hds⟩, (kept_cons ho).symm⟩
    · rintro ⟨⟨⟨o, ho⟩, hds⟩, rfl⟩
      obtain ⟨value, hvalue, rfl⟩ := map_eq_ok_iff.mp ho
      rw [kept_cons ho]
      exact ⟨(name, value), map_eq_ok_iff.mpr ⟨value, hvalue, rfl⟩, bind_eq_ok_iff.mpr ⟨_, ih.mpr ⟨hds, rfl⟩, rfl⟩⟩

/-- An object with any names is read the same of objects that are alike. -/
private theorem keyed_of_alike {m : Keyed Json} {f : Document → Except ShapeFault Json}
    (halike : Document.Alike k m ds ds') (ih : ∀ d d' v w, d.Spells k v → d'.Spells k v → f d = .ok w → f d' = .ok w)
    (h : (ds.mapM fun entry => (f entry.2).map fun v => (entry.1, v)).map .mk = .ok w) :
    (ds'.mapM fun entry => (f entry.2).map fun v => (entry.1, v)).map .mk = .ok w := by
  obtain ⟨found, hfound, rfl⟩ := map_eq_ok_iff.mp h
  obtain ⟨hread, rfl⟩ := mapM_eq_ok_iff_kept.mp hfound
  obtain ⟨hread', hsame⟩ := kept_of_alike halike (fun name d d' v o hd hd' ho => by
    obtain ⟨value, hvalue, rfl⟩ := map_eq_ok_iff.mp ho
    exact map_eq_ok_iff.mpr ⟨value, ih d d' v value hd hd' hvalue, rfl⟩) hread
  exact map_eq_ok_iff.mpr ⟨_, mapM_eq_ok_iff_kept.mpr ⟨hread', rfl⟩, mk_eq_of_alike halike hsame⟩

/-- The names that a record knows do not depend on what stands under them. -/
private theorem isSome_readKnown (d d' : Document) : (readKnown lists fields name d).isSome =
    (readKnown lists fields name d').isSome := by
  induction fields with
  | nil => rfl
  | cons field fields ih =>
    obtain ⟨other, required, shape⟩ := field
    rw [readKnown, readKnown]
    split
    · rfl
    · exact ih

/-- A record is read the same of arrays of its fields in their order. -/
private theorem readFields_zip {names : List String} {items : List Json} {ds ds' : List Document}
    (hds : List.Forall₂ (Document.Spells k) ds items) (hds' : List.Forall₂ (Document.Spells k) ds' items)
    (ih : ∀ name d d' v o, d.Spells k v → d'.Spells k v → readEntry (readKnown lists fields) keepOthers name d = .ok o →
      readEntry (readKnown lists fields) keepOthers name d' = .ok o)
    (hread : readFields (readKnown lists fields) keepOthers seen (names.zip ds) = .ok found) :
    readFields (readKnown lists fields) keepOthers seen (names.zip ds') = .ok found := by
  induction names generalizing ds ds' items seen found with
  | nil => exact hread
  | cons name names ihnames =>
    cases hds with
    | nil =>
      cases hds'
      exact hread
    | @cons d v ds items hd hds =>
      cases hds' with
      | @cons d' _ ds' _ hd' hds' =>
        rw [List.zip_cons_cons, readFields_cons] at hread ⊢
        rw [isSome_readKnown d' d]
        split at hread
        · cases hread
        · rename_i hnot
          rw [if_neg hnot]
          obtain ⟨o, ho, hread⟩ := bind_eq_ok_iff.mp hread
          obtain ⟨rest, hrest, hread⟩ := bind_eq_ok_iff.mp hread
          exact bind_eq_ok_iff.mpr ⟨o, ih name d d' v o hd hd' ho, bind_eq_ok_iff.mpr ⟨rest, ihnames hds hds' hrest, hread⟩⟩

/-- A shape of scalars reads the same of all documents of a value, since a scalar is written in one way only. -/
private theorem read_scalar_of_spells {shape : Shape} (hlist : ∀ ds, read lists shape (.list ds) ≠ .ok w)
    (htable : ∀ ds, read lists shape (.table ds) ≠ .ok w) (hd : d.Spells k v) (hd' : d'.Spells k v)
    (h : read lists shape d = .ok w) : read lists shape d' = .ok w := by
  obtain rfl | ⟨-, -, ds, -, -, -, rfl, -⟩ | ⟨-, -, ds, -, -, -, rfl, -⟩ := hd.both hd'
  · exact h
  · exact absurd h (hlist ds)
  · exact absurd h (htable ds)

mutual
/-- All documents of a value are read the same. -/
theorem read_of_spells : (shape : Shape) → ∀ {k d d' v w}, d.Spells k v → d'.Spells k v →
    read lists shape d = .ok w → read lists shape d' = .ok w
  | text, k, d, d', v, w, hd, hd', h => read_scalar_of_spells (fun _ h => by cases h) (fun _ h => by cases h) hd hd' h
  | flag, k, d, d', v, w, hd, hd', h => read_scalar_of_spells (fun _ h => by cases h) (fun _ h => by cases h) hd hd' h
  | natural bound, k, d, d', v, w, hd, hd', h => read_scalar_of_spells (fun _ h => by cases h) (fun _ h => by cases h) hd hd' h
  | integer, k, d, d', v, w, hd, hd', h => read_scalar_of_spells (fun _ h => by cases h) (fun _ h => by cases h) hd hd' h
  | number accept, k, d, d', v, w, hd, hd', h => read_scalar_of_spells (fun _ h => by cases h) (fun _ h => by cases h) hd hd' h
  | any, k, d, d', v, w, hd, hd', h => by
    unfold read at h ⊢
    rwa [readAny, hd'.toJson?, ← hd.toJson?]
  | object, k, d, d', v, w, hd, hd', h => by
    obtain rfl | ⟨k, items, ds, ds', rfl, rfl, rfl, rfl, hds, hds'⟩ | ⟨k, m, ds, ds', rfl, rfl, rfl, rfl, halike⟩ :=
      hd.both hd'
    · exact h
    · cases h
    · unfold read at h ⊢
      rwa [readAny, hd'.toJson?, ← hd.toJson?]
  | maybe shape, k, d, d', v, w, hd, hd', h => by
    obtain rfl | ⟨k, items, ds, ds', rfl, rfl, rfl, rfl, hds, hds'⟩ | ⟨k, m, ds, ds', rfl, rfl, rfl, rfl, halike⟩ :=
      hd.both hd'
    · exact h
    · exact read_of_spells shape hd hd' h
    · exact read_of_spells shape hd hd' h
  | list shape, k, d, d', v, w, hd, hd', h => by
    obtain rfl | ⟨k, items, ds, ds', rfl, rfl, rfl, rfl, hds, hds'⟩ | ⟨k, m, ds, ds', rfl, rfl, rfl, rfl, halike⟩ :=
      hd.both hd'
    · exact h
    · obtain ⟨values, hvalues, rfl⟩ := map_eq_ok_iff.mp h
      refine map_eq_ok_iff.mpr ⟨values, mapM_eq_ok_iff.mpr ?_, rfl⟩
      exact forall₂_transfer hds hds' (mapM_eq_ok_iff.mp hvalues) fun _ _ _ _ => read_of_spells shape
    · cases h
  | tuple length shape, k, d, d', v, w, hd, hd', h => by
    obtain rfl | ⟨k, items, ds, ds', rfl, rfl, rfl, rfl, hds, hds'⟩ | ⟨k, m, ds, ds', rfl, rfl, rfl, rfl, halike⟩ :=
      hd.both hd'
    · exact h
    · unfold read at h ⊢
      dsimp only at h ⊢
      rw [hds'.length_eq, ← hds.length_eq]
      split at h
      · rename_i hlength
        obtain ⟨values, hvalues, rfl⟩ := map_eq_ok_iff.mp h
        rw [if_pos hlength]
        refine map_eq_ok_iff.mpr ⟨values, mapM_eq_ok_iff.mpr ?_, rfl⟩
        exact forall₂_transfer hds hds' (mapM_eq_ok_iff.mp hvalues) fun _ _ _ _ => read_of_spells shape
      · cases h
    · cases h
  | keyed shape, k, d, d', v, w, hd, hd', h => by
    obtain rfl | ⟨k, items, ds, ds', rfl, rfl, rfl, rfl, hds, hds'⟩ | ⟨k, m, ds, ds', rfl, rfl, rfl, rfl, halike⟩ :=
      hd.both hd'
    · exact h
    · cases h
    · exact keyed_of_alike halike (fun _ _ _ _ => read_of_spells shape) h
  | record fields keepOthers, k, d, d', v, w, hd, hd', h => by
    obtain rfl | ⟨k, items, ds, ds', rfl, rfl, rfl, rfl, hds, hds'⟩ | ⟨k, m, ds, ds', rfl, rfl, rfl, rfl, halike⟩ :=
      hd.both hd'
    · exact h
    · unfold read at h ⊢
      dsimp only at h ⊢
      split at h
      · cases h
      rename_i hallowed
      obtain ⟨found, hfound, h⟩ := bind_eq_ok_iff.mp h
      rw [if_neg hallowed]
      rw [hds.length_eq, ← hds'.length_eq] at h
      exact bind_eq_ok_iff.mpr ⟨found, readFields_zip hds hds' (fun _ _ _ _ _ => readEntry_of_spells fields) hfound, h⟩
    · unfold read at h ⊢
      obtain ⟨found, hfound, h⟩ := bind_eq_ok_iff.mp h
      obtain ⟨found', hfound', hmk, hmissing⟩ := record_of_alike halike
        (fun _ _ _ _ _ => readEntry_of_spells fields) hfound
      refine bind_eq_ok_iff.mpr ⟨found', hfound', ?_⟩
      rw [hmissing, hmk]
      exact h

theorem readEntry_of_spells : (fields : List (String × Bool × Shape)) → ∀ {keepOthers name k d d' v o}, d.Spells k v →
    d'.Spells k v → readEntry (readKnown lists fields) keepOthers name d = .ok o →
      readEntry (readKnown lists fields) keepOthers name d' = .ok o
  | [], keepOthers, name, k, d, d', v, o, hd, hd', h => by
    obtain ⟨value, hvalue, rfl⟩ := map_eq_ok_iff.mp h
    rw [readAny, hd.toJson?, ← hd'.toJson?] at hvalue
    exact map_eq_ok_iff.mpr ⟨value, hvalue, rfl⟩
  | (other, required, shape) :: rest, keepOthers, name, k, d, d', v, o, hd, hd', h => by
    rw [readEntry, readKnown] at h ⊢
    by_cases hname : other = name
    · rw [if_pos hname] at h ⊢
      obtain ⟨value, hvalue, rfl⟩ := map_eq_ok_iff.mp h
      exact map_eq_ok_iff.mpr ⟨value, read_of_spells shape hd hd' hvalue, rfl⟩
    · rw [if_neg hname] at h ⊢
      exact readEntry_of_spells rest hd hd' h
end

end Shape
end FlowEngine
