import FlowEngine.Json.Order
import FlowEngine.Proofs.Keyed

/-! Dotted paths as lenses. A path leads from name to name. What is written at its end is read there, of two writes the
second counts, and a path that parts from it leads where it led before, unless the write had to clear its way of something
that is no object. -/
namespace FlowEngine

/-! Paths and the names on them. -/

namespace Text
variable {path : String} {names : List String}

private theorem splitAtChar_eq (d : Char) (cs : List Char) : splitAtChar d cs = cs.splitOn d := by
  induction cs with
  | nil => rw [splitAtChar, List.splitOn_nil]
  | cons c cs ih =>
    rw [splitAtChar, List.splitOn_cons_eq_if_modifyHead, ih]
    split
    · rfl
    · cases h : cs.splitOn d with
      | nil => exact absurd h (List.splitOn_ne_nil d cs)
      | cons piece rest => rfl

private theorem not_mem_of_mem_splitOn {d : Char} {cs piece : List Char} (h : piece ∈ cs.splitOn d) : d ∉ piece := by
  induction cs generalizing piece with
  | nil =>
    rw [List.splitOn_nil, List.mem_singleton] at h
    simp [h]
  | cons c cs ih =>
    rw [List.splitOn_cons_eq_if_modifyHead] at h
    by_cases hc : c = d
    · rw [if_pos (beq_iff_eq.mpr hc), List.mem_cons] at h
      rcases h with rfl | h
      · exact List.not_mem_nil
      · exact ih h
    · rw [if_neg (by simpa using hc)] at h
      cases hsplit : cs.splitOn d with
      | nil => exact absurd hsplit (List.splitOn_ne_nil d cs)
      | cons first rest =>
        rw [hsplit, List.modifyHead_cons, List.mem_cons] at h
        rcases h with rfl | h
        · rw [List.mem_cons, not_or]
          exact ⟨Ne.symm hc, ih (hsplit ▸ List.mem_cons_self)⟩
        · exact ih (hsplit ▸ List.mem_cons_of_mem _ h)

theorem pathSegments_ne_nil (path : String) : pathSegments path ≠ [] := by
  rw [pathSegments, splitAtChar_eq, Ne, List.map_eq_nil_iff]
  exact List.splitOn_ne_nil _ _

private theorem not_mem_of_mem_pathSegments {name : String} (h : name ∈ pathSegments path) : '.' ∉ name.toList := by
  rw [pathSegments, splitAtChar_eq] at h
  obtain ⟨piece, hpiece, rfl⟩ := List.mem_map.mp h
  rw [String.toList_ofList]
  exact not_mem_of_mem_splitOn hpiece

private theorem intercalate_pathSegments (path : String) : ".".intercalate (pathSegments path) = path := by
  rw [← String.toList_inj, String.toList_intercalate, pathSegments, splitAtChar_eq, List.map_map]
  have htexts : String.toList ∘ String.ofList = id := funext fun _ => String.toList_ofList
  rw [htexts, List.map_id]
  exact List.intercalate_splitOn '.'

theorem pathSegments_intercalate (hnames : names ≠ []) (hdots : ∀ name ∈ names, '.' ∉ name.toList) :
    pathSegments (".".intercalate names) = names := by
  have hpieces : ∀ piece ∈ names.map String.toList, '.' ∉ piece := by simpa using hdots
  rw [pathSegments, splitAtChar_eq, String.toList_intercalate]
  change (List.splitOn '.' (['.'].intercalate _)).map String.ofList = names
  rw [List.splitOn_intercalate '.' hpieces (by simpa using hnames), List.map_map]
  simp

/-- The names that a path leads through. The empty path leads through none. -/
def pathNames (path : String) : List String := if path.isEmpty then [] else pathSegments path

theorem pathNames_of_ne (h : path ≠ "") : pathNames path = pathSegments path := if_neg (by simpa using h)

private theorem pathNames_intercalate (hnames : ∀ name ∈ names, name ≠ "" ∧ '.' ∉ name.toList) :
    pathNames (".".intercalate names) = names := by
  cases names with
  | nil => rfl
  | cons name rest =>
    have hsegments : pathSegments (".".intercalate (name :: rest)) = name :: rest :=
      pathSegments_intercalate (List.cons_ne_nil _ _) fun other hother => (hnames other hother).2
    have hne : ".".intercalate (name :: rest) ≠ "" := by
      intro hempty
      rw [hempty] at hsegments
      exact (hnames name List.mem_cons_self).1 (List.cons.inj hsegments).1.symm
    rw [pathNames_of_ne hne, hsegments]

/-- What is left of a path without its empty names. -/
def tidyPath (path : String) : String := ".".intercalate ((pathSegments path).filter fun name => !name.isEmpty)

private theorem pathNames_tidyPath (path : String) :
    pathNames (tidyPath path) = (pathSegments path).filter fun name => !name.isEmpty := by
  apply pathNames_intercalate
  intro name hname
  obtain ⟨hmem, hfull⟩ := List.mem_filter.mp hname
  exact ⟨by simpa using hfull, not_mem_of_mem_pathSegments hmem⟩

theorem tidyPath_of_full (h : ∀ name ∈ pathSegments path, name ≠ "") : tidyPath path = path := by
  have hall : ∀ name ∈ pathSegments path, (!name.isEmpty) = true := by simpa using h
  rw [tidyPath, List.filter_eq_self.mpr hall, intercalate_pathSegments]

private theorem ne_empty_of_pathSegments (h : ∀ name ∈ pathSegments path, name ≠ "") : path ≠ "" := by
  rintro rfl
  exact h "" List.mem_cons_self rfl

end Text

/-! Values at the end of names. -/

namespace Json
variable {fields : Keyed Json} {name other : String} {names others rest : List String} {value first second : Json}

def follow (value : Json) (names : List String) : Option Json := names.foldlM atPath?.step value

@[simp] theorem follow_nil : value.follow [] = some value := rfl

@[simp] theorem follow_obj_cons : (obj fields).follow (name :: names) = (fields.get? name).bind (·.follow names) := by
  rw [follow, List.foldlM_cons]
  rfl

theorem atPath?_eq (value : Json) (path : String) : value.atPath? path = value.follow (Text.pathNames path) := by
  rw [atPath?, Text.pathNames]
  split <;> rfl

/-- What is under a name, if it is an object. -/
def fieldsUnder (fields : Keyed Json) (name : String) : Keyed Json :=
  match fields.get? name with
  | some (.obj inner) => inner
  | _ => []

private theorem putAt_cons (h : rest ≠ []) :
    putAt fields value (name :: rest) = fields.put name (.obj (putAt (fieldsUnder fields name) value rest)) := by
  cases rest with
  | nil => exact absurd rfl h
  | cons next rest => rfl

private theorem fieldsUnder_put {inner : Keyed Json} : fieldsUnder (fields.put name (.obj inner)) name = inner := by
  rw [fieldsUnder, Keyed.get?_put, if_pos rfl]

private theorem follow_putAt (hnames : names ≠ []) : (obj (putAt fields value names)).follow names = some value := by
  induction names generalizing fields with
  | nil => exact absurd rfl hnames
  | cons name rest ih =>
    by_cases hrest : rest = []
    · subst hrest
      rw [putAt, follow_obj_cons, Keyed.get?_put, if_pos rfl]
      rfl
    · rw [putAt_cons hrest, follow_obj_cons, Keyed.get?_put, if_pos rfl]
      exact ih hrest

private theorem putAt_putAt : putAt (putAt fields first names) second names = putAt fields second names := by
  induction names generalizing fields with
  | nil => rfl
  | cons name rest ih =>
    by_cases hrest : rest = []
    · subst hrest
      rw [putAt, putAt, putAt, Keyed.put_put]
    · rw [putAt_cons hrest, putAt_cons hrest, putAt_cons hrest, fieldsUnder_put, ih, Keyed.put_put]

def Clear (fields : Keyed Json) (names : List String) : Prop :=
  ∀ before value, before <+: names → before ≠ names → (obj fields).follow before = some value → value.isObject = true

private theorem Clear.under (h : Clear fields (name :: rest)) (hrest : rest ≠ []) :
    fields.get? name = none ∨ ∃ inner, fields.get? name = some (.obj inner) ∧ Clear inner rest := by
  cases hget : fields.get? name with
  | none => exact .inl rfl
  | some value =>
    have hvalue := h [name] value ((List.cons_prefix_cons).mpr ⟨rfl, List.nil_prefix⟩) (by simpa using hrest.symm)
      (by simp [hget])
    cases value with
    | obj inner =>
      refine .inr ⟨inner, rfl, fun before value hbefore hne hfollow => ?_⟩
      refine h (name :: before) value (List.cons_prefix_cons.mpr ⟨rfl, hbefore⟩) (by simpa using hne) ?_
      rw [follow_obj_cons, hget]
      exact hfollow
    | _ => cases hvalue

private theorem clear_nil : Clear [] names := by
  intro before value hbefore hne hfollow
  cases before with
  | nil =>
    cases hfollow
    rfl
  | cons name before => cases hfollow

/-- Names that part from those of a write lead where they led before. -/
private theorem follow_putAt_of_parted (hclear : Clear fields names) (hparts : ¬ others <+: names)
    (hparts' : ¬ names <+: others) : (obj (putAt fields value names)).follow others = (obj fields).follow others := by
  induction names generalizing fields others with
  | nil => exact absurd List.nil_prefix hparts'
  | cons name rest ih =>
    cases others with
    | nil => exact absurd List.nil_prefix hparts
    | cons other others =>
      by_cases hname : name = other
      · subst hname
        rw [List.cons_prefix_cons, not_and] at hparts hparts'
        replace hparts := hparts rfl
        replace hparts' := hparts' rfl
        have hrest : rest ≠ [] := by
          rintro rfl
          exact hparts' List.nil_prefix
        rw [putAt_cons hrest, follow_obj_cons, follow_obj_cons, Keyed.get?_put, if_pos rfl, Option.bind_some, fieldsUnder]
        rcases hclear.under hrest with hnone | ⟨inner, hinner, hclear⟩
        · rw [hnone, ih clear_nil hparts hparts']
          -- nothing was there, and the new object has nothing off the path
          cases others with
          | nil => exact absurd List.nil_prefix hparts
          | cons next others => rfl
        · rw [hinner]
          exact ih hclear hparts hparts'
      · have hget : (putAt fields value (name :: rest)).get? other = fields.get? other := by
          by_cases hrest : rest = []
          · rw [hrest, putAt, Keyed.get?_put, if_neg hname]
          · rw [putAt_cons hrest, Keyed.get?_put, if_neg hname]
        rw [follow_obj_cons, follow_obj_cons, hget]

/-- A write passes over empty names and a read does not: in an object that had no fields it finds nothing. -/
private theorem follow_putAt_of_mem_empty {s : String} (h : "" ∈ names) :
    (obj (putAt [] (str s) (names.filter fun name => !name.isEmpty))).follow names = none := by
  induction names with
  | nil => cases h
  | cons name rest ih =>
    by_cases hname : name = ""
    · subst hname
      rw [List.filter_cons_of_neg (by simp), follow_obj_cons]
      cases hkept : rest.filter fun name => !name.isEmpty with
      | nil => rfl
      | cons first kept =>
        have hfirst : first ≠ "" := by
          have hmem : first ∈ rest.filter fun name => !name.isEmpty := hkept ▸ List.mem_cons_self
          simpa using (List.mem_filter.mp hmem).2
        have hget : (putAt [] (str s) (first :: kept)).get? "" = none := by
          by_cases hkept : kept = []
          · rw [hkept, putAt, Keyed.get?_put, if_neg hfirst]
            rfl
          · rw [putAt_cons hkept, Keyed.get?_put, if_neg hfirst]
            rfl
        rw [hget]
        rfl
    · have hrest : "" ∈ rest := (List.mem_cons.mp h).resolve_left (Ne.symm hname)
      rw [List.filter_cons_of_pos (by simpa using hname), follow_obj_cons]
      by_cases hkept : (rest.filter fun name => !name.isEmpty) = []
      · rw [hkept, putAt, Keyed.get?_put, if_pos rfl]
        cases rest with
        | nil => cases hrest
        | cons next rest => rfl
      · rw [putAt_cons hkept, Keyed.get?_put, if_pos rfl]
        exact ih hrest

/-! Writing and reading at paths. -/

section
variable {root : Keyed Json} {path : String}

private theorem putAtPath_eq (root : Keyed Json) (path : String) (value : Json) :
    putAtPath root path value = putAt root value (Text.pathNames (Text.tidyPath path)) := by
  rw [putAtPath, Text.pathNames_tidyPath]

/-- What is written at a path is read at what is left of it without its empty names. -/
theorem atPath?_tidyPath (h : ∃ name ∈ Text.pathSegments path, name ≠ "") :
    (obj (putAtPath root path value)).atPath? (Text.tidyPath path) = some value := by
  rw [putAtPath_eq, atPath?_eq]
  apply follow_putAt
  obtain ⟨name, hname, hfull⟩ := h
  rw [Text.pathNames_tidyPath]
  exact List.ne_nil_of_mem (List.mem_filter.mpr ⟨hname, by simpa using hfull⟩)

theorem atPath?_of_mem_empty {s : String} (h : "" ∈ Text.pathSegments path) (hpath : path ≠ "") :
    (obj (putAtPath [] path (str s))).atPath? path = none := by
  rw [atPath?_eq, Text.pathNames_of_ne hpath]
  exact follow_putAt_of_mem_empty h

private theorem clear_of_atPath? (hpath : ∀ name ∈ Text.pathSegments path, name ≠ "")
    (h : ∀ before value, Text.pathNames before <+: Text.pathNames path → before ≠ path →
      (obj root).atPath? before = some value → value.isObject = true) : Clear root (Text.pathNames path) := by
  intro before value hbefore hne hfollow
  have hsegments := Text.pathNames_of_ne (Text.ne_empty_of_pathSegments hpath)
  have hnames : ∀ name ∈ before, name ≠ "" ∧ '.' ∉ name.toList := fun name hname => by
    have hmem : name ∈ Text.pathSegments path := hsegments ▸ hbefore.subset hname
    exact ⟨hpath name hmem, Text.not_mem_of_mem_pathSegments hmem⟩
  have hback := Text.pathNames_intercalate hnames
  refine h (".".intercalate before) value (by rwa [hback]) ?_ (by rwa [atPath?_eq, hback])
  intro hsame
  rw [hsame] at hback
  exact hne hback.symm

/-- Dotted paths without empty names are lenses. What is written at one is read there, and the second of two writes leaves
nothing of the first. What other paths lead to stays, if neither leads on from the other and the write meets with objects
only on its way. -/
theorem dotted_paths_are_lenses (root : Keyed Json) (path : String) (hpath : ∀ name ∈ Text.pathSegments path, name ≠ "")
    (first second : Json) :
    (obj (putAtPath root path first)).atPath? path = some first ∧
      putAtPath (putAtPath root path first) path second = putAtPath root path second ∧
      ∀ other, ¬ Text.pathNames other <+: Text.pathNames path → ¬ Text.pathNames path <+: Text.pathNames other →
        (∀ before value, Text.pathNames before <+: Text.pathNames path → before ≠ path →
          (obj root).atPath? before = some value → value.isObject = true) →
        (obj (putAtPath root path first)).atPath? other = (obj root).atPath? other := by
  have htidy := Text.tidyPath_of_full hpath
  refine ⟨?_, ?_, fun other hparts hparts' hobjects => ?_⟩
  · obtain ⟨name, hname⟩ := List.exists_mem_of_ne_nil _ (Text.pathSegments_ne_nil path)
    have hread : (obj (putAtPath root path first)).atPath? (Text.tidyPath path) = some first :=
      atPath?_tidyPath ⟨name, hname, hpath name hname⟩
    rwa [htidy] at hread
  · rw [putAtPath_eq, putAtPath_eq, putAtPath_eq]
    exact putAt_putAt
  · rw [putAtPath_eq, htidy, atPath?_eq, atPath?_eq]
    exact follow_putAt_of_parted (clear_of_atPath? hpath hobjects) hparts hparts'

theorem dotted_paths_are_lenses_siblings :
    let root : Keyed Json := [("a", .obj [("b", .obj []), ("c", .bool true)])]
    (obj (putAtPath root "a.b" (.str "x"))).atPath? "a.b" = some (.str "x") ∧
      putAtPath (putAtPath root "a.b" (.str "x")) "a.b" .null = putAtPath root "a.b" .null ∧
      (obj (putAtPath root "a.b" (.str "x"))).atPath? "a.c" = (obj root).atPath? "a.c" := by
  intro root
  have hpath : ∀ name ∈ Text.pathSegments "a.b", name ≠ "" := by decide +kernel
  obtain ⟨hread, htwice, hapart⟩ := dotted_paths_are_lenses root "a.b" hpath (.str "x") .null
  refine ⟨hread, htwice, hapart "a.c" (by decide +kernel) (by decide +kernel) fun before value hbefore _ hvalue => ?_⟩
  have hnames : Text.pathNames "a.b" = ["a", "b"] := by decide +kernel
  simp only [hnames, List.prefix_cons_iff, List.prefix_nil] at hbefore
  rw [atPath?_eq] at hvalue
  rcases hbefore with hbefore | ⟨_, hbefore, rfl | ⟨_, rfl, rfl⟩⟩ <;> rw [hbefore] at hvalue <;> cases hvalue <;> rfl

end
end Json
end FlowEngine
