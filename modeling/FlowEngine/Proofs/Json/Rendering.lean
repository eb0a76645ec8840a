import FlowEngine.Proofs.Json.Reading

/-! Documents that are written are read as the values that they were written from. -/
namespace FlowEngine.Json
namespace Reader
variable {fuel depth : Nat} {done cs rest : List Char} {c : Char}

/-! Texts. -/

private theorem hexDigit?_hexDigit : ∀ n < 16, hexDigit? (hexDigit n) = some n := by decide

private theorem escaped_control (hc : c.toNat < 32) :
    escaped ('0' :: '0' :: hexDigit (c.toNat / 16) :: hexDigit (c.toNat % 16) :: cs) = .ok (c, cs) := by
  have hunit : unit ('0' :: '0' :: hexDigit (c.toNat / 16) :: hexDigit (c.toNat % 16) :: cs) = .ok (c.toNat, cs) := by
    rw [unit, hexDigit?_hexDigit _ (by omega), hexDigit?_hexDigit _ (Nat.mod_lt _ (by decide))]
    have hzero : hexDigit? '0' = some 0 := rfl
    rw [hzero]
    dsimp only
    congr 2
    omega
  rw [escaped, hunit]
  change (if _ then _ else _) = _
  rw [if_neg (by simp; omega), if_neg (by simp; omega), Char.ofNat_toNat]

private theorem text_of_plain (hquote : c ≠ '"') (hslash : c ≠ '\\') (hc : ¬c.toNat < 32) :
    text (fuel + 1) done (c :: cs) = text fuel (c :: done) cs := by
  rw [text, if_neg hc]
  · exact hquote
  · exact fun _ h => absurd h hslash
  · exact fun _ _ h => absurd h hslash
  · exact fun h => absurd h hslash

/-- An escaped character is read as that character. -/
private theorem text_escape : text (fuel + 1) done (escape c ++ cs) = text fuel (c :: done) cs := by
  unfold escape
  split
  · rfl
  · rfl
  · rfl
  · rfl
  · rfl
  · rfl
  · rfl
  · rename_i hquote hslash _ _ _ _ _
    split
    · rename_i hc
      change text (fuel + 1) done ('\\' :: 'u' :: '0' :: '0' :: hexDigit (c.toNat / 16) :: hexDigit (c.toNat % 16) :: cs) = _
      rw [text, escaped_control hc]
    · rename_i hc
      exact text_of_plain hquote hslash hc

private theorem text_quoted {s : List Char} (hfuel : s.length < fuel) :
    text fuel done (s.flatMap escape ++ '"' :: rest) = .ok (String.ofList (done.reverse ++ s), rest) := by
  induction s generalizing fuel done with
  | nil =>
    obtain ⟨fuel, rfl⟩ : ∃ n, fuel = n + 1 := ⟨fuel - 1, by simp at hfuel; omega⟩
    rw [List.append_nil]
    rfl
  | cons c s ih =>
    rw [List.length_cons] at hfuel
    obtain ⟨fuel, rfl⟩ : ∃ n, fuel = n + 1 := ⟨fuel - 1, by omega⟩
    rw [List.flatMap_cons, List.append_assoc, text_escape, ih (by omega), List.reverse_cons, List.append_assoc]
    rfl

private theorem escape_length : 1 ≤ (escape c).length := by
  unfold escape
  split <;> first | exact Nat.le_add_left 1 _ | skip
  split <;> exact Nat.le_add_left 1 _

private theorem length_le_flatMap_escape (s : List Char) : s.length ≤ (s.flatMap escape).length := by
  induction s with
  | nil => exact Nat.le_refl 0
  | cons c s ih =>
    have hc := escape_length (c := c)
    rw [List.flatMap_cons, List.length_append, List.length_cons]
    omega

/-- A quoted text is read as that text. -/
private theorem quoted_quote (s : String) (rest : List Char) :
    ∃ cs, (quote s).toList ++ rest = '"' :: cs ∧ quoted cs = .ok (s, rest) := by
  refine ⟨s.toList.flatMap escape ++ '"' :: rest, ?_, ?_⟩
  · rw [quote, String.toList_ofList]
    simp
  · have hlength := length_le_flatMap_escape s.toList
    rw [quoted, text_quoted]
    · simp
    · rw [List.length_append]
      omega

/-! Arrays and objects, one item or field after another. -/

def Opens (cs : List Char) : Prop := ∃ c tail, cs = c :: tail ∧ isBlank c = false ∧ c ≠ ']'

private theorem Opens.append {more : List Char} (hcs : Opens cs) : Opens (cs ++ more) := by
  obtain ⟨c, tail, rfl, hc⟩ := hcs
  exact ⟨c, tail ++ more, rfl, hc⟩

private theorem value_list (hdepth : 1 < depth) (hcs : Opens cs) : value (fuel + 1) depth ('[' :: cs) =
    (.list (items fuel (depth - 1) cs).1, (items fuel (depth - 1) cs).2) := by
  obtain ⟨c, tail, rfl, hblank, hclose⟩ := hcs
  rw [value, skipBlanks_of_not rfl]
  change (if depth ≤ 1 then _ else _) = _
  rw [if_neg (Nat.not_le.mpr hdepth), skipBlanks_of_not hblank]
  split
  · rename_i heq
    cases heq
    exact absurd rfl hclose
  · rename_i heq
    cases heq
  · rfl

private theorem value_table (hdepth : 1 < depth) : value (fuel + 1) depth ('\x7b' :: '"' :: cs) =
    (.table (members fuel (depth - 1) ('"' :: cs)).1, (members fuel (depth - 1) ('"' :: cs)).2) := by
  rw [value, skipBlanks_of_not rfl]
  change (if depth ≤ 1 then _ else _) = _
  rw [if_neg (Nat.not_le.mpr hdepth), skipBlanks_of_not rfl]
  rfl

def afterItem (fuel depth : Nat) (d : Document) (rest : List Char) : List Document × Except Snag (List Char) :=
  match skipBlanks rest with
  | ',' :: rest => (d :: (items fuel depth rest).1, (items fuel depth rest).2)
  | ']' :: rest => ([d], .ok rest)
  | [] => ([d, .broken], .error (next .endInList []))
  | rest => ([d, .broken], .error (next .listEndExpected rest))

private theorem items_of_value {d : Document} (hcs : Opens cs) (hvalue : value fuel depth cs = (d, .ok rest)) :
    items (fuel + 1) depth cs = afterItem fuel depth d rest := by
  obtain ⟨c, tail, rfl, hblank, hclose⟩ := hcs
  rw [items, skipBlanks_of_not hblank]
  split
  · rename_i heq
    cases heq
    exact absurd rfl hclose
  · rw [hvalue]
    rfl

def afterField (fuel depth : Nat) (name : String) (d : Document) (rest : List Char) :
    List (String × Document) × Except Snag (List Char) :=
  match skipBlanks rest with
  | ',' :: rest => ((name, d) :: (members fuel depth rest).1, (members fuel depth rest).2)
  | '\x7d' :: rest => ([(name, d)], .ok rest)
  | [] => ([(name, d), ("", .broken)], .error (next .endInTable []))
  | rest => ([(name, d), ("", .broken)], .error (next .tableEndExpected rest))

private theorem members_of_value {d : Document} {name : String} (hquoted : quoted cs = .ok (name, ':' :: done))
    (hvalue : value fuel depth done = (d, .ok rest)) :
    members (fuel + 1) depth ('"' :: cs) = afterField fuel depth name d rest := by
  rw [members, skipBlanks_of_not rfl]
  split <;> rename_i heq
  · cases heq
    rw [hquoted]
    dsimp only
    rw [skipBlanks_of_not rfl]
    split <;> rename_i heq
    · cases heq
      rw [hvalue]
      rfl
    · exact absurd rfl (heq _)
  · cases heq
  · cases heq
  · rename_i hquote _
    exact absurd rfl (hquote _)

end Reader

/-! Written values. -/

mutual
private theorem renderOnto_eq (out : String) : (v : Json) → renderOnto out v = out ++ render v
  | .null => by simp [render, renderOnto]
  | .bool _ => by simp [render, renderOnto]
  | .num _ => by simp [render, renderOnto]
  | .str _ => by simp [render, renderOnto]
  | .arr [] => by simp [render, renderOnto]
  | .arr (x :: xs) => by
    rw [render, renderOnto, renderOnto, renderOnto_eq _ x, renderOnto_eq _ x,
      renderItems_eq (out ++ "[" ++ x.render) xs, renderItems_eq ("" ++ "[" ++ x.render) xs]
    simp only [String.append_assoc, String.empty_append]
  | .obj [] => by simp [render, renderOnto]
  | .obj ((k, x) :: xs) => by
    rw [render, renderOnto, renderOnto, renderOnto_eq _ x, renderOnto_eq _ x,
      renderFields_eq (out ++ "\x7b" ++ quote k ++ ":" ++ x.render) xs,
      renderFields_eq ("" ++ "\x7b" ++ quote k ++ ":" ++ x.render) xs]
    simp only [String.append_assoc, String.empty_append]

private theorem renderItems_eq (out : String) : (xs : List Json) → renderItems out xs = out ++ renderItems "" xs
  | [] => by simp [renderItems]
  | x :: xs => by
    rw [renderItems, renderItems, renderOnto_eq _ x, renderOnto_eq _ x,
      renderItems_eq (out ++ "," ++ x.render) xs, renderItems_eq ("" ++ "," ++ x.render) xs]
    simp only [String.append_assoc, String.empty_append]

private theorem renderFields_eq (out : String) :
    (xs : List (String × Json)) → renderFields out xs = out ++ renderFields "" xs
  | [] => by simp [renderFields]
  | (k, x) :: xs => by
    rw [renderFields, renderFields, renderOnto_eq _ x, renderOnto_eq _ x,
      renderFields_eq (out ++ "," ++ quote k ++ ":" ++ x.render) xs,
      renderFields_eq ("" ++ "," ++ quote k ++ ":" ++ x.render) xs]
    simp only [String.append_assoc, String.empty_append]
end

section
variable {x : Json} {xs : List Json} {name : String} {fields : List (String × Json)}

private theorem toList_render_arr :
    (render (.arr (x :: xs))).toList = '[' :: (x.render.toList ++ (renderItems "" xs).toList) := by
  rw [render, renderOnto, renderOnto_eq, renderItems_eq, String.toList_append, String.toList_append]
  simp

theorem toList_render_obj : (render (.obj ((name, x) :: fields))).toList =
    '\x7b' :: ((quote name).toList ++ ':' :: (x.render.toList ++ (renderFields "" fields).toList)) := by
  rw [render, renderOnto, renderOnto_eq, renderFields_eq]
  simp [String.toList_append]

private theorem toList_renderItems :
    (renderItems "" (x :: xs)).toList = ',' :: (x.render.toList ++ (renderItems "" xs).toList) := by
  rw [renderItems, renderOnto_eq, renderItems_eq]
  simp [String.toList_append]

private theorem toList_renderFields : (renderFields "" ((name, x) :: fields)).toList =
    ',' :: ((quote name).toList ++ ':' :: (x.render.toList ++ (renderFields "" fields).toList)) := by
  rw [renderFields, renderOnto_eq, renderFields_eq]
  simp [String.toList_append]

end

mutual
/-- All floats in a value. -/
def floats : Json → List Float
  | .num (.float x) => [x]
  | .arr items => itemFloats items
  | .obj fields => fieldFloats fields
  | _ => []

def itemFloats : List Json → List Float
  | [] => []
  | item :: items => floats item ++ itemFloats items

def fieldFloats : List (String × Json) → List Float
  | [] => []
  | (_, value) :: fields => floats value ++ fieldFloats fields
end

private theorem mem_itemFloats {y : Float} {items : List Json} :
    y ∈ itemFloats items ↔ ∃ item ∈ items, y ∈ item.floats := by
  induction items with
  | nil => simp [itemFloats]
  | cons item items ih => simp [itemFloats, ih]

private theorem mem_fieldFloats {y : Float} {fields : List (String × Json)} :
    y ∈ fieldFloats fields ↔ ∃ field ∈ fields, y ∈ field.2.floats := by
  induction fields with
  | nil => simp [fieldFloats]
  | cons field fields ih => simp [fieldFloats, ih]

/-! Reading what was written. -/

namespace Reader
variable {k fuel depth : Nat} {rest : List Char} {v x : Json}

/-- The text of the value is read as the document of the value, where the nesting limit is beyond so many levels. -/
structure Readable (k : Nat) (v : Json) : Prop where
  opens : Opens v.render.toList
  value (fuel depth : Nat) (rest : List Char) : v.render.toList.length ≤ fuel → k < depth → Closed rest →
    value fuel depth (v.render.toList ++ rest) = (.ofJson v, .ok rest)

private theorem closed_renderItems {xs : List Json} : Closed ((renderItems "" xs).toList ++ rest) := by
  cases xs with
  | nil => exact .inr ⟨']', rest, rfl, by decide⟩
  | cons x xs =>
    rw [toList_renderItems]
    exact .inr ⟨',', _, rfl, by decide⟩

private theorem closed_renderFields {fields : List (String × Json)} :
    Closed ((renderFields "" fields).toList ++ rest) := by
  cases fields with
  | nil => exact .inr ⟨'\x7d', rest, rfl, by decide⟩
  | cons field fields =>
    rw [toList_renderFields]
    exact .inr ⟨',', _, rfl, by decide⟩

private theorem items_render {xs : List Json} (hx : Readable k x) (hxs : ∀ item ∈ xs, Readable k item)
    (hdepth : k < depth) (hfuel : (x.render.toList ++ (renderItems "" xs).toList).length ≤ fuel) :
    items fuel depth (x.render.toList ++ ((renderItems "" xs).toList ++ rest)) =
      (.ofJson x :: xs.map .ofJson, .ok rest) := by
  induction xs generalizing x fuel with
  | nil =>
    have hclose : (renderItems "" []).toList.length = 1 := rfl
    rw [List.length_append, hclose] at hfuel
    obtain ⟨fuel, rfl⟩ : ∃ n, fuel = n + 1 := ⟨fuel - 1, by omega⟩
    rw [items_of_value hx.opens.append (hx.value fuel depth _ (by omega) hdepth closed_renderItems)]
    rfl
  | cons y ys ih =>
    rw [toList_renderItems, List.length_append, List.length_cons] at hfuel
    obtain ⟨fuel, rfl⟩ : ∃ n, fuel = n + 1 := ⟨fuel - 1, by omega⟩
    obtain ⟨hy, hys⟩ := List.forall_mem_cons.mp hxs
    rw [items_of_value hx.opens.append (hx.value fuel depth _ (by omega) hdepth closed_renderItems), toList_renderItems,
      List.cons_append, List.append_assoc]
    change (_ :: (items fuel depth _).1, (items fuel depth _).2) = _
    rw [ih hy hys (by omega), List.map_cons]

private theorem members_render {name : String} {fields : List (String × Json)} (hx : Readable k x)
    (hfields : ∀ field ∈ fields, Readable k field.2) (hdepth : k < depth)
    (hfuel : ((quote name).toList ++ ':' :: (x.render.toList ++ (renderFields "" fields).toList)).length ≤ fuel) :
    members fuel depth ((quote name).toList ++ ':' :: (x.render.toList ++ ((renderFields "" fields).toList ++ rest))) =
      ((name, .ofJson x) :: fields.map fun field => (field.1, .ofJson field.2), .ok rest) := by
  obtain ⟨cs, hquote, hquoted⟩ :=
    quoted_quote name (':' :: (x.render.toList ++ ((renderFields "" fields).toList ++ rest)))
  rw [hquote]
  rw [List.length_append, List.length_cons, List.length_append] at hfuel
  obtain ⟨fuel, rfl⟩ : ∃ n, fuel = n + 1 := ⟨fuel - 1, by omega⟩
  induction fields generalizing x name fuel cs with
  | nil =>
    rw [members_of_value hquoted (hx.value fuel depth _ (by omega) hdepth closed_renderFields)]
    rfl
  | cons field fields ih =>
    obtain ⟨other, y⟩ := field
    obtain ⟨hy, hys⟩ := List.forall_mem_cons.mp hfields
    rw [members_of_value hquoted (hx.value fuel depth _ (by omega) hdepth closed_renderFields), toList_renderFields]
    rw [toList_renderFields, List.length_cons, List.length_append, List.length_cons, List.length_append] at hfuel
    obtain ⟨cs', hquote', hquoted'⟩ :=
      quoted_quote other (':' :: (y.render.toList ++ ((renderFields "" fields).toList ++ rest)))
    obtain ⟨fuel, rfl⟩ : ∃ n, fuel = n + 1 := ⟨fuel - 1, by omega⟩
    have hrest := ih (x := y) hy hys cs' hquote' hquoted' fuel (by omega)
    rw [List.cons_append, List.append_assoc, List.cons_append, List.append_assoc, hquote']
    change (_ :: (members (fuel + 1) depth _).1, (members (fuel + 1) depth _).2) = _
    rw [hrest, List.map_cons]

private theorem readable_num {n : Num} (hn : ReadsBack n) : Readable k (num n) := by
  obtain ⟨negative, cs, htext, ⟨c, tail, rfl, hc⟩, hnumber⟩ := hn
  have hrender : (num n).render.toList = if negative then '-' :: c :: tail else c :: tail := by
    rw [render, renderOnto, String.empty_append, htext]
  constructor
  · rw [hrender]
    cases negative with
    | false => exact ⟨c, tail, rfl, not_blank_of_isDigit hc, by rintro rfl; cases hc⟩
    | true => exact ⟨'-', c :: tail, rfl, rfl, by decide⟩
  · intro fuel depth rest hfuel _ hrest
    rw [hrender] at hfuel ⊢
    have hread : scalarOr (number negative (c :: tail ++ rest)) = (.ofJson (num n), .ok rest) := by
      rw [hnumber rest hrest]
      rfl
    cases negative with
    | false =>
      obtain ⟨fuel, rfl⟩ : ∃ m, fuel = m + 1 := ⟨fuel - 1, by simp at hfuel; omega⟩
      exact (value_digit hc).trans hread
    | true =>
      obtain ⟨fuel, rfl⟩ : ∃ m, fuel = m + 1 := ⟨fuel - 1, by simp at hfuel; omega⟩
      exact value_minus.trans hread

private theorem readable_str {s : String} : Readable k (str s) := by
  have hrender : (str s).render.toList = (quote s).toList := by
    rw [render, renderOnto, String.empty_append]
  obtain ⟨cs, hquote, -⟩ := quoted_quote s []
  rw [List.append_nil] at hquote
  constructor
  · rw [hrender, hquote]
    exact ⟨'"', cs, rfl, rfl, by decide⟩
  · intro fuel depth rest hfuel _ _
    obtain ⟨cs', hquote', hquoted⟩ := quoted_quote s rest
    rw [hrender, hquote, List.length_cons] at hfuel
    obtain ⟨fuel, rfl⟩ : ∃ m, fuel = m + 1 := ⟨fuel - 1, by omega⟩
    rw [hrender, hquote', value, skipBlanks_of_not rfl]
    change scalarOr ((quoted cs').map _) = _
    rw [hquoted]
    rfl

private theorem readable_null : Readable k null := by
  refine ⟨⟨'n', _, rfl, rfl, by decide⟩, fun fuel depth rest hfuel _ _ => ?_⟩
  cases fuel with
  | zero => cases hfuel
  | succ fuel => rfl

private theorem readable_bool {b : Bool} : Readable k (bool b) := by
  cases b with
  | false =>
    refine ⟨⟨'f', _, rfl, rfl, by decide⟩, fun fuel depth rest hfuel _ _ => ?_⟩
    cases fuel with
    | zero => cases hfuel
    | succ fuel => rfl
  | true =>
    refine ⟨⟨'t', _, rfl, rfl, by decide⟩, fun fuel depth rest hfuel _ _ => ?_⟩
    cases fuel with
    | zero => cases hfuel
    | succ fuel => rfl

private theorem readable_arr {xs : List Json} (hxs : ∀ item ∈ xs, Readable k item) : Readable (k + 1) (arr xs) := by
  cases xs with
  | nil =>
    refine ⟨⟨'[', _, rfl, rfl, by decide⟩, fun fuel depth rest hfuel hdepth _ => ?_⟩
    cases fuel with
    | zero => cases hfuel
    | succ fuel => exact if_neg (by omega)
  | cons x xs =>
    obtain ⟨hx, hxs⟩ := List.forall_mem_cons.mp hxs
    refine ⟨?_, fun fuel depth rest hfuel hdepth _ => ?_⟩
    · rw [toList_render_arr]
      exact ⟨'[', _, rfl, rfl, by decide⟩
    · rw [toList_render_arr, List.length_cons] at hfuel
      obtain ⟨fuel, rfl⟩ : ∃ n, fuel = n + 1 := ⟨fuel - 1, by omega⟩
      rw [toList_render_arr, List.cons_append, value_list (by omega) hx.opens.append.append, List.append_assoc,
        items_render hx hxs (by omega) (by omega), Document.ofJson, Document.ofItems_eq_map, List.map_cons]

private theorem readable_obj {fields : List (String × Json)} (hfields : ∀ field ∈ fields, Readable k field.2) :
    Readable (k + 1) (obj fields) := by
  cases fields with
  | nil =>
    refine ⟨⟨'\x7b', _, rfl, rfl, by decide⟩, fun fuel depth rest hfuel hdepth _ => ?_⟩
    cases fuel with
    | zero => cases hfuel
    | succ fuel => exact if_neg (by omega)
  | cons field fields =>
    obtain ⟨name, x⟩ := field
    obtain ⟨hx, hfields⟩ := List.forall_mem_cons.mp hfields
    refine ⟨?_, fun fuel depth rest hfuel hdepth _ => ?_⟩
    · rw [toList_render_obj]
      exact ⟨'\x7b', _, rfl, rfl, by decide⟩
    · rw [toList_render_obj, List.length_cons] at hfuel
      obtain ⟨fuel, rfl⟩ : ∃ n, fuel = n + 1 := ⟨fuel - 1, by omega⟩
      have hmembers : members fuel (depth - 1)
          ((quote name).toList ++ ':' :: (x.render.toList ++ ((renderFields "" fields).toList ++ rest))) =
          ((name, .ofJson x) :: fields.map fun field => (field.1, .ofJson field.2), .ok rest) :=
        members_render (x := x) hx hfields (by omega) (by omega)
      obtain ⟨cs, hquote, -⟩ := quoted_quote name (':' :: (x.render.toList ++ ((renderFields "" fields).toList ++ rest)))
      rw [hquote] at hmembers
      rw [toList_render_obj, List.cons_append, List.append_assoc, List.cons_append, List.append_assoc, hquote,
        value_table (by omega), hmembers, Document.ofJson, Document.ofFields_eq_map, List.map_cons]

/-- Plain values are readable, if their floats are. -/
private theorem readable (hv : v.Plain k) (hfloats : ∀ y ∈ v.floats, ReadsBack (.float y)) : Readable k v := by
  induction k generalizing v with
  | zero =>
    cases v with
    | null => exact readable_null
    | bool => exact readable_bool
    | num n =>
      cases n with
      | int => exact readable_num (readsBack_int hv)
      | float y => exact readable_num (hfloats y (List.mem_singleton_self y))
    | str => exact readable_str
    | arr => cases hv
    | obj => cases hv
  | succ k ih =>
    cases v with
    | null => exact readable_null
    | bool => exact readable_bool
    | num n =>
      cases n with
      | int => exact readable_num (readsBack_int hv)
      | float y => exact readable_num (hfloats y (List.mem_singleton_self y))
    | str => exact readable_str
    | arr items =>
      refine readable_arr fun item hitem => ih (hv item hitem) fun y hy => hfloats y ?_
      exact mem_itemFloats.mpr ⟨item, hitem, hy⟩
    | obj fields =>
      refine readable_obj fun field hfield => ih (hv.2 field hfield) fun y hy => hfloats y ?_
      exact mem_fieldFloats.mpr ⟨field, hfield, hy⟩

end Reader

/-- What is written is read as it was, where that is so of all floats on their own. -/
theorem readDocument_render {v : Json} (hv : v.Plain 127)
    (hfloats : ∀ y ∈ v.floats, read (Num.float y).render = .ok (.num (.float y))) :
    readDocument v.render = (.ofJson v, none) := by
  have hvalue := (Reader.readable hv fun y hy => Reader.readsBack_float (hfloats y hy)).value
    (2 * v.render.toList.length + 2) Reader.nestingLimit [] (by omega) (by decide) (.inl rfl)
  rw [List.append_nil] at hvalue
  rw [readDocument, hvalue]
  rfl

end FlowEngine.Json
