import FlowEngine.Proofs.Json.Numerals

/-! What is read of a document: values that start with a digit, the whole documents that texts without a fault have, and
floats that are read as they are written. -/
namespace FlowEngine.Json.Reader
variable {depth fuel : Nat} {cs rest : List Char} {v : Json} {d : Document}

/-! Numbers as values. -/

@[simp] theorem value_minus : value (fuel + 1) depth ('-' :: cs) = scalarOr (number true cs) := by
  rw [value, skipBlanks_of_not rfl]
  rfl

theorem value_digit {c : Char} (hc : c.isDigit = true) :
    value (fuel + 1) depth (c :: cs) = scalarOr (number false (c :: cs)) := by
  rw [value, skipBlanks_of_not (not_blank_of_isDigit hc)]
  split
  case h_8 heq =>
    cases heq
    exact if_pos hc
  all_goals
    rename_i heq
    cases heq
  all_goals cases hc

private theorem scalarOr_eq_ok {outcome : Read Json} (h : scalarOr outcome = (d, .ok rest)) :
    ∃ v, outcome = .ok (v, rest) ∧ d = .scalar (some v) v.str? := by
  unfold scalarOr at h
  split at h
  · cases h
    exact ⟨_, rfl, rfl⟩
  · rename_i v _ hstr
    cases h
    refine ⟨v, rfl, ?_⟩
    cases v with
    | str s => exact (hstr s rfl).elim
    | _ => rfl
  · cases h

private theorem plain_of_named {letters : String} {k : Nat} (hv : v.Plain 0) (h : named v letters cs = (d, .ok rest)) :
    d.Plain k := by
  obtain ⟨v', hword, rfl⟩ := scalarOr_eq_ok h
  cases hletters : word letters.toList cs with
  | error => simp [hletters, Except.map] at hword
  | ok rest' =>
    obtain ⟨rfl, -⟩ : v = v' ∧ rest' = rest := by simpa [hletters, Except.map] using hword
    exact Document.plain_scalar hv

private theorem plain_of_scalar_number {negative : Bool} {k : Nat} (h : scalarOr (number negative cs) = (d, .ok rest)) :
    d.Plain k := by
  obtain ⟨v, hnumber, rfl⟩ := scalarOr_eq_ok h
  obtain ⟨n, rfl, hn⟩ := inRange_of_number hnumber
  exact Document.plain_scalar hn

private theorem plain_of_text {k : Nat}
    (h : scalarOr ((quoted cs).map fun (s, rest) => (str s, rest)) = (d, .ok rest)) :
    d.Plain k := by
  obtain ⟨v, hquoted, rfl⟩ := scalarOr_eq_ok h
  cases htext : quoted cs with
  | error => simp [htext, Except.map] at hquoted
  | ok read =>
    obtain ⟨rfl, -⟩ : str read.1 = v ∧ read.2 = rest := by simpa [htext, Except.map] using hquoted
    exact Document.plain_scalar trivial

/-- What is read to its end with so many steps is whole, and so are the items and the fields. The depth that is left
bounds the nesting. -/
structure ReadsPlain (fuel : Nat) : Prop where
  value : ∀ {depth cs d rest}, Reader.value fuel depth cs = (d, .ok rest) → d.Plain (depth - 1)
  items : ∀ {depth cs ds rest}, Reader.items fuel depth cs = (ds, .ok rest) → ∀ d ∈ ds, d.Plain (depth - 1)
  members : ∀ {depth cs ds rest}, Reader.members fuel depth cs = (ds, .ok rest) →
    ∀ field ∈ ds, field.2.Plain (depth - 1)

section
variable {fuel depth : Nat} {ds : List Document} {fields : List (String × Document)} (ih : ReadsPlain fuel)
include ih

private theorem plain_of_value (h : value (fuel + 1) depth cs = (d, .ok rest)) : d.Plain (depth - 1) := by
  rw [value] at h
  split at h
  · exact plain_of_named (v := null) trivial h
  · exact plain_of_named (v := bool true) trivial h
  · exact plain_of_named (v := bool false) trivial h
  · exact plain_of_text h
  · exact plain_of_scalar_number h
  · split at h
    · cases h
    obtain ⟨depth, rfl⟩ : ∃ n, depth = n + 2 := ⟨depth - 2, by omega⟩
    split at h
    · cases h
      exact List.forall_mem_nil _
    · cases h
    · generalize hitems : items fuel (depth + 2 - 1) _ = outcome at h
      obtain ⟨xs, outcome⟩ := outcome
      cases h
      exact ih.items hitems
  · split at h
    · cases h
    obtain ⟨depth, rfl⟩ : ∃ n, depth = n + 2 := ⟨depth - 2, by omega⟩
    split at h
    · cases h
      exact List.forall_mem_nil _
    · cases h
    · generalize hmembers : members fuel (depth + 2 - 1) _ = outcome at h
      obtain ⟨xs, outcome⟩ := outcome
      cases h
      exact ih.members hmembers
  · split at h
    · exact plain_of_scalar_number h
    · cases h
  · cases h

private theorem plain_of_items (h : items (fuel + 1) depth cs = (ds, .ok rest)) : ∀ d ∈ ds, d.Plain (depth - 1) := by
  rw [items] at h
  split at h
  · cases h
  split at h
  · cases h
  · rename_i x rest' hx
    have hplain := ih.value hx
    split at h
    · generalize hitems : items fuel depth _ = outcome at h
      obtain ⟨xs, outcome⟩ := outcome
      cases h
      exact List.forall_mem_cons.mpr ⟨hplain, ih.items hitems⟩
    · cases h
      exact List.forall_mem_singleton.mpr hplain
    · cases h
    · cases h

private theorem plain_of_members (h : members (fuel + 1) depth cs = (fields, .ok rest)) :
    ∀ field ∈ fields, field.2.Plain (depth - 1) := by
  rw [members] at h
  split at h
  · split at h
    · cases h
    split at h
    · split at h
      · cases h
      · rename_i x rest' hx
        have hplain := ih.value hx
        split at h
        · generalize hmembers : members fuel depth _ = outcome at h
          obtain ⟨xs, outcome⟩ := outcome
          cases h
          exact List.forall_mem_cons.mpr ⟨hplain, ih.members hmembers⟩
        · cases h
          exact List.forall_mem_singleton.mpr hplain
        · cases h
        · cases h
    · cases h
  · cases h
  · cases h
  · cases h

end

theorem readsPlain (fuel : Nat) : ReadsPlain fuel := by
  induction fuel with
  | zero =>
    constructor <;> intro _ _ _ _ h <;> cases h
  | succ fuel ih => exact ⟨plain_of_value ih, plain_of_items ih, plain_of_members ih⟩

/-! Whole documents. -/

private theorem leftover_eq_none {outcome : Except Snag (List Char)} (h : leftover outcome = none) :
    ∃ rest, outcome = .ok rest ∧ skipBlanks rest = [] := by
  unfold leftover at h
  split at h
  · cases h
  · split at h
    · exact ⟨_, rfl, ‹_›⟩
    · cases h

theorem readDocument_eq_ok {text : String} (h : readDocument text = (d, none)) :
    ∃ rest, value (2 * text.toList.length + 2) nestingLimit text.toList = (d, .ok rest) ∧ skipBlanks rest = [] := by
  rw [readDocument] at h
  generalize value (2 * text.toList.length + 2) nestingLimit text.toList = outcome at h ⊢
  obtain ⟨d', outcome⟩ := outcome
  obtain ⟨rfl, hfault⟩ := Prod.mk.inj h
  obtain ⟨rest, rfl, hrest⟩ := leftover_eq_none (Option.map_eq_none_iff.mp hfault)
  exact ⟨rest, rfl, hrest⟩

private theorem read_eq_ok {text : String} (h : read text = .ok v) :
    ∃ d, readDocument text = (d, none) ∧ d.toJson? = some v := by
  unfold read at h
  split at h
  · cases h
  · rename_i d hd
    split at h
    · rename_i hvalue
      cases h
      exact ⟨d, hd, hvalue⟩
    · cases h

/-- What a number with its sign is read as, on its own. -/
private theorem number_of_read {text : String} {negative : Bool} {n : Num}
    (htext : text.toList = if negative then '-' :: cs else cs) (hfirst : ∃ c tail, cs = c :: tail ∧ c.isDigit = true)
    (h : read text = .ok (num n)) : ∃ rest, number negative cs = .ok (num n, rest) ∧ skipBlanks rest = [] := by
  obtain ⟨d, hd, hvalue⟩ := read_eq_ok h
  obtain ⟨rest, hread, hrest⟩ := readDocument_eq_ok hd
  have hnumber : value (2 * text.toList.length + 2) nestingLimit text.toList = scalarOr (number negative cs) := by
    rw [htext]
    obtain ⟨c, tail, rfl, hc⟩ := hfirst
    cases negative with
    | false => exact value_digit hc
    | true => exact value_minus
  obtain ⟨v, hv, rfl⟩ := scalarOr_eq_ok (hnumber.symm.trans hread)
  obtain rfl : v = num n := Option.some.inj hvalue
  exact ⟨rest, hv, hrest⟩

/-- A float that is read as it is written on its own is so anywhere in a document. -/
theorem readsBack_float {x : Float} (h : read (Num.float x).render = .ok (num (.float x))) : ReadsBack (.float x) := by
  have hrender : (Num.float x).render = Decimal.Layout.document.render x := rfl
  rw [Decimal.Layout.render] at hrender
  split at hrender
  · rw [hrender] at h
    cases h
  dsimp only at hrender
  split at hrender
  · rw [hrender] at h
    cases hsign : Binary64.signBit x <;> rw [hsign] at h <;> cases h
  generalize Decimal.shortest _ _ = d at hrender
  have hfirst := write_first .document d
  have htext : (Num.float x).render.toList =
      if Binary64.signBit x then '-' :: Decimal.Layout.document.write d else Decimal.Layout.document.write d := by
    rw [hrender, String.toList_ofList]
    split <;> rfl
  refine ⟨_, _, htext, hfirst, fun rest hrest => ?_⟩
  obtain ⟨left, hnumber, hblank⟩ := number_of_read htext hfirst h
  obtain rfl := eq_nil_of_number (write_unbroken _ d) hnumber hblank
  exact number_append hrest hnumber

end FlowEngine.Json.Reader
