import FlowEngine.Proofs.Expr.Grammar

/-! The parser against the grammar. What it accepts is derived within the limit of levels, and with enough
steps it accepts all that; for a phrase that needs more levels it reports just that it nests too deeply. -/
namespace FlowEngine.Expr

/-- The parser's function for a phrase comes to the phrase and the rest, or to a failure. -/
def Phrase.Parsed (fuel depth : Nat) (ts : List Token) (result : Except EvalError (List Token)) :
    Phrase → Prop
  | expression e => Expr.expression fuel depth ts = result.map (e, ·)
  | operation minimum e => Expr.operation fuel depth minimum ts = result.map (e, ·)
  | operatorChain minimum left e => Expr.operatorChain fuel depth minimum left ts = result.map (e, ·)
  | operand e => Expr.operand fuel depth ts = result.map (e, ·)
  | accessChain target e => Expr.accessChain fuel depth target ts = result.map (e, ·)
  | property target isOptional e => Expr.property fuel depth target isOptional ts = result.map (e, ·)
  | elements close es => Expr.elements fuel depth close ts = result.map (es, ·)
  | entries fields => Expr.entries fuel depth ts = result.map (fields, ·)
  | primary e => Expr.primary fuel depth ts = result.map (e, ·)

/-! From the parser to the grammar. -/

private theorem bind_eq_ok {α β : Type} {x : Except EvalError α} {f : α → Except EvalError β} {b : β} :
    (x >>= f) = .ok b ↔ ∃ a, x = .ok a ∧ f a = .ok b := by
  cases x <;> simp [bind, Except.bind]

private theorem return_eq_ok {α β : Type} {a b : α} {r s : β} :
    (pure (a, r) : Except EvalError (α × β)) = .ok (b, s) ↔ a = b ∧ r = s := by
  simp [pure, Except.pure]

private theorem deeper_eq_ok {depth depth' : Nat} :
    deeper depth = .ok depth' ↔ depth' = depth + 1 ∧ depth + 1 ≤ maxNestingDepth := by
  rw [deeper]
  split
  · simp
    omega
  · simp
    omega

private theorem expect_eq_ok {wanted : Punct} {ts rest : List Token} :
    expect wanted ts = .ok rest ↔ ts = .punct wanted :: rest := by
  fun_cases expect wanted ts <;> simp_all

private theorem propertyName_eq_ok {name : String} {ts rest : List Token} :
    propertyName ts = .ok (name, rest) ↔ ts = .name name :: rest := by
  fun_cases propertyName ts <;> simp_all

private theorem opensAccess_head?_eq_false {ts : List Token} (hdot : ∀ ts', ts ≠ .punct .dot :: ts')
    (hoptional : ∀ ts', ts ≠ .punct .optional :: ts') (hbracket : ∀ ts', ts ≠ .punct .openBracket :: ts')
    (hparen : ∀ ts', ts ≠ .punct .openParen :: ts') : opensAccess ts.head? = false := by
  unfold opensAccess
  split <;> simp_all [List.head?_eq_some_iff]

/-- What the parser reads with so many steps is a phrase of the grammar that takes up no more levels than are
left. -/
def Sound (fuel : Nat) : Prop :=
  ∀ (p : Phrase) {depth : Nat} {ts rest : List Token}, depth ≤ maxNestingDepth →
    p.Parsed fuel depth ts (.ok rest) → ∃ n, Reads p n ts rest ∧ depth + n ≤ maxNestingDepth

section
variable {fuel depth : Nat} {ts rest : List Token} (ih : Sound fuel) (hdepth : depth ≤ maxNestingDepth)
include ih hdepth

omit hdepth in
private theorem sound_expression {e : Expr} (h : expression (fuel + 1) depth ts = .ok (e, rest)) :
    ∃ n, Reads (.expression e) n ts rest ∧ depth + n ≤ maxNestingDepth := by
  rw [expression.eq_def] at h
  dsimp only at h
  simp only [bind_eq_ok, deeper_eq_ok] at h
  obtain ⟨_, ⟨rfl, hdeeper⟩, ⟨test, ts₁⟩, htest, h⟩ := h
  obtain ⟨n₁, htest, hn₁⟩ := ih (.operation 0 test) hdeeper htest
  dsimp only at h
  split at h
  · rename_i ts₂
    simp only [bind_eq_ok, expect_eq_ok] at h
    obtain ⟨⟨consequent, _⟩, hconsequent, ts₃, rfl, ⟨alternate, _⟩, halternate, h⟩ := h
    obtain ⟨rfl, rfl⟩ := return_eq_ok.mp h
    obtain ⟨n₂, hconsequent, hn₂⟩ := ih (.expression consequent) hdeeper hconsequent
    obtain ⟨n₃, halternate, hn₃⟩ := ih (.expression alternate) hdeeper halternate
    exact ⟨_, .conditional htest hconsequent halternate, by omega⟩
  · rename_i hquestion
    obtain ⟨rfl, rfl⟩ := return_eq_ok.mp h
    refine ⟨_, .plain htest fun hhead => ?_, by omega⟩
    obtain ⟨ts₂, rfl⟩ := List.head?_eq_some_iff.mp hhead
    exact hquestion ts₂ rfl

private theorem sound_operation {minimum : Nat} {e : Expr}
    (h : operation (fuel + 1) depth minimum ts = .ok (e, rest)) :
    ∃ n, Reads (.operation minimum e) n ts rest ∧ depth + n ≤ maxNestingDepth := by
  rw [operation.eq_def] at h
  dsimp only at h
  simp only [bind_eq_ok] at h
  obtain ⟨⟨left, ts₁⟩, hleft, h⟩ := h
  obtain ⟨n₁, hleft, hn₁⟩ := ih (.operand left) hdepth hleft
  obtain ⟨n₂, hchain, hn₂⟩ := ih (.operatorChain minimum left e) hdepth h
  exact ⟨_, .operation hleft hchain, by omega⟩

private theorem sound_operatorChain {minimum : Nat} {left e : Expr}
    (h : operatorChain (fuel + 1) depth minimum left ts = .ok (e, rest)) :
    ∃ n, Reads (.operatorChain minimum left e) n ts rest ∧ depth + n ≤ maxNestingDepth := by
  rw [operatorChain.eq_def] at h
  dsimp only at h
  split at h
  · rename_i hnone
    obtain ⟨rfl, rfl⟩ := return_eq_ok.mp h
    exact ⟨0, .noOperator hnone, hdepth⟩
  · rename_i precedence op ts₁ hsome
    simp only [bind_eq_ok, deeper_eq_ok] at h
    obtain ⟨_, ⟨rfl, hdeeper⟩, ⟨right, ts₂⟩, hright, _, ⟨rfl, -⟩, hchain⟩ := h
    obtain ⟨n₁, hright, hn₁⟩ := ih (.operation (precedence + 1) right) hdeeper hright
    obtain ⟨n₂, hchain, hn₂⟩ := ih (.operatorChain minimum (op.join left right) e) hdeeper hchain
    exact ⟨_, .operator hsome hright hchain, by omega⟩

private theorem sound_operand {e : Expr} (h : operand (fuel + 1) depth ts = .ok (e, rest)) :
    ∃ n, Reads (.operand e) n ts rest ∧ depth + n ≤ maxNestingDepth := by
  rw [operand.eq_def] at h
  dsimp only at h
  split at h
  · rename_i op ts₁ hsome
    simp only [bind_eq_ok, deeper_eq_ok] at h
    obtain ⟨_, ⟨rfl, hdeeper⟩, ⟨inner, ts₂⟩, hinner, h⟩ := h
    obtain ⟨rfl, rfl⟩ := return_eq_ok.mp h
    obtain ⟨n, hinner, hn⟩ := ih (.operand inner) hdeeper hinner
    exact ⟨_, .unary hsome hinner, by omega⟩
  · rename_i hnone
    simp only [bind_eq_ok] at h
    obtain ⟨⟨start, ts₁⟩, hstart, h⟩ := h
    obtain ⟨n₁, hstart, hn₁⟩ := ih (.primary start) hdepth hstart
    obtain ⟨n₂, hchain, hn₂⟩ := ih (.accessChain start e) hdepth h
    exact ⟨_, .accessed hnone hstart hchain, by omega⟩

private theorem sound_accessChain {target e : Expr}
    (h : accessChain (fuel + 1) depth target ts = .ok (e, rest)) :
    ∃ n, Reads (.accessChain target e) n ts rest ∧ depth + n ≤ maxNestingDepth := by
  rw [accessChain.eq_def] at h
  dsimp only at h
  split at h
  · simp only [bind_eq_ok, deeper_eq_ok] at h
    obtain ⟨⟨link, ts₁⟩, hlink, _, ⟨rfl, hdeeper⟩, hchain⟩ := h
    obtain ⟨n₁, hlink, hn₁⟩ := ih (.property target false link) hdepth hlink
    obtain ⟨n₂, hchain, hn₂⟩ := ih (.accessChain link e) hdeeper hchain
    exact ⟨_, .dot hlink hchain, by omega⟩
  · simp only [bind_eq_ok, deeper_eq_ok, expect_eq_ok] at h
    obtain ⟨⟨key, _⟩, hkey, ts₁, rfl, _, ⟨rfl, hdeeper⟩, hchain⟩ := h
    obtain ⟨n₁, hkey, hn₁⟩ := ih (.expression key) hdepth hkey
    obtain ⟨n₂, hchain, hn₂⟩ := ih (.accessChain (.index target key true) e) hdeeper hchain
    exact ⟨_, .optionalIndex hkey hchain, by omega⟩
  · simp only [bind_eq_ok, deeper_eq_ok] at h
    obtain ⟨⟨link, ts₁⟩, hlink, _, ⟨rfl, hdeeper⟩, hchain⟩ := h
    obtain ⟨n₁, hlink, hn₁⟩ := ih (.property target true link) hdepth hlink
    obtain ⟨n₂, hchain, hn₂⟩ := ih (.accessChain link e) hdeeper hchain
    exact ⟨_, .optionalDot hlink hchain, by omega⟩
  · simp only [bind_eq_ok, deeper_eq_ok, expect_eq_ok] at h
    obtain ⟨⟨key, _⟩, hkey, ts₁, rfl, _, ⟨rfl, hdeeper⟩, hchain⟩ := h
    obtain ⟨n₁, hkey, hn₁⟩ := ih (.expression key) hdepth hkey
    obtain ⟨n₂, hchain, hn₂⟩ := ih (.accessChain (.index target key false) e) hdeeper hchain
    exact ⟨_, .index hkey hchain, by omega⟩
  · simp only [bind_eq_ok, deeper_eq_ok] at h
    obtain ⟨⟨args, ts₁⟩, hargs, _, ⟨rfl, hdeeper⟩, hchain⟩ := h
    obtain ⟨n₁, hargs, hn₁⟩ := ih (.elements .closeParen args) hdepth hargs
    obtain ⟨n₂, hchain, hn₂⟩ := ih (.accessChain (.call target args) e) hdeeper hchain
    exact ⟨_, .call hargs hchain, by omega⟩
  · obtain ⟨rfl, rfl⟩ := return_eq_ok.mp h
    exact ⟨0, .noAccess (opensAccess_head?_eq_false ‹_› ‹_› ‹_› ‹_›), hdepth⟩

private theorem sound_property {target e : Expr} {isOptional : Bool}
    (h : property (fuel + 1) depth target isOptional ts = .ok (e, rest)) :
    ∃ n, Reads (.property target isOptional e) n ts rest ∧ depth + n ≤ maxNestingDepth := by
  rw [property.eq_def] at h
  dsimp only at h
  simp only [bind_eq_ok] at h
  obtain ⟨⟨name, ts₁⟩, hname, h⟩ := h
  obtain rfl := propertyName_eq_ok.mp hname
  dsimp only at h
  split at h
  · simp only [bind_eq_ok] at h
    obtain ⟨⟨args, ts₂⟩, hargs, h⟩ := h
    obtain ⟨rfl, rfl⟩ := return_eq_ok.mp h
    obtain ⟨n, hargs, hn⟩ := ih (.elements .closeParen args) hdepth hargs
    exact ⟨_, .method hargs, hn⟩
  · rename_i hparen
    obtain ⟨rfl, rfl⟩ := return_eq_ok.mp h
    refine ⟨0, .member fun hhead => ?_, hdepth⟩
    obtain ⟨ts₂, rfl⟩ := List.head?_eq_some_iff.mp hhead
    exact hparen ts₂ rfl

private theorem sound_elements {close : Punct} {es : List Expr}
    (h : elements (fuel + 1) depth close ts = .ok (es, rest)) :
    ∃ n, Reads (.elements close es) n ts rest ∧ depth + n ≤ maxNestingDepth := by
  rw [elements.eq_def] at h
  dsimp only at h
  split at h
  · rename_i hclose
    obtain ⟨rfl, rfl⟩ := return_eq_ok.mp h
    obtain rfl := expect_eq_ok.mp hclose
    exact ⟨0, .noElement, hdepth⟩
  · rename_i hopen
    have hhead : ts.head? ≠ some (.punct close) := by
      intro hhead
      obtain ⟨ts₁, rfl⟩ := List.head?_eq_some_iff.mp hhead
      rw [expect_eq_ok.mpr rfl] at hopen
      cases hopen
    simp only [bind_eq_ok] at h
    obtain ⟨⟨element, ts₁⟩, helement, h⟩ := h
    obtain ⟨n₁, helement, hn₁⟩ := ih (.expression element) hdepth helement
    dsimp only at h
    split at h
    · simp only [bind_eq_ok] at h
      obtain ⟨⟨es, ts₂⟩, hes, h⟩ := h
      obtain ⟨rfl, rfl⟩ := return_eq_ok.mp h
      obtain ⟨n₂, hes, hn₂⟩ := ih (.elements close es) hdepth hes
      exact ⟨_, .element hhead helement hes, by omega⟩
    · rename_i hcomma
      simp only [bind_eq_ok, expect_eq_ok] at h
      obtain ⟨ts₂, rfl, h⟩ := h
      obtain ⟨rfl, rfl⟩ := return_eq_ok.mp h
      refine ⟨n₁, .lastElement (fun hclose => ?_) hhead helement, hn₁⟩
      subst hclose
      exact hcomma _ rfl

private theorem sound_entries {fields : List (String × Expr)}
    (h : entries (fuel + 1) depth ts = .ok (fields, rest)) :
    ∃ n, Reads (.entries fields) n ts rest ∧ depth + n ≤ maxNestingDepth := by
  rw [entries.eq_def] at h
  dsimp only at h
  split at h
  · obtain ⟨rfl, rfl⟩ := return_eq_ok.mp h
    exact ⟨0, .noEntry, hdepth⟩
  · simp only [bind_eq_ok, expect_eq_ok] at h
    obtain ⟨⟨key, _⟩, hkey, ts₁, rfl, ⟨value, ts₂⟩, hvalue, h⟩ := h
    obtain ⟨n₁, hvalue, hn₁⟩ := ih (.expression value) hdepth hvalue
    dsimp only at h
    split at h
    · simp only [bind_eq_ok] at h
      obtain ⟨⟨fields, ts₃⟩, hfields, h⟩ := h
      obtain ⟨rfl, rfl⟩ := return_eq_ok.mp h
      obtain ⟨n₂, hfields, hn₂⟩ := ih (.entries fields) hdepth hfields
      exact ⟨_, .entry hkey hvalue hfields, by omega⟩
    · simp only [bind_eq_ok, expect_eq_ok] at h
      obtain ⟨ts₃, rfl, h⟩ := h
      obtain ⟨rfl, rfl⟩ := return_eq_ok.mp h
      exact ⟨n₁, .lastEntry hkey hvalue, hn₁⟩

private theorem sound_primary {e : Expr} (h : primary (fuel + 1) depth ts = .ok (e, rest)) :
    ∃ n, Reads (.primary e) n ts rest ∧ depth + n ≤ maxNestingDepth := by
  rw [primary.eq_def] at h
  dsimp only at h
  split at h
  · obtain ⟨rfl, rfl⟩ := return_eq_ok.mp h
    exact ⟨0, .number, hdepth⟩
  · obtain ⟨rfl, rfl⟩ := return_eq_ok.mp h
    exact ⟨0, .text, hdepth⟩
  · split at h
    · rename_i hliteral
      obtain ⟨rfl, rfl⟩ := return_eq_ok.mp h
      exact ⟨0, .name (.inr hliteral), hdepth⟩
    · rename_i hliteral
      simp only [bind_eq_ok] at h
      obtain ⟨⟨body, ts₁⟩, hbody, h⟩ := h
      obtain ⟨rfl, rfl⟩ := return_eq_ok.mp h
      obtain ⟨n, hbody, hn⟩ := ih (.expression body) hdepth hbody
      exact ⟨n, .arrow (by simpa using hliteral) hbody, hn⟩
  · rename_i harrow
    obtain ⟨rfl, rfl⟩ := return_eq_ok.mp h
    refine ⟨0, .name (.inl fun hhead => ?_), hdepth⟩
    obtain ⟨ts₁, rfl⟩ := List.head?_eq_some_iff.mp hhead
    exact harrow _ rfl
  · split at h
    · rename_i params ts₁ harrow
      simp only [bind_eq_ok] at h
      obtain ⟨⟨body, ts₂⟩, hbody, h⟩ := h
      obtain ⟨rfl, rfl⟩ := return_eq_ok.mp h
      obtain ⟨n, hbody, hn⟩ := ih (.expression body) hdepth hbody
      exact ⟨n, .lambda harrow hbody, hn⟩
    · rename_i harrow
      simp only [bind_eq_ok, expect_eq_ok] at h
      obtain ⟨⟨inner, _⟩, hinner, ts₁, rfl, h⟩ := h
      obtain ⟨rfl, rfl⟩ := return_eq_ok.mp h
      obtain ⟨n, hinner, hn⟩ := ih (.expression inner) hdepth hinner
      exact ⟨n, .group harrow hinner, hn⟩
  · simp only [bind_eq_ok] at h
    obtain ⟨⟨es, ts₁⟩, hes, h⟩ := h
    obtain ⟨rfl, rfl⟩ := return_eq_ok.mp h
    obtain ⟨n, hes, hn⟩ := ih (.elements .closeBracket es) hdepth hes
    exact ⟨n, .array hes, hn⟩
  · simp only [bind_eq_ok] at h
    obtain ⟨⟨fields, ts₁⟩, hfields, h⟩ := h
    obtain ⟨rfl, rfl⟩ := return_eq_ok.mp h
    obtain ⟨n, hfields, hn⟩ := ih (.entries fields) hdepth hfields
    exact ⟨n, .object hfields, hn⟩
  · cases h

end

private theorem sound (fuel : Nat) : Sound fuel := by
  induction fuel with
  | zero =>
    intro p depth ts rest _ h
    cases p <;> simp [Phrase.Parsed, expression, operation, operatorChain, operand, accessChain, property,
      elements, entries, primary, Except.map] at h
  | succ fuel ih =>
    intro p depth ts rest hdepth h
    cases p with
    | expression e => exact sound_expression ih h
    | operation minimum e => exact sound_operation ih hdepth h
    | operatorChain minimum left e => exact sound_operatorChain ih hdepth h
    | operand e => exact sound_operand ih hdepth h
    | accessChain target e => exact sound_accessChain ih hdepth h
    | property target isOptional e => exact sound_property ih hdepth h
    | elements close es => exact sound_elements ih hdepth h
    | entries fields => exact sound_entries ih hdepth h
    | primary e => exact sound_primary ih hdepth h

/-! From the grammar to the parser. -/

section
variable {α β : Type} {d k : Nat} {a : α} {b : β}

def atDepth (depth : Nat) (a : α) : Except EvalError α :=
  if depth ≤ maxNestingDepth then .ok a else .error .tooDeep

private theorem map_atDepth {f : α → β} : (atDepth d a).map f = atDepth d (f a) := by
  rw [atDepth, atDepth]
  split <;> rfl

private theorem ok_eq_atDepth_zero : (.ok a : Except EvalError α) = atDepth 0 a := rfl

private theorem deeper_eq_atDepth {depth : Nat} : deeper depth = atDepth (depth + 1) (depth + 1) := by
  rw [deeper, atDepth]
  split
  · rw [if_neg (by omega)]
  · rw [if_pos (by omega)]

private theorem expect_eq_atDepth {wanted : Punct} {ts : List Token} :
    expect wanted (.punct wanted :: ts) = atDepth 0 ts := by
  simp [expect, atDepth]

/-- Of two steps one after the other, both have to have their levels. -/
private theorem bind_atDepth {x : Except EvalError α} {f : α → Except EvalError β} (hx : x = atDepth d a)
    (hf : d ≤ maxNestingDepth → f a = atDepth k b) : (x >>= f) = atDepth (max d k) b := by
  rw [hx, atDepth]
  split
  · rename_i h
    change f a = _
    rw [hf h, atDepth, atDepth]
    congr 1
    simp only [eq_iff_iff]
    omega
  · rename_i h
    exact (if_neg (by omega)).symm

private theorem atDepth_of_eq {x : Except EvalError α} (h : x = atDepth d a) (hd : d = k) : x = atDepth k a := hd ▸ h

end

/-- Steps of the parser that a phrase takes besides those for its tokens. -/
def Phrase.steps : Phrase → Nat
  | elements .. => 5
  | expression _ => 4
  | operation .. => 3
  | operand _ => 2
  | _ => 1

/-- The phrase is one of the grammar, and the parser's function for it reads it, if it has enough steps and levels. -/
structure Accepted (p : Phrase) (n : Nat) (ts rest : List Token) : Prop where
  reads : Reads p n ts rest
  parsed : ∀ fuel depth, 10 * ts.length + p.steps ≤ fuel → depth ≤ maxNestingDepth →
    p.Parsed fuel depth ts (atDepth (depth + n) rest)

private theorem Accepted.of_succ {p : Phrase} {n : Nat} {ts rest : List Token} (hreads : Reads p n ts rest)
    (h : ∀ fuel depth, 10 * ts.length + p.steps ≤ fuel + 1 → depth ≤ maxNestingDepth →
      p.Parsed (fuel + 1) depth ts (atDepth (depth + n) rest)) : Accepted p n ts rest := by
  refine ⟨hreads, fun fuel depth hfuel hdepth => ?_⟩
  cases fuel with
  | zero => cases p <;> simp [Phrase.steps] at hfuel
  | succ fuel => exact h fuel depth hfuel hdepth

/-! What it is for a phrase of each kind to be accepted. -/

section
variable {fuel depth n minimum : Nat} {left target e : Expr} {isOptional : Bool} {close : Punct} {es : List Expr}
  {fields : List (String × Expr)} {ts rest : List Token}

private theorem Accepted.expression (h : Accepted (.expression e) n ts rest) (hfuel : 10 * ts.length + 4 ≤ fuel)
    (hdepth : depth ≤ maxNestingDepth) : Expr.expression fuel depth ts = atDepth (depth + n) (e, rest) :=
  (h.parsed fuel depth hfuel hdepth).trans map_atDepth

private theorem Accepted.of_expression (hreads : Reads (.expression e) n ts rest)
    (h : ∀ fuel depth, 10 * ts.length + 3 ≤ fuel → depth ≤ maxNestingDepth →
      Expr.expression (fuel + 1) depth ts = atDepth (depth + n) (e, rest)) : Accepted (.expression e) n ts rest :=
  .of_succ hreads fun fuel depth hfuel hdepth =>
    (h fuel depth (Nat.le_of_succ_le_succ hfuel) hdepth).trans map_atDepth.symm

private theorem Accepted.operation (h : Accepted (.operation minimum e) n ts rest) (hfuel : 10 * ts.length + 3 ≤ fuel)
    (hdepth : depth ≤ maxNestingDepth) : Expr.operation fuel depth minimum ts = atDepth (depth + n) (e, rest) :=
  (h.parsed fuel depth hfuel hdepth).trans map_atDepth

private theorem Accepted.of_operation (hreads : Reads (.operation minimum e) n ts rest)
    (h : ∀ fuel depth, 10 * ts.length + 2 ≤ fuel → depth ≤ maxNestingDepth →
      Expr.operation (fuel + 1) depth minimum ts = atDepth (depth + n) (e, rest)) :
    Accepted (.operation minimum e) n ts rest :=
  .of_succ hreads fun fuel depth hfuel hdepth =>
    (h fuel depth (Nat.le_of_succ_le_succ hfuel) hdepth).trans map_atDepth.symm

private theorem Accepted.operatorChain (h : Accepted (.operatorChain minimum left e) n ts rest)
    (hfuel : 10 * ts.length + 1 ≤ fuel) (hdepth : depth ≤ maxNestingDepth) :
    Expr.operatorChain fuel depth minimum left ts = atDepth (depth + n) (e, rest) :=
  (h.parsed fuel depth hfuel hdepth).trans map_atDepth

private theorem Accepted.of_operatorChain (hreads : Reads (.operatorChain minimum left e) n ts rest)
    (h : ∀ fuel depth, 10 * ts.length ≤ fuel → depth ≤ maxNestingDepth →
      Expr.operatorChain (fuel + 1) depth minimum left ts = atDepth (depth + n) (e, rest)) :
    Accepted (.operatorChain minimum left e) n ts rest :=
  .of_succ hreads fun fuel depth hfuel hdepth =>
    (h fuel depth (Nat.le_of_succ_le_succ hfuel) hdepth).trans map_atDepth.symm

private theorem Accepted.operand (h : Accepted (.operand e) n ts rest) (hfuel : 10 * ts.length + 2 ≤ fuel)
    (hdepth : depth ≤ maxNestingDepth) : Expr.operand fuel depth ts = atDepth (depth + n) (e, rest) :=
  (h.parsed fuel depth hfuel hdepth).trans map_atDepth

private theorem Accepted.of_operand (hreads : Reads (.operand e) n ts rest)
    (h : ∀ fuel depth, 10 * ts.length + 1 ≤ fuel → depth ≤ maxNestingDepth →
      Expr.operand (fuel + 1) depth ts = atDepth (depth + n) (e, rest)) : Accepted (.operand e) n ts rest :=
  .of_succ hreads fun fuel depth hfuel hdepth =>
    (h fuel depth (Nat.le_of_succ_le_succ hfuel) hdepth).trans map_atDepth.symm

private theorem Accepted.accessChain (h : Accepted (.accessChain target e) n ts rest)
    (hfuel : 10 * ts.length + 1 ≤ fuel) (hdepth : depth ≤ maxNestingDepth) :
    Expr.accessChain fuel depth target ts = atDepth (depth + n) (e, rest) :=
  (h.parsed fuel depth hfuel hdepth).trans map_atDepth

private theorem Accepted.of_accessChain (hreads : Reads (.accessChain target e) n ts rest)
    (h : ∀ fuel depth, 10 * ts.length ≤ fuel → depth ≤ maxNestingDepth →
      Expr.accessChain (fuel + 1) depth target ts = atDepth (depth + n) (e, rest)) :
    Accepted (.accessChain target e) n ts rest :=
  .of_succ hreads fun fuel depth hfuel hdepth =>
    (h fuel depth (Nat.le_of_succ_le_succ hfuel) hdepth).trans map_atDepth.symm

private theorem Accepted.property (h : Accepted (.property target isOptional e) n ts rest)
    (hfuel : 10 * ts.length + 1 ≤ fuel) (hdepth : depth ≤ maxNestingDepth) :
    Expr.property fuel depth target isOptional ts = atDepth (depth + n) (e, rest) :=
  (h.parsed fuel depth hfuel hdepth).trans map_atDepth

private theorem Accepted.of_property (hreads : Reads (.property target isOptional e) n ts rest)
    (h : ∀ fuel depth, 10 * ts.length ≤ fuel → depth ≤ maxNestingDepth →
      Expr.property (fuel + 1) depth target isOptional ts = atDepth (depth + n) (e, rest)) :
    Accepted (.property target isOptional e) n ts rest :=
  .of_succ hreads fun fuel depth hfuel hdepth =>
    (h fuel depth (Nat.le_of_succ_le_succ hfuel) hdepth).trans map_atDepth.symm

private theorem Accepted.elements (h : Accepted (.elements close es) n ts rest) (hfuel : 10 * ts.length + 5 ≤ fuel)
    (hdepth : depth ≤ maxNestingDepth) : Expr.elements fuel depth close ts = atDepth (depth + n) (es, rest) :=
  (h.parsed fuel depth hfuel hdepth).trans map_atDepth

private theorem Accepted.of_elements (hreads : Reads (.elements close es) n ts rest)
    (h : ∀ fuel depth, 10 * ts.length + 4 ≤ fuel → depth ≤ maxNestingDepth →
      Expr.elements (fuel + 1) depth close ts = atDepth (depth + n) (es, rest)) : Accepted (.elements close es) n ts rest :=
  .of_succ hreads fun fuel depth hfuel hdepth =>
    (h fuel depth (Nat.le_of_succ_le_succ hfuel) hdepth).trans map_atDepth.symm

private theorem Accepted.entries (h : Accepted (.entries fields) n ts rest) (hfuel : 10 * ts.length + 1 ≤ fuel)
    (hdepth : depth ≤ maxNestingDepth) : Expr.entries fuel depth ts = atDepth (depth + n) (fields, rest) :=
  (h.parsed fuel depth hfuel hdepth).trans map_atDepth

private theorem Accepted.of_entries (hreads : Reads (.entries fields) n ts rest)
    (h : ∀ fuel depth, 10 * ts.length ≤ fuel → depth ≤ maxNestingDepth →
      Expr.entries (fuel + 1) depth ts = atDepth (depth + n) (fields, rest)) : Accepted (.entries fields) n ts rest :=
  .of_succ hreads fun fuel depth hfuel hdepth =>
    (h fuel depth (Nat.le_of_succ_le_succ hfuel) hdepth).trans map_atDepth.symm

private theorem Accepted.primary (h : Accepted (.primary e) n ts rest) (hfuel : 10 * ts.length + 1 ≤ fuel)
    (hdepth : depth ≤ maxNestingDepth) : Expr.primary fuel depth ts = atDepth (depth + n) (e, rest) :=
  (h.parsed fuel depth hfuel hdepth).trans map_atDepth

private theorem Accepted.of_primary (hreads : Reads (.primary e) n ts rest)
    (h : ∀ fuel depth, 10 * ts.length ≤ fuel → depth ≤ maxNestingDepth →
      Expr.primary (fuel + 1) depth ts = atDepth (depth + n) (e, rest)) : Accepted (.primary e) n ts rest :=
  .of_succ hreads fun fuel depth hfuel hdepth =>
    (h fuel depth (Nat.le_of_succ_le_succ hfuel) hdepth).trans map_atDepth.symm

end

private theorem expect_eq_error {close : Punct} {ts : List Token} (h : ts.head? ≠ some (.punct close)) :
    ∃ e, expect close ts = .error e := by
  unfold expect
  split
  · rw [if_neg]
    · exact ⟨_, rfl⟩
    · rintro rfl
      exact h rfl
  · exact ⟨_, rfl⟩

private theorem Reads.starts_with_name {target e : Expr} {isOptional : Bool} {n : Nat} {ts rest : List Token}
    (h : Reads (.property target isOptional e) n ts rest) : ∃ name ts', ts = .name name :: ts' := by
  cases h with
  | method _ => exact ⟨_, _, rfl⟩
  | member _ => exact ⟨_, _, rfl⟩

/-! The rules of the grammar, for what is accepted. -/

namespace Accepted
variable {n n₁ n₂ n₃ minimum precedence : Nat} {op : Operator} {sign : UnaryOp} {close : Punct} {isOptional : Bool}
  {key name : String} {left right test consequent alternate start target link place body e : Expr} {es : List Expr}
  {fields : List (String × Expr)} {params : List String} {ts ts₁ ts₂ rest : List Token}

private theorem plain (h : Accepted (.operation 0 e) n ts rest) (hquestion : rest.head? ≠ some (.punct .question)) :
    Accepted (.expression e) (n + 1) ts rest := by
  refine .of_expression (.plain h.reads hquestion) fun fuel depth hfuel hdepth => ?_
  rw [Expr.expression]
  refine atDepth_of_eq (bind_atDepth deeper_eq_atDepth fun hd =>
    bind_atDepth (k := 0) (h.operation (by omega) hd) fun _ => ?_) (by omega)
  dsimp only
  split
  · exact absurd rfl hquestion
  · rfl

private theorem conditional (htest : Accepted (.operation 0 test) n₁ ts (.punct .question :: ts₁))
    (hconsequent : Accepted (.expression consequent) n₂ ts₁ (.punct .colon :: ts₂))
    (halternate : Accepted (.expression alternate) n₃ ts₂ rest) :
    Accepted (.expression (.conditional test consequent alternate)) (max n₁ (max n₂ n₃) + 1) ts rest := by
  refine .of_expression (.conditional htest.reads hconsequent.reads halternate.reads) fun fuel depth hfuel hdepth => ?_
  have h₁ := htest.reads.length_le
  have h₂ := hconsequent.reads.length_le
  rw [List.length_cons] at h₁ h₂
  rw [Expr.expression]
  exact atDepth_of_eq (bind_atDepth deeper_eq_atDepth fun hd => bind_atDepth (htest.operation (by omega) hd) fun _ =>
    bind_atDepth (hconsequent.expression (by omega) hd) fun _ => bind_atDepth expect_eq_atDepth fun _ =>
      bind_atDepth (halternate.expression (by omega) hd) fun _ => ok_eq_atDepth_zero) (by omega)

private theorem of_operands (hleft : Accepted (.operand left) n₁ ts ts₁)
    (hchain : Accepted (.operatorChain minimum left e) n₂ ts₁ rest) :
    Accepted (.operation minimum e) (max n₁ n₂) ts rest := by
  refine .of_operation (.operation hleft.reads hchain.reads) fun fuel depth hfuel hdepth => ?_
  have h₁ := hleft.reads.length_le
  rw [Expr.operation]
  exact atDepth_of_eq (bind_atDepth (hleft.operand (by omega) hdepth) fun _ =>
    hchain.operatorChain (by omega) hdepth) (by omega)

private theorem noOperator (hnone : nextOperator? minimum ts = none) :
    Accepted (.operatorChain minimum left left) 0 ts ts := by
  refine .of_operatorChain (.noOperator hnone) fun fuel depth hfuel hdepth => ?_
  rw [Expr.operatorChain, hnone]
  exact (if_pos hdepth).symm

private theorem operator (hop : nextOperator? minimum ts = some (precedence, op, ts₁))
    (hright : Accepted (.operation (precedence + 1) right) n₁ ts₁ ts₂)
    (hchain : Accepted (.operatorChain minimum (op.join left right) e) n₂ ts₂ rest) :
    Accepted (.operatorChain minimum left e) (max n₁ n₂ + 1) ts rest := by
  refine .of_operatorChain (.operator hop hright.reads hchain.reads) fun fuel depth hfuel hdepth => ?_
  have h₁ := hright.reads.length_le
  rw [Expr.operatorChain, hop]
  obtain ⟨_, rfl, -⟩ := nextOperator?_eq_some hop
  rw [List.length_cons] at hfuel
  exact atDepth_of_eq (bind_atDepth deeper_eq_atDepth fun hd => bind_atDepth (hright.operation (by omega) hd) fun _ =>
    bind_atDepth deeper_eq_atDepth fun hd => hchain.operatorChain (by omega) hd) (by omega)

private theorem unary (hop : unaryOp? ts = some (sign, ts₁)) (h : Accepted (.operand e) n ts₁ rest) :
    Accepted (.operand (.unary sign e)) (n + 1) ts rest := by
  refine .of_operand (.unary hop h.reads) fun fuel depth hfuel hdepth => ?_
  rw [Expr.operand, hop]
  obtain ⟨_, rfl, -⟩ := unaryOp?_eq_some hop
  rw [List.length_cons] at hfuel
  exact atDepth_of_eq (bind_atDepth deeper_eq_atDepth fun hd => bind_atDepth (h.operand (by omega) hd) fun _ =>
    ok_eq_atDepth_zero) (by omega)

private theorem accessed (hnone : unaryOp? ts = none) (hstart : Accepted (.primary start) n₁ ts ts₁)
    (hchain : Accepted (.accessChain start e) n₂ ts₁ rest) : Accepted (.operand e) (max n₁ n₂) ts rest := by
  refine .of_operand (.accessed hnone hstart.reads hchain.reads) fun fuel depth hfuel hdepth => ?_
  have h₁ := hstart.reads.length_le
  rw [Expr.operand, hnone]
  exact atDepth_of_eq (bind_atDepth (hstart.primary (by omega) hdepth) fun _ =>
    hchain.accessChain (by omega) hdepth) (by omega)

private theorem noAccess (hnone : opensAccess ts.head? = false) : Accepted (.accessChain target target) 0 ts ts := by
  refine .of_accessChain (.noAccess hnone) fun fuel depth hfuel hdepth => ?_
  rw [Expr.accessChain.eq_def]
  dsimp only
  split
  case h_6 => exact (if_pos hdepth).symm
  all_goals cases hnone

private theorem dot (hlink : Accepted (.property target false link) n₁ ts ts₁)
    (hchain : Accepted (.accessChain link e) n₂ ts₁ rest) :
    Accepted (.accessChain target e) (max n₁ (n₂ + 1)) (.punct .dot :: ts) rest := by
  refine .of_accessChain (.dot hlink.reads hchain.reads) fun fuel depth hfuel hdepth => ?_
  have h₁ := hlink.reads.length_le
  rw [List.length_cons] at hfuel
  rw [Expr.accessChain]
  exact atDepth_of_eq (bind_atDepth (hlink.property (by omega) hdepth) fun _ => bind_atDepth deeper_eq_atDepth fun hd =>
    hchain.accessChain (by omega) hd) (by omega)

private theorem optionalDot (hlink : Accepted (.property target true link) n₁ ts ts₁)
    (hchain : Accepted (.accessChain link e) n₂ ts₁ rest) :
    Accepted (.accessChain target e) (max n₁ (n₂ + 1)) (.punct .optional :: ts) rest := by
  refine .of_accessChain (.optionalDot hlink.reads hchain.reads) fun fuel depth hfuel hdepth => ?_
  have h₁ := hlink.reads.length_le
  obtain ⟨_, _, rfl⟩ := hlink.reads.starts_with_name
  rw [List.length_cons] at hfuel
  rw [Expr.accessChain.eq_def]
  exact atDepth_of_eq (bind_atDepth (hlink.property (by omega) hdepth) fun _ => bind_atDepth deeper_eq_atDepth fun hd =>
    hchain.accessChain (by omega) hd) (by omega)

private theorem index (hkey : Accepted (.expression place) n₁ ts (.punct .closeBracket :: ts₁))
    (hchain : Accepted (.accessChain (.index target place false) e) n₂ ts₁ rest) :
    Accepted (.accessChain target e) (max n₁ (n₂ + 1)) (.punct .openBracket :: ts) rest := by
  refine .of_accessChain (.index hkey.reads hchain.reads) fun fuel depth hfuel hdepth => ?_
  have h₁ := hkey.reads.length_le
  rw [List.length_cons] at hfuel h₁
  rw [Expr.accessChain]
  exact atDepth_of_eq (bind_atDepth (hkey.expression (by omega) hdepth) fun _ => bind_atDepth expect_eq_atDepth fun _ =>
    bind_atDepth deeper_eq_atDepth fun hd => hchain.accessChain (by omega) hd) (by omega)

private theorem optionalIndex (hkey : Accepted (.expression place) n₁ ts (.punct .closeBracket :: ts₁))
    (hchain : Accepted (.accessChain (.index target place true) e) n₂ ts₁ rest) :
    Accepted (.accessChain target e) (max n₁ (n₂ + 1)) (.punct .optional :: .punct .openBracket :: ts) rest := by
  refine .of_accessChain (.optionalIndex hkey.reads hchain.reads) fun fuel depth hfuel hdepth => ?_
  have h₁ := hkey.reads.length_le
  simp only [List.length_cons] at hfuel h₁
  rw [Expr.accessChain]
  exact atDepth_of_eq (bind_atDepth (hkey.expression (by omega) hdepth) fun _ => bind_atDepth expect_eq_atDepth fun _ =>
    bind_atDepth deeper_eq_atDepth fun hd => hchain.accessChain (by omega) hd) (by omega)

private theorem call (hargs : Accepted (.elements .closeParen es) n₁ ts ts₁)
    (hchain : Accepted (.accessChain (.call target es) e) n₂ ts₁ rest) :
    Accepted (.accessChain target e) (max n₁ (n₂ + 1)) (.punct .openParen :: ts) rest := by
  refine .of_accessChain (.call hargs.reads hchain.reads) fun fuel depth hfuel hdepth => ?_
  have h₁ := hargs.reads.length_le
  rw [List.length_cons] at hfuel
  rw [Expr.accessChain]
  exact atDepth_of_eq (bind_atDepth (hargs.elements (by omega) hdepth) fun _ => bind_atDepth deeper_eq_atDepth fun hd =>
    hchain.accessChain (by omega) hd) (by omega)

private theorem method (h : Accepted (.elements .closeParen es) n ts rest) :
    Accepted (.property target isOptional (.method target name es isOptional)) n
      (.name name :: .punct .openParen :: ts) rest := by
  refine .of_property (.method h.reads) fun fuel depth hfuel hdepth => ?_
  simp only [List.length_cons] at hfuel
  rw [Expr.property]
  exact atDepth_of_eq (bind_atDepth ok_eq_atDepth_zero fun _ => bind_atDepth (h.elements (by omega) hdepth) fun _ =>
    ok_eq_atDepth_zero) (by omega)

private theorem member (hparen : ts.head? ≠ some (.punct .openParen)) :
    Accepted (.property target isOptional (.member target name isOptional)) 0 (.name name :: ts) ts := by
  refine .of_property (.member hparen) fun fuel depth hfuel hdepth => ?_
  rw [Expr.property]
  refine Eq.trans ?_ (if_pos hdepth).symm
  refine bind_atDepth (k := 0) ok_eq_atDepth_zero fun _ => ?_
  dsimp only
  split
  · exact absurd rfl hparen
  · rfl

private theorem noElement : Accepted (.elements close []) 0 (.punct close :: ts) ts := by
  refine .of_elements .noElement fun fuel depth hfuel hdepth => ?_
  rw [Expr.elements, expect_eq_atDepth]
  exact (if_pos hdepth).symm

private theorem lastElement (hcomma : close ≠ .comma) (hhead : ts.head? ≠ some (.punct close))
    (h : Accepted (.expression e) n ts (.punct close :: rest)) : Accepted (.elements close [e]) n ts rest := by
  refine .of_elements (.lastElement hcomma hhead h.reads) fun fuel depth hfuel hdepth => ?_
  obtain ⟨fault, hfault⟩ := expect_eq_error hhead
  rw [Expr.elements, hfault]
  refine atDepth_of_eq (bind_atDepth (k := 0) (h.expression (by omega) hdepth) fun _ => ?_) (by omega)
  dsimp only
  split
  · rename_i heq
    cases heq
    exact absurd rfl hcomma
  · exact bind_atDepth (k := 0) expect_eq_atDepth fun _ => ok_eq_atDepth_zero

private theorem element (hhead : ts.head? ≠ some (.punct close))
    (hfirst : Accepted (.expression e) n₁ ts (.punct .comma :: ts₁)) (hmore : Accepted (.elements close es) n₂ ts₁ rest) :
    Accepted (.elements close (e :: es)) (max n₁ n₂) ts rest := by
  refine .of_elements (.element hhead hfirst.reads hmore.reads) fun fuel depth hfuel hdepth => ?_
  have h₁ := hfirst.reads.length_le
  rw [List.length_cons] at h₁
  obtain ⟨fault, hfault⟩ := expect_eq_error hhead
  rw [Expr.elements, hfault]
  exact atDepth_of_eq (bind_atDepth (hfirst.expression (by omega) hdepth) fun _ =>
    bind_atDepth (hmore.elements (by omega) hdepth) fun _ => ok_eq_atDepth_zero) (by omega)

private theorem noEntry : Accepted (.entries []) 0 (.punct .closeBrace :: ts) ts := by
  refine .of_entries .noEntry fun fuel depth hfuel hdepth => ?_
  rw [Expr.entries]
  exact (if_pos hdepth).symm

private theorem lastEntry (hkey : entryKey ts = .ok (key, .punct .colon :: ts₁))
    (h : Accepted (.expression e) n ts₁ (.punct .closeBrace :: rest)) : Accepted (.entries [(key, e)]) n ts rest := by
  refine .of_entries (.lastEntry hkey h.reads) fun fuel depth hfuel hdepth => ?_
  obtain ⟨t, rfl, ht⟩ := entryKey_eq_ok hkey
  simp only [List.length_cons] at hfuel
  rw [Expr.entries.eq_def]
  dsimp only
  split
  · rename_i heq
    cases heq
    cases ht
  · exact atDepth_of_eq (bind_atDepth (hkey.trans ok_eq_atDepth_zero) fun _ => bind_atDepth expect_eq_atDepth fun _ =>
      bind_atDepth (h.expression (by omega) hdepth) fun _ => bind_atDepth expect_eq_atDepth fun _ =>
        ok_eq_atDepth_zero) (by omega)

private theorem entry (hkey : entryKey ts = .ok (key, .punct .colon :: ts₁))
    (hvalue : Accepted (.expression e) n₁ ts₁ (.punct .comma :: ts₂)) (hmore : Accepted (.entries fields) n₂ ts₂ rest) :
    Accepted (.entries ((key, e) :: fields)) (max n₁ n₂) ts rest := by
  refine .of_entries (.entry hkey hvalue.reads hmore.reads) fun fuel depth hfuel hdepth => ?_
  obtain ⟨t, rfl, ht⟩ := entryKey_eq_ok hkey
  have h₁ := hvalue.reads.length_le
  simp only [List.length_cons] at hfuel h₁
  rw [Expr.entries.eq_def]
  dsimp only
  split
  · rename_i heq
    cases heq
    cases ht
  · exact atDepth_of_eq (bind_atDepth (hkey.trans ok_eq_atDepth_zero) fun _ => bind_atDepth expect_eq_atDepth fun _ =>
      bind_atDepth (hvalue.expression (by omega) hdepth) fun _ => bind_atDepth (hmore.entries (by omega) hdepth) fun _ =>
        ok_eq_atDepth_zero) (by omega)

private theorem number {x : Float} : Accepted (.primary (.literal (.ofFloat x))) 0 (.number x :: ts) ts := by
  refine .of_primary .number fun fuel depth hfuel hdepth => ?_
  rw [Expr.primary]
  exact (if_pos hdepth).symm

private theorem text {s : String} : Accepted (.primary (.literal (.str s))) 0 (.text s :: ts) ts := by
  refine .of_primary .text fun fuel depth hfuel hdepth => ?_
  rw [Expr.primary]
  exact (if_pos hdepth).symm

private theorem ofName (hname : ts.head? ≠ some (.punct .arrow) ∨ isLiteralName name = true) :
    Accepted (.primary (named name)) 0 (.name name :: ts) ts := by
  refine .of_primary (.name hname) fun fuel depth hfuel hdepth => ?_
  rw [Expr.primary.eq_def]
  refine Eq.trans ?_ (if_pos hdepth).symm
  dsimp only
  split
  case h_3 heq =>
    cases heq
    rw [if_pos (hname.resolve_left fun h => h rfl)]
    rfl
  case h_4 heq =>
    cases heq
    rfl
  all_goals simp_all

private theorem arrow (hliteral : isLiteralName name = false) (h : Accepted (.expression body) n ts rest) :
    Accepted (.primary (.lambda [name] body)) n (.name name :: .punct .arrow :: ts) rest := by
  refine .of_primary (.arrow hliteral h.reads) fun fuel depth hfuel hdepth => ?_
  simp only [List.length_cons] at hfuel
  rw [Expr.primary, if_neg (by simp [hliteral])]
  exact atDepth_of_eq (bind_atDepth (h.expression (by omega) hdepth) fun _ => ok_eq_atDepth_zero) (by omega)

private theorem lambda (harrow : arrowParams? ts = some (params, ts₁)) (h : Accepted (.expression body) n ts₁ rest) :
    Accepted (.primary (.lambda params body)) n (.punct .openParen :: ts) rest := by
  refine .of_primary (.lambda harrow h.reads) fun fuel depth hfuel hdepth => ?_
  rw [Expr.primary, harrow]
  obtain ⟨used, rfl, -⟩ := arrowParams?_eq_some harrow
  simp only [List.length_cons, List.length_append] at hfuel
  exact atDepth_of_eq (bind_atDepth (h.expression (by omega) hdepth) fun _ => ok_eq_atDepth_zero) (by omega)

private theorem group (harrow : arrowParams? ts = none)
    (h : Accepted (.expression e) n ts (.punct .closeParen :: rest)) :
    Accepted (.primary e) n (.punct .openParen :: ts) rest := by
  refine .of_primary (.group harrow h.reads) fun fuel depth hfuel hdepth => ?_
  rw [List.length_cons] at hfuel
  rw [Expr.primary, harrow]
  exact atDepth_of_eq (bind_atDepth (h.expression (by omega) hdepth) fun _ => bind_atDepth expect_eq_atDepth fun _ =>
    ok_eq_atDepth_zero) (by omega)

private theorem array (h : Accepted (.elements .closeBracket es) n ts rest) :
    Accepted (.primary (.array es)) n (.punct .openBracket :: ts) rest := by
  refine .of_primary (.array h.reads) fun fuel depth hfuel hdepth => ?_
  rw [List.length_cons] at hfuel
  rw [Expr.primary]
  exact atDepth_of_eq (bind_atDepth (h.elements (by omega) hdepth) fun _ => ok_eq_atDepth_zero) (by omega)

private theorem object (h : Accepted (.entries fields) n ts rest) :
    Accepted (.primary (.object fields)) n (.punct .openBrace :: ts) rest := by
  refine .of_primary (.object h.reads) fun fuel depth hfuel hdepth => ?_
  rw [List.length_cons] at hfuel
  rw [Expr.primary]
  exact atDepth_of_eq (bind_atDepth (h.entries (by omega) hdepth) fun _ => ok_eq_atDepth_zero) (by omega)

end Accepted

/-- All that the grammar reads is accepted. -/
private theorem Reads.accepted {p : Phrase} {n : Nat} {ts rest : List Token} (h : Reads p n ts rest) :
    Accepted p n ts rest := by
  induction h with
  | plain _ hquestion ih => exact ih.plain hquestion
  | conditional _ _ _ ih₁ ih₂ ih₃ => exact ih₁.conditional ih₂ ih₃
  | operation _ _ ih₁ ih₂ => exact ih₁.of_operands ih₂
  | noOperator hnone => exact .noOperator hnone
  | operator hop _ _ ih₁ ih₂ => exact .operator hop ih₁ ih₂
  | unary hop _ ih => exact .unary hop ih
  | accessed hnone _ _ ih₁ ih₂ => exact .accessed hnone ih₁ ih₂
  | noAccess hnone => exact .noAccess hnone
  | dot _ _ ih₁ ih₂ => exact ih₁.dot ih₂
  | optionalIndex _ _ ih₁ ih₂ => exact ih₁.optionalIndex ih₂
  | optionalDot _ _ ih₁ ih₂ => exact ih₁.optionalDot ih₂
  | index _ _ ih₁ ih₂ => exact ih₁.index ih₂
  | call _ _ ih₁ ih₂ => exact ih₁.call ih₂
  | method _ ih => exact ih.method
  | member hparen => exact .member hparen
  | noElement => exact .noElement
  | lastElement hcomma hhead _ ih => exact .lastElement hcomma hhead ih
  | element hhead _ _ ih₁ ih₂ => exact .element hhead ih₁ ih₂
  | noEntry => exact .noEntry
  | lastEntry hkey _ ih => exact .lastEntry hkey ih
  | entry hkey _ _ ih₁ ih₂ => exact .entry hkey ih₁ ih₂
  | number => exact .number
  | text => exact .text
  | name hname => exact .ofName hname
  | arrow hliteral _ ih => exact .arrow hliteral ih
  | lambda harrow _ ih => exact .lambda harrow ih
  | group harrow _ ih => exact .group harrow ih
  | array _ ih => exact ih.array
  | object _ ih => exact ih.object

private theorem Reads.ne_nil {e : Expr} {n : Nat} {ts rest : List Token} (h : Reads (.expression e) n ts rest) :
    ts ≠ [] := by
  rintro rfl
  cases h with
  | plain hop _ | conditional hop _ _ =>
    cases hop with
    | operation hleft _ =>
      cases hleft with
      | unary hunary _ => cases hunary
      | accessed _ hstart _ => cases hstart

private theorem ofTokens_of_isEmpty {ts : List Token} (h : ts.isEmpty = true) :
    ofTokens ts = .error .emptyExpression := by
  rw [ofTokens, if_pos h]
  rfl

private theorem ofTokens_of_not_isEmpty {ts : List Token} (h : ts.isEmpty = false) :
    ofTokens ts = expression (parseFuel ts) 0 ts >>= fun
      | (e, []) => .ok e
      | (_, token :: _) => .error (.unexpected (some token)) := by
  rw [ofTokens, if_neg (by simp [h])]
  refine bind_congr fun ⟨e, rest⟩ => ?_
  cases rest <;> rfl

/-- Tokens of an expression give the expression, if no more levels are needed than there are. -/
theorem ofTokens_of_reads {e : Expr} {n : Nat} {ts : List Token} (h : Reads (.expression e) n ts []) :
    ofTokens ts = atDepth n e := by
  have hfuel : 10 * ts.length + 4 ≤ parseFuel ts := by
    rw [parseFuel]
    omega
  have hexpression := h.accepted.expression hfuel (Nat.zero_le maxNestingDepth)
  rw [Nat.zero_add] at hexpression
  rw [ofTokens_of_not_isEmpty (by simpa using h.ne_nil), bind_atDepth (k := 0) (b := e) hexpression,
    Nat.max_zero]
  exact fun _ => ok_eq_atDepth_zero

private theorem ofTokens_eq_ok_iff {e : Expr} {ts : List Token} :
    ofTokens ts = .ok e ↔ ∃ n ≤ maxNestingDepth, Reads (.expression e) n ts [] := by
  constructor
  · intro h
    cases hempty : ts.isEmpty with
    | true =>
      rw [ofTokens_of_isEmpty hempty] at h
      cases h
    | false =>
      rw [ofTokens_of_not_isEmpty hempty] at h
      obtain ⟨⟨e', rest⟩, hexpression, h⟩ := bind_eq_ok.mp h
      cases rest with
      | cons token rest => cases h
      | nil =>
        cases h
        obtain ⟨n, hreads, hn⟩ := sound (parseFuel ts) (.expression e) (Nat.zero_le _) hexpression
        exact ⟨n, by omega, hreads⟩
  · rintro ⟨n, hn, h⟩
    rw [ofTokens_of_reads h, atDepth, if_pos hn]

theorem parse_of_tooLong {source : String} (h : maxExpressionLength < source.utf8ByteSize) :
    parse source = .error .tooLong := by
  rw [parse, if_pos h]
  rfl

theorem parse_of_length_le {source : String} (h : source.utf8ByteSize ≤ maxExpressionLength) :
    parse source = Token.scan source >>= ofTokens := by
  rw [parse, if_neg (Nat.not_lt.mpr h)]

/-- A text is read as an expression just if it is short enough and its tokens are those of the expression. -/
theorem parse_eq_ok_iff {source : String} {e : Expr} :
    parse source = .ok e ↔ source.utf8ByteSize ≤ maxExpressionLength ∧
      ∃ ts, Token.scan source = .ok ts ∧ ∃ n ≤ maxNestingDepth, Reads (.expression e) n ts [] := by
  simp only [← ofTokens_eq_ok_iff]
  by_cases h : source.utf8ByteSize ≤ maxExpressionLength
  · simp only [parse_of_length_le h, bind_eq_ok, h, true_and]
  · simp [parse_of_tooLong (Nat.not_le.mp h), h]

end FlowEngine.Expr
