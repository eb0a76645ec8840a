import FlowEngine.Query.Parser
import FlowEngine.Proofs.Except

/-! The grammar of queries, with the levels of nesting that each phrase takes up: a filter, a negation and a pair of
parentheses are one level each. -/
namespace FlowEngine.Query
open FlowEngine.Query.Parser

/-- What a rule of the grammar reads, with what stands to the left of it where that matters. -/
inductive Phrase where
  | segments (inFilter : Bool) (progress : Progress) (steps : List Step)
  | bracket (step : Step)
  | condition (condition : Condition)
  | alternatives (left condition : Condition)
  | conjunction (condition : Condition)
  | conjuncts (left condition : Condition)
  | comparison (condition : Condition)
  | operand (operand : Operand)

/-- A segment of a path that is no bracket. -/
def plainSegment? (inFilter : Bool) : List Char → Option (Step × List Char)
  | [] => none
  | c :: cs =>
    if c == '@' then some (.current, cs)
    else if c == '*' then some (.values, cs)
    else if c == '\x22' then (quoted '\x22' cs).toOption.map (fun q => (.field q.1, q.2))
    else if Text.isAlphanumeric c || c == '_' then
      some (.field (String.ofList ((c :: cs).takeWhile (isNameChar inFilter))),
        (c :: cs).dropWhile (isNameChar inFilter))
    else none

/-- What stands in a bracket that is no filter. -/
def plainBracket? : List Char → Option (Step × List Char)
  | '*' :: cs => some (.items, cs)
  | '?' :: _ => none
  | ']' :: cs => some (.items, ']' :: cs)
  | cs => (index cs).toOption

def startsLiteral : Option Char → Bool
  | some c => c == '\'' || c == '\x60' || c.isDigit || c == '-'
  | none => false

def literal? : List Char → Option (Operand × List Char)
  | '\'' :: cs => (quoted '\'' cs).toOption.map (fun q => (.literal (.str q.1), q.2))
  | '\x60' :: cs => (quoted '\x60' cs).toOption.map (fun q => (.literal (literal q.1), q.2))
  | cs => if startsLiteral cs.head? then (number cs).toOption else none

def startsOr : List Char → Bool
  | '|' :: '|' :: _ => true
  | _ => false

def startsAnd : List Char → Bool
  | '&' :: '&' :: _ => true
  | _ => false

def startsNested : Option Char → Bool
  | some c => c == '!' || c == '('
  | none => false

/-- A phrase takes up levels of nesting and reads characters up to a rest. -/
inductive Reads : Phrase → Nat → List Char → List Char → Prop where
  | finished {inFilter : Bool} {p : Progress} {cs : List Char} : p.steps ≠ [] → p.expects = false →
      cs.head? ≠ some '[' → cs.head? ≠ some '.' → Reads (.segments inFilter p p.steps.reverse) 0 cs cs
  | dot {inFilter : Bool} {p : Progress} {steps : List Step} {n : Nat} {cs rest : List Char} : p.expects = false →
      Reads (.segments inFilter ⟨p.steps, true⟩ steps) n cs rest → Reads (.segments inFilter p steps) n ('.' :: cs) rest
  | plain {inFilter : Bool} {p : Progress} {step : Step} {steps : List Step} {n : Nat} {cs cs₁ rest : List Char} :
      p.expects = true → plainSegment? inFilter cs = some (step, cs₁) →
      Reads (.segments inFilter ⟨step :: p.steps, false⟩ steps) n cs₁ rest → Reads (.segments inFilter p steps) n cs rest
  | bracketed {inFilter : Bool} {p : Progress} {step : Step} {steps : List Step} {n₁ n₂ : Nat}
      {cs cs₁ rest : List Char} : Reads (.bracket step) n₁ cs cs₁ →
      Reads (.segments inFilter ⟨step :: p.steps, false⟩ steps) n₂ cs₁ rest →
      Reads (.segments inFilter p steps) (max n₁ n₂) ('[' :: cs) rest
  | select {step : Step} {cs cs₁ rest : List Char} : plainBracket? (skipBlanks cs) = some (step, cs₁) →
      skipBlanks cs₁ = ']' :: rest → Reads (.bracket step) 0 cs rest
  | filter {c : Condition} {n : Nat} {cs cs₁ cs₂ rest : List Char} : skipBlanks cs = '?' :: cs₁ →
      Reads (.condition c) n cs₁ cs₂ → skipBlanks cs₂ = ']' :: rest → Reads (.bracket (.filter c)) (n + 1) cs rest
  | condition {left c : Condition} {n₁ n₂ : Nat} {cs cs₁ rest : List Char} : Reads (.conjunction left) n₁ cs cs₁ →
      Reads (.alternatives left c) n₂ cs₁ rest → Reads (.condition c) (max n₁ n₂) cs rest
  | noOr {left : Condition} {cs : List Char} : startsOr (skipBlanks cs) = false →
      Reads (.alternatives left left) 0 cs (skipBlanks cs)
  | or {left right c : Condition} {n₁ n₂ : Nat} {cs cs₁ cs₂ rest : List Char} : skipBlanks cs = '|' :: '|' :: cs₁ →
      Reads (.conjunction right) n₁ cs₁ cs₂ → Reads (.alternatives (.or left right) c) n₂ cs₂ rest →
      Reads (.alternatives left c) (max n₁ n₂) cs rest
  | conjunction {left c : Condition} {n₁ n₂ : Nat} {cs cs₁ rest : List Char} : Reads (.comparison left) n₁ cs cs₁ →
      Reads (.conjuncts left c) n₂ cs₁ rest → Reads (.conjunction c) (max n₁ n₂) cs rest
  | noAnd {left : Condition} {cs : List Char} : startsAnd (skipBlanks cs) = false →
      Reads (.conjuncts left left) 0 cs (skipBlanks cs)
  | and {left right c : Condition} {n₁ n₂ : Nat} {cs cs₁ cs₂ rest : List Char} : skipBlanks cs = '&' :: '&' :: cs₁ →
      Reads (.comparison right) n₁ cs₁ cs₂ → Reads (.conjuncts (.and left right) c) n₂ cs₂ rest →
      Reads (.conjuncts left c) (max n₁ n₂) cs rest
  | not {c : Condition} {n : Nat} {cs cs₁ rest : List Char} : skipBlanks cs = '!' :: cs₁ →
      Reads (.comparison c) n cs₁ rest → Reads (.comparison (.not c)) (n + 1) cs rest
  | group {c : Condition} {n : Nat} {cs cs₁ cs₂ rest : List Char} : skipBlanks cs = '(' :: cs₁ →
      Reads (.condition c) n cs₁ cs₂ → skipBlanks cs₂ = ')' :: rest → Reads (.comparison c) (n + 1) cs rest
  | compare {left right : Operand} {sign : Comparison} {n₁ n₂ : Nat} {cs cs₁ cs₂ rest : List Char} :
      startsNested (skipBlanks cs).head? = false → Reads (.operand left) n₁ (skipBlanks cs) cs₁ →
      comparison? (skipBlanks cs₁) = some (sign, cs₂) → Reads (.operand right) n₂ cs₂ rest →
      Reads (.comparison (.compare left sign right)) (max n₁ n₂) cs rest
  | holds {o : Operand} {n : Nat} {cs cs₁ : List Char} : startsNested (skipBlanks cs).head? = false →
      Reads (.operand o) n (skipBlanks cs) cs₁ → comparison? (skipBlanks cs₁) = none →
      Reads (.comparison (.holds o)) n cs (skipBlanks cs₁)
  | literal {o : Operand} {cs rest : List Char} : literal? (skipBlanks cs) = some (o, rest) →
      Reads (.operand o) 0 cs rest
  | path {steps : List Step} {n : Nat} {cs rest : List Char} : startsLiteral (skipBlanks cs).head? = false →
      Reads (.segments true ⟨[], true⟩ steps) n (skipBlanks cs) rest → Reads (.operand (.path steps)) n cs rest

/-- The paths of a whole query, divided by bars, with the levels of nesting that they take up. -/
inductive ReadsPaths : List (List Step) → Nat → List Char → Prop where
  | last {steps : List Step} {n : Nat} {cs rest : List Char} :
      Reads (.segments false ⟨[], true⟩ steps) n (skipBlanks cs) rest → skipBlanks rest = [] → ReadsPaths [steps] n cs
  | pipe {steps : List Step} {paths : List (List Step)} {n₁ n₂ : Nat} {cs cs₁ rest : List Char} :
      Reads (.segments false ⟨[], true⟩ steps) n₁ (skipBlanks cs) rest → skipBlanks rest = '|' :: cs₁ →
      cs₁.head? ≠ some '|' → ReadsPaths paths n₂ cs₁ → ReadsPaths (steps :: paths) (max n₁ n₂) cs

/-! What the readers without rules of their own take off the text. -/

section
variable {cs rest : List Char} {quote : Char} {inFilter : Bool}

private theorem skipBlanks_suffix : skipBlanks cs <:+ cs := List.dropWhile_suffix _

theorem length_skipBlanks_le (cs : List Char) : (skipBlanks cs).length ≤ cs.length := skipBlanks_suffix.length_le

theorem length_lt_of_skipBlanks {c : Char} (h : skipBlanks cs = c :: rest) : rest.length < cs.length := by
  have hle := length_skipBlanks_le cs
  rw [h, List.length_cons] at hle
  omega

theorem toOption_eq_some_iff {ε α : Type} {x : Except ε α} {a : α} : x.toOption = some a ↔ x = .ok a := by
  cases x <;> simp [Except.toOption]

private theorem quotedFrom_suffix {done : List Char} {s : String} (h : quotedFrom quote done cs = .ok (s, rest)) :
    rest <:+ cs := by
  fun_induction quotedFrom quote done cs with
  | case1 => cases h
  | case2 => cases h
  | case3 =>
    cases h
    exact List.nil_suffix
  | case4 => cases h
  | case5 done c d cs hescape ih => exact (ih h).trans ((List.suffix_cons d cs).trans (List.suffix_cons c _))
  | case6 done c d cs =>
    cases h
    exact List.suffix_cons c _
  | case7 done c d cs hescape hend ih => exact (ih h).trans (List.suffix_cons c _)

private theorem quoted_suffix {s : String} (h : quoted quote cs = .ok (s, rest)) : rest <:+ cs := quotedFrom_suffix h

private theorem index_suffix {step : Step} (h : index cs = .ok (step, rest)) : rest <:+ cs := by
  unfold index at h
  dsimp only at h
  split at h
  · cases h
    split
    · exact (List.dropWhile_suffix _).trans (List.suffix_cons _ _)
    · exact List.dropWhile_suffix _
  · cases h

private theorem number_suffix {o : Operand} (h : number cs = .ok (o, rest)) : rest <:+ cs := by
  unfold number at h
  dsimp only at h
  split at h
  · cases h
    exact (List.dropWhile_suffix _).trans (List.drop_suffix 1 cs)
  · cases h

theorem plainSegment?_suffix {c : Char} {step : Step} (h : plainSegment? inFilter (c :: cs) = some (step, rest)) :
    rest <:+ cs := by
  unfold plainSegment? at h
  dsimp only at h
  split at h
  · cases h
    exact List.suffix_refl _
  · split at h
    · cases h
      exact List.suffix_refl _
    · split at h
      · obtain ⟨⟨s, rest'⟩, hquoted, hrest⟩ := Option.map_eq_some_iff.mp h
        cases hrest
        exact quoted_suffix (toOption_eq_some_iff.mp hquoted)
      · split at h
        · rename_i hname
          cases h
          rw [List.dropWhile_cons_of_pos]
          · exact List.dropWhile_suffix _
          · simp only [isNameChar, Bool.or_eq_true] at hname ⊢
            exact .inl hname
        · cases h

private theorem plainBracket?_suffix {step : Step} (h : plainBracket? cs = some (step, rest)) : rest <:+ cs := by
  unfold plainBracket? at h
  split at h
  · cases h
    exact List.suffix_cons _ _
  · cases h
  · cases h
    exact List.suffix_refl _
  · exact index_suffix (toOption_eq_some_iff.mp h)

private theorem literal?_suffix {o : Operand} (h : literal? cs = some (o, rest)) : rest <:+ cs := by
  unfold literal? at h
  split at h
  · obtain ⟨⟨s, rest'⟩, hquoted, hrest⟩ := Option.map_eq_some_iff.mp h
    cases hrest
    exact (quoted_suffix (toOption_eq_some_iff.mp hquoted)).trans (List.suffix_cons _ _)
  · obtain ⟨⟨s, rest'⟩, hquoted, hrest⟩ := Option.map_eq_some_iff.mp h
    cases hrest
    exact (quoted_suffix (toOption_eq_some_iff.mp hquoted)).trans (List.suffix_cons _ _)
  · split at h
    · exact number_suffix (toOption_eq_some_iff.mp h)
    · cases h

theorem startsLiteral_of_literal? {o : Operand} (h : literal? cs = some (o, rest)) : startsLiteral cs.head? = true := by
  unfold literal? at h
  split at h
  · rfl
  · rfl
  · split at h
    · assumption
    · cases h

theorem comparison?_length {sign : Comparison} (h : comparison? cs = some (sign, rest)) : rest.length < cs.length := by
  unfold comparison? at h
  split at h <;> cases h <;> simp only [List.length_cons] <;> omega

end

/-- Every level takes a character. -/
theorem Reads.level_le {p : Phrase} {n : Nat} {cs rest : List Char} (h : Reads p n cs rest) :
    n + rest.length ≤ cs.length := by
  induction h with
  | finished => simp
  | dot _ _ ih => simp only [List.length_cons]; omega
  | plain _ hplain _ ih =>
    rename_i cs cs₁ _ _ _
    cases cs with
    | nil => cases hplain
    | cons c cs =>
      have hsuffix := (plainSegment?_suffix hplain).length_le
      simp only [List.length_cons]
      omega
  | bracketed _ _ ih₁ ih₂ => simp only [List.length_cons]; omega
  | @select _ cs _ _ hplain hclose =>
    have hopen := length_skipBlanks_le cs
    have hinside := (plainBracket?_suffix hplain).length_le
    have hrest := length_lt_of_skipBlanks hclose
    omega
  | filter hopen _ hclose ih | group hopen _ hclose ih =>
    have hinside := length_lt_of_skipBlanks hopen
    have hrest := length_lt_of_skipBlanks hclose
    omega
  | condition _ _ ih₁ ih₂ | conjunction _ _ ih₁ ih₂ => omega
  | @noOr _ cs | @noAnd _ cs =>
    have hrest := length_skipBlanks_le cs
    omega
  | or hsign _ _ ih₁ ih₂ | and hsign _ _ ih₁ ih₂ =>
    have hright := length_lt_of_skipBlanks hsign
    simp only [List.length_cons] at hright
    omega
  | not hsign _ ih =>
    have hinside := length_lt_of_skipBlanks hsign
    omega
  | @compare _ _ _ _ _ cs cs₁ _ _ _ _ hsign _ ih₁ ih₂ =>
    have hstart := length_skipBlanks_le cs
    have hbefore := length_skipBlanks_le cs₁
    have hright := comparison?_length hsign
    omega
  | @holds _ _ cs cs₁ _ _ _ ih =>
    have hstart := length_skipBlanks_le cs
    have hrest := length_skipBlanks_le cs₁
    omega
  | @literal _ cs _ hliteral =>
    have hstart := length_skipBlanks_le cs
    have hrest := (literal?_suffix hliteral).length_le
    omega
  | @path _ _ cs _ _ _ ih =>
    have hstart := length_skipBlanks_le cs
    omega

end FlowEngine.Query
