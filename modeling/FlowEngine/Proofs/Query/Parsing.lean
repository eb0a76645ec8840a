import FlowEngine.Proofs.Query.Grammar

/-! The parser of queries against the grammar: it reads the phrases of the grammar, and with steps enough all of them. -/
namespace FlowEngine.Query
open FlowEngine.Query.Parser

/-- The parser's function for a phrase comes to the phrase and the rest. -/
def Phrase.Parsed (fuel : Nat) (cs rest : List Char) : Phrase → Prop
  | segments inFilter p steps => Parser.segments fuel inFilter p cs = .ok (steps, rest)
  | bracket step => Parser.bracket fuel cs = .ok (step, rest)
  | condition c => Parser.condition fuel cs = .ok (c, rest)
  | alternatives left c => Parser.alternatives fuel left cs = .ok (c, rest)
  | conjunction c => Parser.conjunction fuel cs = .ok (c, rest)
  | conjuncts left c => Parser.conjuncts fuel left cs = .ok (c, rest)
  | comparison c => Parser.comparison fuel cs = .ok (c, rest)
  | operand o => Parser.operand fuel cs = .ok (o, rest)

/-! From the parser to the grammar. -/

/-- What the parser reads with so many steps is a phrase of the grammar. -/
def Sound (fuel : Nat) : Prop :=
  ∀ (p : Phrase) {cs rest : List Char}, p.Parsed fuel cs rest → ∃ n, Reads p n cs rest

section
variable {fuel : Nat} {cs rest : List Char} (ih : Sound fuel)

private theorem finish_eq_ok {p : Progress} {steps : List Step} (h : finish p cs = .ok (steps, rest)) :
    p.steps ≠ [] ∧ p.expects = false ∧ p.steps.reverse = steps ∧ cs = rest := by
  unfold finish at h
  split at h
  · cases h
  · rename_i hsteps
    split at h
    · cases h
    · rename_i hexpects
      cases h
      exact ⟨by simpa using hsteps, by simpa using hexpects, rfl, rfl⟩

private theorem head?_ne {c d : Char} (h : c = d → False) : (c :: cs).head? ≠ some d := by
  rw [List.head?_cons]
  exact fun hsame => h (Option.some.inj hsame)

theorem startsOr_eq_false (h : ∀ rest, cs = '|' :: '|' :: rest → False) : startsOr cs = false := by
  unfold startsOr
  split
  · exact (h _ rfl).elim
  · rfl

theorem startsAnd_eq_false (h : ∀ rest, cs = '&' :: '&' :: rest → False) : startsAnd cs = false := by
  unfold startsAnd
  split
  · exact (h _ rfl).elim
  · rfl

private theorem startsNested_eq_false (hnot : ∀ rest, cs = '!' :: rest → False)
    (hgroup : ∀ rest, cs = '(' :: rest → False) : startsNested cs.head? = false := by
  cases cs with
  | nil => rfl
  | cons c cs =>
    rw [List.head?_cons, startsNested, Bool.or_eq_false_iff, beq_eq_false_iff_ne, beq_eq_false_iff_ne]
    exact ⟨fun h => hnot cs (h ▸ rfl), fun h => hgroup cs (h ▸ rfl)⟩

include ih

private theorem sound_segments {inFilter : Bool} {p : Progress} {steps : List Step}
    (h : Parser.segments (fuel + 1) inFilter p cs = .ok (steps, rest)) :
    ∃ n, Reads (.segments inFilter p steps) n cs rest := by
  rw [Parser.segments.eq_def] at h
  dsimp only at h
  split at h
  · obtain ⟨hsteps, hexpects, rfl, rfl⟩ := finish_eq_ok h
    exact ⟨0, .finished hsteps hexpects nofun nofun⟩
  · simp only [bind_eq_ok_iff] at h
    obtain ⟨⟨step, cs₁⟩, hbracket, h⟩ := h
    obtain ⟨n₁, hbracket⟩ := ih (.bracket step) hbracket
    obtain ⟨n₂, hsteps⟩ := ih (.segments inFilter _ steps) h
    exact ⟨_, .bracketed hbracket hsteps⟩
  · rename_i c cs hbracket
    split at h
    · rename_i hexpects
      rw [Bool.not_eq_true'] at hexpects
      split at h
      · rename_i hdot
        obtain rfl := beq_iff_eq.mp hdot
        obtain ⟨n, hsteps⟩ := ih (.segments inFilter _ steps) h
        exact ⟨n, .dot hexpects hsteps⟩
      · rename_i hdot
        obtain ⟨hsteps, hexpects, rfl, rfl⟩ := finish_eq_ok h
        exact ⟨0, .finished hsteps hexpects (head?_ne hbracket) (head?_ne fun heq => hdot (beq_iff_eq.mpr heq))⟩
    · rename_i hexpects
      rw [Bool.not_eq_true', Bool.not_eq_false] at hexpects
      split at h
      · rename_i hcurrent
        obtain ⟨n, hsteps⟩ := ih (.segments inFilter _ steps) h
        exact ⟨n, .plain hexpects (if_pos hcurrent) hsteps⟩
      split at h
      · rename_i hcurrent hvalues
        obtain ⟨n, hsteps⟩ := ih (.segments inFilter _ steps) h
        exact ⟨n, .plain hexpects (by rw [plainSegment?, if_neg hcurrent, if_pos hvalues]) hsteps⟩
      split at h
      · rename_i hcurrent hvalues hquote
        simp only [bind_eq_ok_iff] at h
        obtain ⟨⟨name, cs₁⟩, hname, h⟩ := h
        obtain ⟨n, hsteps⟩ := ih (.segments inFilter _ steps) h
        exact ⟨n, .plain hexpects
          (by rw [plainSegment?, if_neg hcurrent, if_neg hvalues, if_pos hquote, hname]; rfl) hsteps⟩
      split at h
      · rename_i hcurrent hvalues hquote hname
        obtain ⟨n, hsteps⟩ := ih (.segments inFilter _ steps) h
        exact ⟨n, .plain hexpects
          (by rw [plainSegment?, if_neg hcurrent, if_neg hvalues, if_neg hquote, if_pos hname]) hsteps⟩
      · obtain ⟨-, hnone, -, -⟩ := finish_eq_ok h
        rw [hexpects] at hnone
        cases hnone

private theorem sound_bracket {step : Step} (h : Parser.bracket (fuel + 1) cs = .ok (step, rest)) :
    ∃ n, Reads (.bracket step) n cs rest := by
  rw [Parser.bracket.eq_def] at h
  dsimp only at h
  split at h
  · rename_i cs₁ hopen
    obtain ⟨⟨_, _⟩, hstep, h⟩ := bind_eq_ok_iff.mp h
    cases hstep
    dsimp only at h
    split at h
    · rename_i hclose
      cases h
      exact ⟨0, .select (by rw [hopen]; rfl) hclose⟩
    · cases h
  · rename_i cs₁ hopen
    simp only [bind_eq_ok_iff] at h
    obtain ⟨⟨c, cs₂⟩, hcondition, ⟨_, _⟩, hstep, h⟩ := h
    cases hstep
    obtain ⟨n, hcondition⟩ := ih (.condition c) hcondition
    dsimp only at h
    split at h
    · rename_i hclose
      cases h
      exact ⟨_, .filter hopen hcondition hclose⟩
    · cases h
  · rename_i cs₁ hopen
    obtain ⟨⟨_, _⟩, hstep, h⟩ := bind_eq_ok_iff.mp h
    cases hstep
    dsimp only at h
    split at h
    · rename_i hclose
      cases h
      exact ⟨0, .select (by rw [hopen]; rfl) hclose⟩
    · cases h
  · rename_i hitems hfilter hempty
    obtain ⟨⟨step', cs₂⟩, hstep, h⟩ := bind_eq_ok_iff.mp h
    dsimp only at h
    split at h
    · rename_i hclose
      cases h
      refine ⟨0, .select ?_ hclose⟩
      unfold plainBracket?
      split
      · exact (hitems _ ‹_›).elim
      · exact (hfilter _ ‹_›).elim
      · exact (hempty _ ‹_›).elim
      · rw [hstep]
        rfl
    · cases h

private theorem sound_condition {c : Condition} (h : Parser.condition (fuel + 1) cs = .ok (c, rest)) :
    ∃ n, Reads (.condition c) n cs rest := by
  rw [Parser.condition.eq_def] at h
  simp only [bind_eq_ok_iff] at h
  obtain ⟨⟨left, cs₁⟩, hleft, h⟩ := h
  obtain ⟨n₁, hleft⟩ := ih (.conjunction left) hleft
  obtain ⟨n₂, hmore⟩ := ih (.alternatives left c) h
  exact ⟨_, .condition hleft hmore⟩

private theorem sound_alternatives {left c : Condition} (h : Parser.alternatives (fuel + 1) left cs = .ok (c, rest)) :
    ∃ n, Reads (.alternatives left c) n cs rest := by
  rw [Parser.alternatives.eq_def] at h
  dsimp only at h
  split at h
  · rename_i cs₁ hsign
    simp only [bind_eq_ok_iff] at h
    obtain ⟨⟨right, cs₂⟩, hright, h⟩ := h
    obtain ⟨n₁, hright⟩ := ih (.conjunction right) hright
    obtain ⟨n₂, hmore⟩ := ih (.alternatives (.or left right) c) h
    exact ⟨_, .or hsign hright hmore⟩
  · rename_i hsign
    cases h
    exact ⟨0, .noOr (startsOr_eq_false hsign)⟩

private theorem sound_conjunction {c : Condition} (h : Parser.conjunction (fuel + 1) cs = .ok (c, rest)) :
    ∃ n, Reads (.conjunction c) n cs rest := by
  rw [Parser.conjunction.eq_def] at h
  simp only [bind_eq_ok_iff] at h
  obtain ⟨⟨left, cs₁⟩, hleft, h⟩ := h
  obtain ⟨n₁, hleft⟩ := ih (.comparison left) hleft
  obtain ⟨n₂, hmore⟩ := ih (.conjuncts left c) h
  exact ⟨_, .conjunction hleft hmore⟩

private theorem sound_conjuncts {left c : Condition} (h : Parser.conjuncts (fuel + 1) left cs = .ok (c, rest)) :
    ∃ n, Reads (.conjuncts left c) n cs rest := by
  rw [Parser.conjuncts.eq_def] at h
  dsimp only at h
  split at h
  · rename_i cs₁ hsign
    simp only [bind_eq_ok_iff] at h
    obtain ⟨⟨right, cs₂⟩, hright, h⟩ := h
    obtain ⟨n₁, hright⟩ := ih (.comparison right) hright
    obtain ⟨n₂, hmore⟩ := ih (.conjuncts (.and left right) c) h
    exact ⟨_, .and hsign hright hmore⟩
  · rename_i hsign
    cases h
    exact ⟨0, .noAnd (startsAnd_eq_false hsign)⟩

private theorem sound_comparison {c : Condition} (h : Parser.comparison (fuel + 1) cs = .ok (c, rest)) :
    ∃ n, Reads (.comparison c) n cs rest := by
  rw [Parser.comparison.eq_def] at h
  dsimp only at h
  split at h
  · rename_i cs₁ hsign
    obtain ⟨⟨inner, cs₂⟩, hinner, h⟩ := bind_eq_ok_iff.mp h
    cases h
    obtain ⟨n, hinner⟩ := ih (.comparison inner) hinner
    exact ⟨_, .not hsign hinner⟩
  · rename_i cs₁ hopen
    obtain ⟨⟨inner, cs₂⟩, hinner, h⟩ := bind_eq_ok_iff.mp h
    obtain ⟨n, hinner⟩ := ih (.condition inner) hinner
    dsimp only at h
    split at h
    · rename_i hclose
      cases h
      exact ⟨_, .group hopen hinner hclose⟩
    · cases h
  · rename_i hnot hgroup
    have hplain := startsNested_eq_false hnot hgroup
    obtain ⟨⟨left, cs₁⟩, hleft, h⟩ := bind_eq_ok_iff.mp h
    obtain ⟨n₁, hleft⟩ := ih (.operand left) hleft
    dsimp only at h
    split at h
    · rename_i sign cs₂ hsign
      obtain ⟨⟨right, cs₃⟩, hright, h⟩ := bind_eq_ok_iff.mp h
      cases h
      obtain ⟨n₂, hright⟩ := ih (.operand right) hright
      exact ⟨_, .compare hplain hleft hsign hright⟩
    · rename_i hsign
      cases h
      exact ⟨n₁, .holds hplain hleft hsign⟩

private theorem sound_operand {o : Operand} (h : Parser.operand (fuel + 1) cs = .ok (o, rest)) :
    ∃ n, Reads (.operand o) n cs rest := by
  rw [Parser.operand.eq_def] at h
  dsimp only at h
  split at h
  · rename_i cs₁ hquote
    obtain ⟨⟨s, cs₂⟩, hs, h⟩ := bind_eq_ok_iff.mp h
    cases h
    exact ⟨0, .literal (by rw [hquote, literal?, hs]; rfl)⟩
  · rename_i cs₁ hquote
    obtain ⟨⟨s, cs₂⟩, hs, h⟩ := bind_eq_ok_iff.mp h
    cases h
    exact ⟨0, .literal (by rw [hquote, literal?, hs]; rfl)⟩
  · rename_i hnil
    obtain ⟨⟨steps, cs₂⟩, hsteps, h⟩ := bind_eq_ok_iff.mp h
    cases h
    obtain ⟨n, hsteps⟩ := ih (.segments true _ steps) hsteps
    exact ⟨n, .path (by rw [hnil]; rfl) (hnil ▸ hsteps)⟩
  · rename_i c cs₁ hquote hbackquote hcons
    have hstart : startsLiteral (skipBlanks cs).head? = (c.isDigit || c == '-') := by
      have hquote' : (c == '\'') = false := beq_eq_false_iff_ne.mpr hquote
      have hbackquote' : (c == '\x60') = false := beq_eq_false_iff_ne.mpr hbackquote
      rw [hcons, List.head?_cons, startsLiteral, hquote', hbackquote', Bool.false_or, Bool.false_or]
    split at h
    · rename_i hnumber
      refine ⟨0, .literal ?_⟩
      rw [hcons] at hstart ⊢
      rw [literal?, hstart, hnumber, if_pos rfl, h]
      · rfl
      · exact fun _ hsame => hquote (List.cons.inj hsame).1
      · exact fun _ hsame => hbackquote (List.cons.inj hsame).1
    · rename_i hnumber
      obtain ⟨⟨steps, cs₂⟩, hsteps, h⟩ := bind_eq_ok_iff.mp h
      cases h
      obtain ⟨n, hsteps⟩ := ih (.segments true _ steps) hsteps
      exact ⟨n, .path (hstart.trans (Bool.eq_false_iff.mpr hnumber)) (hcons ▸ hsteps)⟩

end

theorem sound (fuel : Nat) : Sound fuel := by
  induction fuel with
  | zero =>
    intro p cs rest h
    cases p <;> cases h
  | succ fuel ih =>
    intro p cs rest h
    cases p with
    | segments inFilter p steps => exact sound_segments ih h
    | bracket step => exact sound_bracket ih h
    | condition c => exact sound_condition ih h
    | alternatives left c => exact sound_alternatives ih h
    | conjunction c => exact sound_conjunction ih h
    | conjuncts left c => exact sound_conjuncts ih h
    | comparison c => exact sound_comparison ih h
    | operand o => exact sound_operand ih h

/-! From the grammar to the parser. -/

/-- Steps of the parser that a phrase takes besides those for its characters. -/
def Phrase.steps : Phrase → Nat
  | condition _ => 5
  | conjunction _ => 4
  | comparison _ => 3
  | operand _ => 2
  | _ => 1

/-- The parser's function for a phrase reads it, if it has enough steps: ten for each character, and a few for the
functions that call one another before a character is taken. -/
def Accepted (p : Phrase) (cs rest : List Char) : Prop :=
  ∀ fuel, 10 * cs.length + p.steps ≤ fuel → p.Parsed fuel cs rest

section
variable {p p₁ p₂ : Phrase} {cs cs₁ cs₂ rest rest₁ rest₂ : List Char}

private theorem Accepted.of_succ (h : ∀ fuel, 10 * cs.length + p.steps ≤ fuel + 1 → p.Parsed (fuel + 1) cs rest) :
    Accepted p cs rest := by
  intro fuel hfuel
  cases fuel with
  | zero => cases p <;> simp [Phrase.steps] at hfuel
  | succ fuel => exact h fuel hfuel

private theorem Accepted.of_part (h₁ : Accepted p₁ cs₁ rest₁)
    (hsteps : 10 * cs₁.length + p₁.steps < 10 * cs.length + p.steps)
    (hjoin : ∀ {fuel}, p₁.Parsed fuel cs₁ rest₁ → p.Parsed (fuel + 1) cs rest) : Accepted p cs rest :=
  .of_succ fun fuel hfuel => hjoin (h₁ fuel (by omega))

private theorem Accepted.of_parts (h₁ : Accepted p₁ cs₁ rest₁) (h₂ : Accepted p₂ cs₂ rest₂)
    (hsteps₁ : 10 * cs₁.length + p₁.steps < 10 * cs.length + p.steps)
    (hsteps₂ : 10 * cs₂.length + p₂.steps < 10 * cs.length + p.steps)
    (hjoin : ∀ {fuel}, p₁.Parsed fuel cs₁ rest₁ → p₂.Parsed fuel cs₂ rest₂ → p.Parsed (fuel + 1) cs rest) :
    Accepted p cs rest :=
  .of_succ fun fuel hfuel => hjoin (h₁ fuel (by omega)) (h₂ fuel (by omega))

end

section
variable {fuel : Nat} {inFilter : Bool} {p : Progress} {step : Step} {steps : List Step} {left right c : Condition}
  {cs cs₁ cs₂ rest : List Char}

private theorem finish_eq (hsteps : p.steps ≠ []) (hexpects : p.expects = false) :
    finish p cs = .ok (p.steps.reverse, cs) := by
  rw [finish, if_neg (by simpa using hsteps), if_neg (by simp [hexpects])]

private theorem segments_finished (hsteps : p.steps ≠ []) (hexpects : p.expects = false)
    (hbracket : cs.head? ≠ some '[')
    (hdot : cs.head? ≠ some '.') : Parser.segments (fuel + 1) inFilter p cs = .ok (p.steps.reverse, cs) := by
  rw [Parser.segments.eq_def]
  dsimp only
  split
  · exact finish_eq hsteps hexpects
  · exact absurd rfl hbracket
  · rw [hexpects, Bool.not_false, if_pos rfl, if_neg, finish_eq hsteps hexpects]
    rw [beq_iff_eq]
    rintro rfl
    exact hdot rfl

private theorem segments_dot (hexpects : p.expects = false)
    (hsteps : Parser.segments fuel inFilter ⟨p.steps, true⟩ cs = .ok (steps, rest)) :
    Parser.segments (fuel + 1) inFilter p ('.' :: cs) = .ok (steps, rest) := by
  rw [Parser.segments.eq_def]
  change (if (!p.expects) = true then _ else _) = _
  rw [hexpects, Bool.not_false, if_pos rfl]
  exact hsteps

private theorem segments_plain (hexpects : p.expects = true) (hplain : plainSegment? inFilter cs = some (step, cs₁))
    (hsteps : Parser.segments fuel inFilter ⟨step :: p.steps, false⟩ cs₁ = .ok (steps, rest)) :
    Parser.segments (fuel + 1) inFilter p cs = .ok (steps, rest) := by
  rw [Parser.segments.eq_def]
  dsimp only
  split
  · cases hplain
  · cases hplain
  rw [hexpects, Bool.not_true, if_neg Bool.false_ne_true]
  unfold plainSegment? at hplain
  dsimp only at hplain
  split at hplain
  · rename_i hcurrent
    cases hplain
    rw [if_pos hcurrent]
    exact hsteps
  rename_i hcurrent
  rw [if_neg hcurrent]
  split at hplain
  · rename_i hvalues
    cases hplain
    rw [if_pos hvalues]
    exact hsteps
  rename_i hvalues
  rw [if_neg hvalues]
  split at hplain
  · rename_i hquote
    obtain ⟨⟨name, cs₂⟩, hname, hstep⟩ := Option.map_eq_some_iff.mp hplain
    cases hstep
    rw [if_pos hquote]
    exact bind_eq_ok_iff.mpr ⟨(name, cs₂), toOption_eq_some_iff.mp hname, hsteps⟩
  rename_i hquote
  rw [if_neg hquote]
  split at hplain
  · rename_i hname
    cases hplain
    rw [if_pos hname]
    exact hsteps
  · cases hplain

private theorem segments_bracketed (hstep : Parser.bracket fuel cs = .ok (step, cs₁))
    (hsteps : Parser.segments fuel inFilter ⟨step :: p.steps, false⟩ cs₁ = .ok (steps, rest)) :
    Parser.segments (fuel + 1) inFilter p ('[' :: cs) = .ok (steps, rest) := by
  rw [Parser.segments.eq_def]
  exact bind_eq_ok_iff.mpr ⟨(step, cs₁), hstep, hsteps⟩

private theorem bracket_select (hplain : plainBracket? (skipBlanks cs) = some (step, cs₁))
    (hclose : skipBlanks cs₁ = ']' :: rest) : Parser.bracket (fuel + 1) cs = .ok (step, rest) := by
  rw [Parser.bracket.eq_def]
  dsimp only
  unfold plainBracket? at hplain
  split
  · rename_i hopen
    rw [hopen] at hplain
    cases hplain
    refine bind_eq_ok_iff.mpr ⟨(.items, cs₁), rfl, ?_⟩
    dsimp only
    rw [hclose]
    rfl
  · rename_i hopen
    rw [hopen] at hplain
    cases hplain
  · rename_i hopen
    rw [hopen] at hplain
    cases hplain
    refine bind_eq_ok_iff.mpr ⟨(.items, _), rfl, ?_⟩
    dsimp only
    rw [hclose]
    rfl
  · rename_i hitems hfilter hempty
    split at hplain
    · exact (hitems _ ‹_›).elim
    · exact (hfilter _ ‹_›).elim
    · exact (hempty _ ‹_›).elim
    · refine bind_eq_ok_iff.mpr ⟨(step, cs₁), toOption_eq_some_iff.mp hplain, ?_⟩
      dsimp only
      rw [hclose]
      rfl

private theorem bracket_filter (hopen : skipBlanks cs = '?' :: cs₁) (hinner : Parser.condition fuel cs₁ = .ok (c, cs₂))
    (hclose : skipBlanks cs₂ = ']' :: rest) : Parser.bracket (fuel + 1) cs = .ok (.filter c, rest) := by
  rw [Parser.bracket.eq_def]
  dsimp only
  rw [hopen]
  refine bind_eq_ok_iff.mpr ⟨(c, cs₂), hinner, bind_eq_ok_iff.mpr ⟨(Step.filter c, cs₂), rfl, ?_⟩⟩
  dsimp only
  rw [hclose]
  rfl

private theorem condition_parts (hleft : Parser.conjunction fuel cs = .ok (left, cs₁))
    (hmore : Parser.alternatives fuel left cs₁ = .ok (c, rest)) : Parser.condition (fuel + 1) cs = .ok (c, rest) := by
  rw [Parser.condition.eq_def]
  exact bind_eq_ok_iff.mpr ⟨(left, cs₁), hleft, hmore⟩

private theorem alternatives_noOr (hsign : startsOr (skipBlanks cs) = false) :
    Parser.alternatives (fuel + 1) left cs = .ok (left, skipBlanks cs) := by
  rw [Parser.alternatives.eq_def]
  dsimp only
  split
  · rename_i heq
    rw [heq] at hsign
    cases hsign
  · rfl

private theorem alternatives_or (hsign : skipBlanks cs = '|' :: '|' :: cs₁)
    (hright : Parser.conjunction fuel cs₁ = .ok (right, cs₂))
    (hmore : Parser.alternatives fuel (.or left right) cs₂ = .ok (c, rest)) :
    Parser.alternatives (fuel + 1) left cs = .ok (c, rest) := by
  rw [Parser.alternatives.eq_def]
  dsimp only
  rw [hsign]
  exact bind_eq_ok_iff.mpr ⟨(right, cs₂), hright, hmore⟩

private theorem conjunction_parts (hleft : Parser.comparison fuel cs = .ok (left, cs₁))
    (hmore : Parser.conjuncts fuel left cs₁ = .ok (c, rest)) : Parser.conjunction (fuel + 1) cs = .ok (c, rest) := by
  rw [Parser.conjunction.eq_def]
  exact bind_eq_ok_iff.mpr ⟨(left, cs₁), hleft, hmore⟩

private theorem conjuncts_noAnd (hsign : startsAnd (skipBlanks cs) = false) :
    Parser.conjuncts (fuel + 1) left cs = .ok (left, skipBlanks cs) := by
  rw [Parser.conjuncts.eq_def]
  dsimp only
  split
  · rename_i heq
    rw [heq] at hsign
    cases hsign
  · rfl

private theorem conjuncts_and (hsign : skipBlanks cs = '&' :: '&' :: cs₁)
    (hright : Parser.comparison fuel cs₁ = .ok (right, cs₂))
    (hmore : Parser.conjuncts fuel (.and left right) cs₂ = .ok (c, rest)) :
    Parser.conjuncts (fuel + 1) left cs = .ok (c, rest) := by
  rw [Parser.conjuncts.eq_def]
  dsimp only
  rw [hsign]
  exact bind_eq_ok_iff.mpr ⟨(right, cs₂), hright, hmore⟩

private theorem comparison_not (hsign : skipBlanks cs = '!' :: cs₁)
    (hinner : Parser.comparison fuel cs₁ = .ok (c, rest)) : Parser.comparison (fuel + 1) cs = .ok (.not c, rest) := by
  rw [Parser.comparison.eq_def]
  dsimp only
  rw [hsign]
  exact bind_eq_ok_iff.mpr ⟨(c, rest), hinner, rfl⟩

private theorem comparison_group (hopen : skipBlanks cs = '(' :: cs₁)
    (hinner : Parser.condition fuel cs₁ = .ok (c, cs₂)) (hclose : skipBlanks cs₂ = ')' :: rest) :
    Parser.comparison (fuel + 1) cs = .ok (c, rest) := by
  rw [Parser.comparison.eq_def]
  dsimp only
  rw [hopen]
  refine bind_eq_ok_iff.mpr ⟨(c, cs₂), hinner, ?_⟩
  dsimp only
  rw [hclose]
  rfl

private theorem comparison_compare {l r : Operand} {sign : Comparison}
    (hplain : startsNested (skipBlanks cs).head? = false) (hleft : Parser.operand fuel (skipBlanks cs) = .ok (l, cs₁))
    (hsign : comparison? (skipBlanks cs₁) = some (sign, cs₂)) (hright : Parser.operand fuel cs₂ = .ok (r, rest)) :
    Parser.comparison (fuel + 1) cs = .ok (.compare l sign r, rest) := by
  rw [Parser.comparison.eq_def]
  dsimp only
  split
  · rename_i hnot
    rw [hnot] at hplain
    cases hplain
  · rename_i hgroup
    rw [hgroup] at hplain
    cases hplain
  · refine bind_eq_ok_iff.mpr ⟨(l, cs₁), hleft, ?_⟩
    dsimp only
    rw [hsign]
    exact bind_eq_ok_iff.mpr ⟨(r, rest), hright, rfl⟩

private theorem comparison_holds {o : Operand} (hplain : startsNested (skipBlanks cs).head? = false)
    (hoperand : Parser.operand fuel (skipBlanks cs) = .ok (o, cs₁)) (hsign : comparison? (skipBlanks cs₁) = none) :
    Parser.comparison (fuel + 1) cs = .ok (.holds o, skipBlanks cs₁) := by
  rw [Parser.comparison.eq_def]
  dsimp only
  split
  · rename_i hnot
    rw [hnot] at hplain
    cases hplain
  · rename_i hgroup
    rw [hgroup] at hplain
    cases hplain
  · refine bind_eq_ok_iff.mpr ⟨(o, cs₁), hoperand, ?_⟩
    dsimp only
    rw [hsign]

private theorem operand_literal {o : Operand} (hliteral : literal? (skipBlanks cs) = some (o, rest)) :
    Parser.operand (fuel + 1) cs = .ok (o, rest) := by
  rw [Parser.operand.eq_def]
  dsimp only
  split
  · rename_i ds hquote
    rw [hquote] at hliteral
    obtain ⟨⟨text, ds'⟩, htext, heq⟩ := Option.map_eq_some_iff.mp hliteral
    cases heq
    exact bind_eq_ok_iff.mpr ⟨(text, ds'), toOption_eq_some_iff.mp htext, rfl⟩
  · rename_i ds hquote
    rw [hquote] at hliteral
    obtain ⟨⟨text, ds'⟩, htext, heq⟩ := Option.map_eq_some_iff.mp hliteral
    cases heq
    exact bind_eq_ok_iff.mpr ⟨(text, ds'), toOption_eq_some_iff.mp htext, rfl⟩
  · rename_i hnil
    rw [hnil] at hliteral
    cases hliteral
  · rename_i c ds hquote hbackquote hcons
    rw [hcons, literal?] at hliteral
    · split at hliteral
      · rename_i hstart
        have hquote' : (c == '\'') = false := beq_eq_false_iff_ne.mpr hquote
        have hbackquote' : (c == '\x60') = false := beq_eq_false_iff_ne.mpr hbackquote
        rw [List.head?_cons, startsLiteral, hquote', hbackquote', Bool.false_or, Bool.false_or] at hstart
        rw [if_pos hstart]
        exact toOption_eq_some_iff.mp hliteral
      · cases hliteral
    · exact fun _ hsame => hquote (List.cons.inj hsame).1
    · exact fun _ hsame => hbackquote (List.cons.inj hsame).1

private theorem operand_path (hplain : startsLiteral (skipBlanks cs).head? = false)
    (hsteps : Parser.segments fuel true ⟨[], true⟩ (skipBlanks cs) = .ok (steps, rest)) :
    Parser.operand (fuel + 1) cs = .ok (.path steps, rest) := by
  rw [Parser.operand.eq_def]
  dsimp only
  split
  · rename_i hquote
    rw [hquote] at hplain
    cases hplain
  · rename_i hquote
    rw [hquote] at hplain
    cases hplain
  · rename_i hnil
    rw [hnil] at hsteps
    exact bind_eq_ok_iff.mpr ⟨(steps, rest), hsteps, rfl⟩
  · rename_i c ds _ _ hcons
    rw [hcons] at hplain hsteps
    rw [if_neg]
    · exact bind_eq_ok_iff.mpr ⟨(steps, rest), hsteps, rfl⟩
    · intro hnumber
      rw [List.head?_cons, startsLiteral, Bool.or_assoc, hnumber, Bool.or_true] at hplain
      cases hplain

end

/-- What the grammar reads is parsed with steps enough. -/
theorem Reads.accepted {p : Phrase} {n : Nat} {cs rest : List Char} (h : Reads p n cs rest) : Accepted p cs rest := by
  induction h with
  | finished hsteps hexpects hbracket hdot =>
    exact .of_succ fun fuel _ => segments_finished hsteps hexpects hbracket hdot
  | dot hexpects _ ih =>
    exact ih.of_part (by simp only [List.length_cons, Phrase.steps]; omega) (segments_dot hexpects)
  | @plain _ _ _ _ _ cs _ _ hexpects hplain _ ih =>
    refine ih.of_part ?_ (segments_plain hexpects hplain)
    cases cs with
    | nil => cases hplain
    | cons c cs =>
      have hlength := (plainSegment?_suffix hplain).length_le
      simp only [List.length_cons, Phrase.steps]
      omega
  | bracketed hbracket _ ih₁ ih₂ =>
    have hlength := hbracket.level_le
    refine ih₁.of_parts ih₂ ?_ ?_ segments_bracketed <;> simp only [List.length_cons, Phrase.steps] <;> omega
  | select hplain hclose => exact .of_succ fun fuel _ => bracket_select hplain hclose
  | filter hopen _ hclose ih =>
    have hinside := length_lt_of_skipBlanks hopen
    exact ih.of_part (by simp only [Phrase.steps]; omega) (bracket_filter hopen · hclose)
  | condition hleft _ ih₁ ih₂ =>
    have hlength := hleft.level_le
    refine ih₁.of_parts ih₂ ?_ ?_ condition_parts <;> simp only [Phrase.steps] <;> omega
  | noOr hsign => exact .of_succ fun fuel _ => alternatives_noOr hsign
  | or hsign hright _ ih₁ ih₂ =>
    have hinside := length_lt_of_skipBlanks hsign
    have hlength := hright.level_le
    rw [List.length_cons] at hinside
    refine ih₁.of_parts ih₂ ?_ ?_ (alternatives_or hsign) <;> simp only [Phrase.steps] <;> omega
  | conjunction hleft _ ih₁ ih₂ =>
    have hlength := hleft.level_le
    refine ih₁.of_parts ih₂ ?_ ?_ conjunction_parts <;> simp only [Phrase.steps] <;> omega
  | noAnd hsign => exact .of_succ fun fuel _ => conjuncts_noAnd hsign
  | and hsign hright _ ih₁ ih₂ =>
    have hinside := length_lt_of_skipBlanks hsign
    have hlength := hright.level_le
    rw [List.length_cons] at hinside
    refine ih₁.of_parts ih₂ ?_ ?_ (conjuncts_and hsign) <;> simp only [Phrase.steps] <;> omega
  | not hsign _ ih =>
    have hinside := length_lt_of_skipBlanks hsign
    exact ih.of_part (by simp only [Phrase.steps]; omega) (comparison_not hsign)
  | group hopen _ hclose ih =>
    have hinside := length_lt_of_skipBlanks hopen
    exact ih.of_part (by simp only [Phrase.steps]; omega) (comparison_group hopen · hclose)
  | @compare _ _ _ _ _ cs cs₁ _ _ hplain hleft hsign _ ih₁ ih₂ =>
    have hstart := length_skipBlanks_le cs
    have hlength := hleft.level_le
    have hbefore := length_skipBlanks_le cs₁
    have hright := comparison?_length hsign
    refine ih₁.of_parts ih₂ ?_ ?_ (comparison_compare hplain · hsign ·) <;> simp only [Phrase.steps] <;> omega
  | @holds _ _ cs _ hplain _ hsign ih =>
    have hstart := length_skipBlanks_le cs
    exact ih.of_part (by simp only [Phrase.steps]; omega) (comparison_holds hplain · hsign)
  | literal hliteral => exact .of_succ fun fuel _ => operand_literal hliteral
  | @path _ _ cs _ hplain _ ih =>
    have hstart := length_skipBlanks_le cs
    exact ih.of_part (by simp only [Phrase.steps]; omega) (operand_path hplain)

end FlowEngine.Query
