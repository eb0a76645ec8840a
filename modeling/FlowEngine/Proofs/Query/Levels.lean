import FlowEngine.Proofs.Query.Parsing

/-! A text is read by the grammar in one way and takes up one number of levels. Whole queries are read as the parser reads
them. -/
namespace FlowEngine.Query
open FlowEngine.Query.Parser

/-- Phrases that one function of the parser reads, called in one way. -/
def Phrase.Alike : Phrase → Phrase → Prop
  | segments inFilter p _, segments inFilter' p' _ => inFilter = inFilter' ∧ p = p'
  | bracket _, bracket _ => True
  | condition _, condition _ => True
  | alternatives left _, alternatives left' _ => left = left'
  | conjunction _, conjunction _ => True
  | conjuncts left _, conjuncts left' _ => left = left'
  | comparison _, comparison _ => True
  | operand _, operand _ => True
  | _, _ => False

/-- One text is read in one way. -/
private theorem Reads.unique {p p' : Phrase} {n m : Nat} {cs rest rest' : List Char} (h : Reads p n cs rest)
    (h' : Reads p' m cs rest') (halike : p.Alike p') : p = p' ∧ rest = rest' := by
  have hread := h.accepted (10 * cs.length + p.steps + p'.steps) (by omega)
  have hread' := h'.accepted (10 * cs.length + p.steps + p'.steps) (by omega)
  cases p <;> cases p' <;> try exact halike.elim
  case segments.segments =>
    obtain ⟨rfl, rfl⟩ := halike
    cases hread.symm.trans hread'
    exact ⟨rfl, rfl⟩
  case alternatives.alternatives | conjuncts.conjuncts =>
    obtain rfl := halike
    cases hread.symm.trans hread'
    exact ⟨rfl, rfl⟩
  all_goals
    cases hread.symm.trans hread'
    exact ⟨rfl, rfl⟩

/-! What a phrase is made of when it is read once more: the levels may be others, the parts are the same. -/

section
variable {inFilter : Bool} {p : Progress} {step : Step} {steps : List Step} {left right c : Condition}
  {o l r : Operand} {sign : Comparison} {n m : Nat} {cs cs₁ cs₂ rest : List Char}

private theorem Reads.of_finished (h : Reads (.segments inFilter p steps) n cs rest) (hexpects : p.expects = false)
    (hbracket : cs.head? ≠ some '[') (hdot : cs.head? ≠ some '.') : n = 0 := by
  cases h with
  | finished => rfl
  | dot => exact absurd rfl hdot
  | plain hexpects' => cases hexpects.symm.trans hexpects'
  | bracketed => exact absurd rfl hbracket

private theorem Reads.of_dot (h : Reads (.segments inFilter p steps) n ('.' :: cs) rest)
    (hexpects : p.expects = false) : Reads (.segments inFilter ⟨p.steps, true⟩ steps) n cs rest := by
  cases h with
  | finished _ _ _ hdot => exact absurd rfl hdot
  | dot _ h => exact h
  | plain hexpects' => cases hexpects.symm.trans hexpects'

private theorem Reads.of_plain (h : Reads (.segments inFilter p steps) n cs rest) (hexpects : p.expects = true)
    (hplain : plainSegment? inFilter cs = some (step, cs₁)) :
    Reads (.segments inFilter ⟨step :: p.steps, false⟩ steps) n cs₁ rest := by
  cases h with
  | finished _ hexpects' => cases hexpects.symm.trans hexpects'
  | dot hexpects' => cases hexpects.symm.trans hexpects'
  | plain _ hplain' h =>
    cases hplain.symm.trans hplain'
    exact h
  | bracketed => cases hplain

private theorem Reads.of_bracketed (h : Reads (.segments inFilter p steps) n ('[' :: cs) rest)
    (hbracket : Reads (.bracket step) m cs cs₁) : ∃ n₁ n₂, n = max n₁ n₂ ∧ Reads (.bracket step) n₁ cs cs₁ ∧
      Reads (.segments inFilter ⟨step :: p.steps, false⟩ steps) n₂ cs₁ rest := by
  cases h with
  | finished _ _ hne => exact absurd rfl hne
  | plain _ hplain => cases hplain
  | bracketed hbracket' h =>
    obtain ⟨heq, rfl⟩ := hbracket.unique hbracket' trivial
    cases heq
    exact ⟨_, _, rfl, hbracket', h⟩

private theorem Reads.of_select (h : Reads (.bracket step) n cs rest)
    (hplain : plainBracket? (skipBlanks cs) = some (step, cs₁)) : n = 0 := by
  cases h with
  | select => rfl
  | filter hopen =>
    rw [hopen] at hplain
    cases hplain

private theorem Reads.of_filter (h : Reads (.bracket (.filter c)) n cs rest) (hopen : skipBlanks cs = '?' :: cs₁)
    (hcondition : Reads (.condition c) m cs₁ cs₂) : ∃ n', n = n' + 1 ∧ Reads (.condition c) n' cs₁ cs₂ := by
  cases h with
  | select hplain =>
    rw [hopen] at hplain
    cases hplain
  | filter hopen' hcondition' =>
    cases hopen.symm.trans hopen'
    obtain ⟨-, rfl⟩ := hcondition.unique hcondition' trivial
    exact ⟨_, rfl, hcondition'⟩

private theorem Reads.of_condition (h : Reads (.condition c) n cs rest) (hleft : Reads (.conjunction left) m cs cs₁) :
    ∃ n₁ n₂, n = max n₁ n₂ ∧ Reads (.conjunction left) n₁ cs cs₁ ∧ Reads (.alternatives left c) n₂ cs₁ rest := by
  cases h with
  | condition hleft' h =>
    obtain ⟨heq, rfl⟩ := hleft.unique hleft' trivial
    cases heq
    exact ⟨_, _, rfl, hleft', h⟩

private theorem Reads.of_noOr (h : Reads (.alternatives left c) n cs rest) (hsign : startsOr (skipBlanks cs) = false) :
    n = 0 := by
  cases h with
  | noOr => rfl
  | or hsign' =>
    rw [hsign'] at hsign
    cases hsign

private theorem Reads.of_or (h : Reads (.alternatives left c) n cs rest) (hsign : skipBlanks cs = '|' :: '|' :: cs₁)
    (hright : Reads (.conjunction right) m cs₁ cs₂) : ∃ n₁ n₂, n = max n₁ n₂ ∧ Reads (.conjunction right) n₁ cs₁ cs₂ ∧
      Reads (.alternatives (.or left right) c) n₂ cs₂ rest := by
  cases h with
  | noOr hsign' =>
    rw [hsign] at hsign'
    cases hsign'
  | or hsign' hright' h =>
    cases hsign.symm.trans hsign'
    obtain ⟨heq, rfl⟩ := hright.unique hright' trivial
    cases heq
    exact ⟨_, _, rfl, hright', h⟩

private theorem Reads.of_conjunction (h : Reads (.conjunction c) n cs rest)
    (hleft : Reads (.comparison left) m cs cs₁) :
    ∃ n₁ n₂, n = max n₁ n₂ ∧ Reads (.comparison left) n₁ cs cs₁ ∧ Reads (.conjuncts left c) n₂ cs₁ rest := by
  cases h with
  | conjunction hleft' h =>
    obtain ⟨heq, rfl⟩ := hleft.unique hleft' trivial
    cases heq
    exact ⟨_, _, rfl, hleft', h⟩

private theorem Reads.of_noAnd (h : Reads (.conjuncts left c) n cs rest) (hsign : startsAnd (skipBlanks cs) = false) :
    n = 0 := by
  cases h with
  | noAnd => rfl
  | and hsign' =>
    rw [hsign'] at hsign
    cases hsign

private theorem Reads.of_and (h : Reads (.conjuncts left c) n cs rest) (hsign : skipBlanks cs = '&' :: '&' :: cs₁)
    (hright : Reads (.comparison right) m cs₁ cs₂) : ∃ n₁ n₂, n = max n₁ n₂ ∧ Reads (.comparison right) n₁ cs₁ cs₂ ∧
      Reads (.conjuncts (.and left right) c) n₂ cs₂ rest := by
  cases h with
  | noAnd hsign' =>
    rw [hsign] at hsign'
    cases hsign'
  | and hsign' hright' h =>
    cases hsign.symm.trans hsign'
    obtain ⟨heq, rfl⟩ := hright.unique hright' trivial
    cases heq
    exact ⟨_, _, rfl, hright', h⟩

private theorem Reads.of_not (h : Reads (.comparison (.not c)) n cs rest) (hsign : skipBlanks cs = '!' :: cs₁) :
    ∃ n', n = n' + 1 ∧ Reads (.comparison c) n' cs₁ rest := by
  cases h with
  | not hsign' h =>
    cases hsign.symm.trans hsign'
    exact ⟨_, rfl, h⟩
  | group hopen => cases hsign.symm.trans hopen

private theorem Reads.of_group (h : Reads (.comparison c) n cs rest) (hopen : skipBlanks cs = '(' :: cs₁)
    (hinner : Reads (.condition c) m cs₁ cs₂) : ∃ n', n = n' + 1 ∧ Reads (.condition c) n' cs₁ cs₂ := by
  cases h with
  | not hsign => cases hopen.symm.trans hsign
  | group hopen' hinner' =>
    cases hopen.symm.trans hopen'
    obtain ⟨-, rfl⟩ := hinner.unique hinner' trivial
    exact ⟨_, rfl, hinner'⟩
  | compare hplain | holds hplain =>
    rw [hopen] at hplain
    cases hplain

private theorem Reads.of_compare (h : Reads (.comparison (.compare l sign r)) n cs rest)
    (hplain : startsNested (skipBlanks cs).head? = false) (hleft : Reads (.operand l) m (skipBlanks cs) cs₁)
    (hsign : comparison? (skipBlanks cs₁) = some (sign, cs₂)) : ∃ n₁ n₂, n = max n₁ n₂ ∧
      Reads (.operand l) n₁ (skipBlanks cs) cs₁ ∧ Reads (.operand r) n₂ cs₂ rest := by
  cases h with
  | group hopen =>
    rw [hopen] at hplain
    cases hplain
  | compare _ hleft' hsign' hright' =>
    obtain ⟨-, rfl⟩ := hleft.unique hleft' trivial
    cases hsign.symm.trans hsign'
    exact ⟨_, _, rfl, hleft', hright'⟩

private theorem Reads.of_holds (h : Reads (.comparison (.holds o)) n cs rest)
    (hplain : startsNested (skipBlanks cs).head? = false) (hoperand : Reads (.operand o) m (skipBlanks cs) cs₁) :
    Reads (.operand o) n (skipBlanks cs) cs₁ := by
  cases h with
  | group hopen =>
    rw [hopen] at hplain
    cases hplain
  | holds _ hoperand' =>
    obtain ⟨-, rfl⟩ := hoperand.unique hoperand' trivial
    exact hoperand'

private theorem Reads.of_literal (h : Reads (.operand o) n cs rest)
    (hliteral : literal? (skipBlanks cs) = some (o, rest)) : n = 0 := by
  cases h with
  | literal => rfl
  | path hplain =>
    rw [startsLiteral_of_literal? hliteral] at hplain
    cases hplain

private theorem Reads.of_path (h : Reads (.operand (.path steps)) n cs rest)
    (hplain : startsLiteral (skipBlanks cs).head? = false) :
    Reads (.segments true ⟨[], true⟩ steps) n (skipBlanks cs) rest := by
  cases h with
  | literal hliteral =>
    rw [startsLiteral_of_literal? hliteral] at hplain
    cases hplain
  | path _ h => exact h

end

/-- A text that is read as a phrase takes up one number of levels. -/
private theorem Reads.level_unique {p : Phrase} {n m : Nat} {cs rest : List Char} (h : Reads p n cs rest)
    (h' : Reads p m cs rest) : n = m := by
  induction h generalizing m with
  | finished _ hexpects hbracket hdot => exact (h'.of_finished hexpects hbracket hdot).symm
  | dot hexpects _ ih => exact ih (h'.of_dot hexpects)
  | plain hexpects hplain _ ih => exact ih (h'.of_plain hexpects hplain)
  | bracketed hbracket _ ih₁ ih₂ =>
    obtain ⟨n₁, n₂, rfl, h₁, h₂⟩ := h'.of_bracketed hbracket
    rw [ih₁ h₁, ih₂ h₂]
  | select hplain _ => exact (h'.of_select hplain).symm
  | filter hopen hcondition _ ih =>
    obtain ⟨n', rfl, h⟩ := h'.of_filter hopen hcondition
    rw [ih h]
  | condition hleft _ ih₁ ih₂ =>
    obtain ⟨n₁, n₂, rfl, h₁, h₂⟩ := h'.of_condition hleft
    rw [ih₁ h₁, ih₂ h₂]
  | noOr hsign => exact (h'.of_noOr hsign).symm
  | or hsign hright _ ih₁ ih₂ =>
    obtain ⟨n₁, n₂, rfl, h₁, h₂⟩ := h'.of_or hsign hright
    rw [ih₁ h₁, ih₂ h₂]
  | conjunction hleft _ ih₁ ih₂ =>
    obtain ⟨n₁, n₂, rfl, h₁, h₂⟩ := h'.of_conjunction hleft
    rw [ih₁ h₁, ih₂ h₂]
  | noAnd hsign => exact (h'.of_noAnd hsign).symm
  | and hsign hright _ ih₁ ih₂ =>
    obtain ⟨n₁, n₂, rfl, h₁, h₂⟩ := h'.of_and hsign hright
    rw [ih₁ h₁, ih₂ h₂]
  | not hsign _ ih =>
    obtain ⟨n', rfl, h⟩ := h'.of_not hsign
    rw [ih h]
  | group hopen hinner _ ih =>
    obtain ⟨n', rfl, h⟩ := h'.of_group hopen hinner
    rw [ih h]
  | compare hplain hleft hsign _ ih₁ ih₂ =>
    obtain ⟨n₁, n₂, rfl, h₁, h₂⟩ := h'.of_compare hplain hleft hsign
    rw [ih₁ h₁, ih₂ h₂]
  | holds hplain hoperand _ ih => exact ih (h'.of_holds hplain hoperand)
  | literal hliteral => exact (h'.of_literal hliteral).symm
  | path hplain _ ih => exact ih (h'.of_path hplain)

/-! Whole queries. -/

section
variable {steps : List Step} {paths : List (List Step)} {n : Nat} {cs rest : List Char}

private theorem path_eq_ok_iff : Parser.path cs = .ok (steps, rest) ↔
    ∃ n, Reads (.segments false ⟨[], true⟩ steps) n (skipBlanks cs) rest := by
  constructor
  · exact sound (fuelFor cs) (.segments false ⟨[], true⟩ steps)
  · rintro ⟨n, h⟩
    refine h.accepted (fuelFor cs) ?_
    have hstart := length_skipBlanks_le cs
    simp only [fuelFor, Phrase.steps]
    omega

private theorem length_le_of_path (h : Parser.path cs = .ok (steps, rest)) : rest.length ≤ cs.length := by
  obtain ⟨n, hreads⟩ := path_eq_ok_iff.mp h
  have hlevel := hreads.level_le
  have hstart := length_skipBlanks_le cs
  omega

theorem ReadsPaths.level_le (h : ReadsPaths paths n cs) : n ≤ cs.length := by
  induction h with
  | @last _ _ cs _ hreads =>
    have hlevel := hreads.level_le
    have hstart := length_skipBlanks_le cs
    omega
  | @pipe _ _ _ _ cs _ _ hreads hbar _ _ ih =>
    have hlevel := hreads.level_le
    have hstart := length_skipBlanks_le cs
    have hbehind := length_lt_of_skipBlanks hbar
    omega

theorem ReadsPaths.level_unique {m : Nat} (h : ReadsPaths paths n cs) (h' : ReadsPaths paths m cs) : n = m := by
  induction h generalizing m with
  | last hreads hend =>
    cases h' with
    | last hreads' =>
      obtain ⟨-, rfl⟩ := hreads.unique hreads' ⟨rfl, rfl⟩
      exact hreads.level_unique hreads'
    | pipe _ _ _ h =>
      cases h
  | pipe hreads hbar _ hmore ih =>
    cases h' with
    | last => cases hmore
    | pipe hreads' hbar' _ hmore' =>
      obtain ⟨-, rfl⟩ := hreads.unique hreads' ⟨rfl, rfl⟩
      cases hbar.symm.trans hbar'
      rw [hreads.level_unique hreads', ih hmore']

private theorem readsPaths_of_pipes (hpath : Parser.path cs = .ok (steps, rest)) {fuel : Nat}
    (h : pipes fuel rest = .ok paths) : ∃ n, ReadsPaths (steps :: paths) n cs := by
  induction fuel generalizing cs steps rest paths with
  | zero => cases h
  | succ fuel ih =>
    obtain ⟨n₁, hreads⟩ := path_eq_ok_iff.mp hpath
    unfold pipes at h
    split at h
    · rename_i hend
      cases h
      exact ⟨n₁, .last hreads hend⟩
    · rename_i cs₁ hbar
      split at h
      · cases h
      · rename_i hor
        simp only [bind_eq_ok_iff] at h
        obtain ⟨⟨next, rest₁⟩, hnext, more, hmore, hpaths⟩ := h
        cases hpaths
        obtain ⟨n₂, hrest⟩ := ih hnext hmore
        exact ⟨_, .pipe hreads hbar (fun hsame => hor (beq_iff_eq.mpr hsame)) hrest⟩
    · cases h

private theorem ReadsPaths.pipes (h : ReadsPaths paths n cs) : ∃ steps more rest, paths = steps :: more ∧
    Parser.path cs = .ok (steps, rest) ∧ ∀ fuel, rest.length < fuel → Parser.pipes fuel rest = .ok more := by
  induction h with
  | @last steps n cs rest hreads hend =>
    refine ⟨steps, [], rest, rfl, path_eq_ok_iff.mpr ⟨n, hreads⟩, fun fuel hfuel => ?_⟩
    cases fuel with
    | zero => cases hfuel
    | succ fuel =>
      unfold Parser.pipes
      rw [hend]
  | @pipe steps paths n₁ n₂ cs cs₁ rest hreads hbar hor _ ih =>
    obtain ⟨next, more, rest₁, rfl, hpath, hmore⟩ := ih
    refine ⟨steps, next :: more, rest, rfl, path_eq_ok_iff.mpr ⟨n₁, hreads⟩, fun fuel hfuel => ?_⟩
    cases fuel with
    | zero => cases hfuel
    | succ fuel =>
      have hbehind := length_lt_of_skipBlanks hbar
      have hnext := length_le_of_path hpath
      unfold Parser.pipes
      rw [hbar]
      change (if (cs₁.head? == some '|') = true then _ else _) = _
      rw [if_neg (by simpa using hor)]
      exact bind_eq_ok_iff.mpr ⟨(next, rest₁), hpath, bind_eq_ok_iff.mpr ⟨more, hmore fuel (by omega), rfl⟩⟩

/-- A text is a query just if it is one by the grammar. -/
theorem parse_eq_ok_iff {source : String} : parse source = .ok paths ↔ ∃ n, ReadsPaths paths n source.toList := by
  have hparse : parse source = .ok paths ↔ (Parser.path source.toList >>= fun taken =>
      Parser.pipes (source.toList.length + 1) taken.2 >>= fun more => Except.ok (taken.1 :: more)) = .ok paths := by
    unfold parse
    extract_lets cs outcome
    change _ ↔ outcome = .ok paths
    cases outcome with
    | ok paths' => exact ⟨fun h => congrArg Except.ok (Except.ok.inj h), fun h => congrArg Except.ok (Except.ok.inj h)⟩
    | error fault => exact ⟨nofun, nofun⟩
  rw [hparse, bind_eq_ok_iff]
  constructor
  · rintro ⟨⟨first, rest⟩, hpath, h⟩
    obtain ⟨more, hmore, hpaths⟩ := bind_eq_ok_iff.mp h
    cases hpaths
    exact readsPaths_of_pipes hpath hmore
  · rintro ⟨n, h⟩
    obtain ⟨first, more, rest, rfl, hpath, hmore⟩ := h.pipes
    have hrest := length_le_of_path hpath
    exact ⟨(first, rest), hpath, bind_eq_ok_iff.mpr ⟨more, hmore _ (by omega), rfl⟩⟩

end

end FlowEngine.Query
