import FlowEngine.Proofs.Query.Levels

/-! A bar between two queries makes one query of them, which applies the second to the answer of the first. -/
namespace FlowEngine.Query
open FlowEngine.Query.Parser

/-! What is read before a bar is read as if the text ended there. -/

section
variable {p : Char → Bool} {cs rest q : List Char} {quote c : Char} {inFilter : Bool}

private theorem dropWhile_append_bar (h : p '|' = false) :
    (cs ++ '|' :: q).dropWhile p = cs.dropWhile p ++ '|' :: q := by
  induction cs with
  | nil => rw [List.nil_append, List.dropWhile_cons_of_neg (by rw [h]; exact Bool.false_ne_true), List.dropWhile_nil,
      List.nil_append]
  | cons c cs ih =>
    rw [List.cons_append]
    by_cases hc : p c = true
    · rw [List.dropWhile_cons_of_pos hc, List.dropWhile_cons_of_pos hc, ih]
    · rw [List.dropWhile_cons_of_neg hc, List.dropWhile_cons_of_neg hc, List.cons_append]

private theorem takeWhile_append_bar (h : p '|' = false) : (cs ++ '|' :: q).takeWhile p = cs.takeWhile p := by
  induction cs with
  | nil => rw [List.nil_append, List.takeWhile_cons_of_neg (by rw [h]; exact Bool.false_ne_true), List.takeWhile_nil]
  | cons c cs ih =>
    rw [List.cons_append]
    by_cases hc : p c = true
    · rw [List.takeWhile_cons_of_pos hc, List.takeWhile_cons_of_pos hc, ih]
    · rw [List.takeWhile_cons_of_neg hc, List.takeWhile_cons_of_neg hc]

private theorem skipBlanks_append_bar : skipBlanks (cs ++ '|' :: q) = skipBlanks cs ++ '|' :: q :=
  dropWhile_append_bar (by decide)

private theorem isNameChar_bar : isNameChar inFilter '|' = false := by
  cases inFilter <;> decide

private theorem head?_append_bar (hc : c ≠ '|') (h : cs.head? ≠ some c) : (cs ++ '|' :: q).head? ≠ some c := by
  cases cs with
  | nil => exact fun hsame => hc (Option.some.inj hsame).symm
  | cons d cs => exact h

private theorem eq_cons_of_append_bar (hc : c ≠ '|') (h : cs ++ '|' :: q = c :: rest) : ∃ rest', cs = c :: rest' := by
  cases cs with
  | nil => exact absurd (List.cons.inj h).1.symm hc
  | cons c' cs =>
    obtain ⟨rfl, -⟩ := List.cons.inj h
    exact ⟨cs, rfl⟩

private theorem eq_cons_cons_of_append_bar {d : Char} (hc : c ≠ '|') (hd : d ≠ '|')
    (h : cs ++ '|' :: q = c :: d :: rest) : ∃ rest', cs = c :: d :: rest' := by
  obtain ⟨cs, rfl⟩ := eq_cons_of_append_bar hc h
  obtain ⟨rest', rfl⟩ := eq_cons_of_append_bar hd (List.cons.inj h).2
  exact ⟨rest', rfl⟩

private theorem quotedFrom_append_bar {done : List Char} {s : String} (h : quotedFrom quote done cs = .ok (s, rest)) :
    quotedFrom quote done (cs ++ '|' :: q) = .ok (s, rest ++ '|' :: q) := by
  fun_induction quotedFrom quote done cs with
  | case1 => cases h
  | case2 => cases h
  | case3 done c hescape hend =>
    cases h
    rw [List.singleton_append, quotedFrom, if_neg hescape, if_pos hend, List.nil_append]
  | case4 => cases h
  | case5 done c d cs hescape ih =>
    rw [List.cons_append, List.cons_append, quotedFrom, if_pos hescape]
    exact ih h
  | case6 done c d cs hescape hend =>
    cases h
    rw [List.cons_append, List.cons_append, quotedFrom, if_neg hescape, if_pos hend]
  | case7 done c d cs hescape hend ih =>
    rw [List.cons_append, List.cons_append, quotedFrom, if_neg hescape, if_neg hend]
    exact ih h

private theorem quoted_append_bar {s : String} (h : quoted quote cs = .ok (s, rest)) :
    quoted quote (cs ++ '|' :: q) = .ok (s, rest ++ '|' :: q) :=
  quotedFrom_append_bar h

def indexBehind (sign ds : List Char) : Except Fault (Step × List Char) :=
  match Decimal.signed? (String.ofList (sign ++ ds.takeWhile Char.isDigit)) with
  | some position => .ok (.index position, ds.dropWhile Char.isDigit)
  | none => .error (.noIndex, ds.dropWhile Char.isDigit)

private theorem index_of_ne_minus (h : cs.head? ≠ some '-') : index cs = indexBehind [] cs := by
  unfold index
  split
  rename_i sign ds hsign
  split at hsign
  · exact absurd rfl h
  · cases hsign
    rfl

private theorem indexBehind_append_bar {sign : List Char} {step : Step} (h : indexBehind sign cs = .ok (step, rest)) :
    indexBehind sign (cs ++ '|' :: q) = .ok (step, rest ++ '|' :: q) := by
  unfold indexBehind at h ⊢
  rw [takeWhile_append_bar (by decide), dropWhile_append_bar (by decide)]
  split at h
  · cases h
    rfl
  · cases h

private theorem index_append_bar {step : Step} (h : index cs = .ok (step, rest)) :
    index (cs ++ '|' :: q) = .ok (step, rest ++ '|' :: q) := by
  by_cases hsign : cs.head? = some '-'
  · obtain ⟨ds, rfl⟩ := List.head?_eq_some_iff.mp hsign
    exact indexBehind_append_bar h
  · rw [index_of_ne_minus hsign] at h
    rw [index_of_ne_minus (head?_append_bar (by decide) hsign)]
    exact indexBehind_append_bar h

private theorem number_append_bar {o : Operand} (hne : cs ≠ []) (h : number cs = .ok (o, rest)) :
    number (cs ++ '|' :: q) = .ok (o, rest ++ '|' :: q) := by
  obtain ⟨c, cs, rfl⟩ := List.exists_cons_of_ne_nil hne
  unfold number at h ⊢
  rw [List.cons_append]
  simp only [List.drop_succ_cons, List.drop_zero, List.take_succ_cons, List.take_zero] at h ⊢
  rw [takeWhile_append_bar (by decide), dropWhile_append_bar (by decide)]
  split at h
  · cases h
    rfl
  · cases h

private theorem plainSegment?_append_bar {step : Step} (h : plainSegment? inFilter cs = some (step, rest)) :
    plainSegment? inFilter (cs ++ '|' :: q) = some (step, rest ++ '|' :: q) := by
  cases cs with
  | nil => cases h
  | cons c cs =>
    unfold plainSegment? at h ⊢
    dsimp only [List.cons_append] at h ⊢
    split at h
    · cases h
      rename_i hcurrent
      rw [if_pos hcurrent]
    rename_i hcurrent
    rw [if_neg hcurrent]
    split at h
    · cases h
      rename_i hvalues
      rw [if_pos hvalues]
    rename_i hvalues
    rw [if_neg hvalues]
    split at h
    · rename_i hquote
      obtain ⟨⟨name, rest'⟩, hname, heq⟩ := Option.map_eq_some_iff.mp h
      cases heq
      rw [if_pos hquote, quoted_append_bar (toOption_eq_some_iff.mp hname)]
      rfl
    rename_i hquote
    rw [if_neg hquote]
    split at h
    · cases h
      rename_i hname
      rw [if_pos hname, ← List.cons_append, takeWhile_append_bar isNameChar_bar, dropWhile_append_bar isNameChar_bar]
    · cases h

private theorem plainBracket?_append_bar {step : Step} (h : plainBracket? cs = some (step, rest)) :
    plainBracket? (cs ++ '|' :: q) = some (step, rest ++ '|' :: q) := by
  unfold plainBracket? at h
  split at h
  · cases h
    rfl
  · cases h
  · cases h
    rfl
  · rename_i hitems hfilter hempty
    cases cs with
    | nil => cases h
    | cons c cs =>
      rw [List.cons_append, plainBracket?, ← List.cons_append, index_append_bar (toOption_eq_some_iff.mp h)]
      · rfl
      · exact fun _ heq => hitems cs (by rw [(List.cons.inj heq).1])
      · exact fun _ heq => hfilter cs (by rw [(List.cons.inj heq).1])
      · exact fun _ heq => hempty cs (by rw [(List.cons.inj heq).1])

private theorem literal?_append_bar {o : Operand} (h : literal? cs = some (o, rest)) :
    literal? (cs ++ '|' :: q) = some (o, rest ++ '|' :: q) := by
  unfold literal? at h
  split at h
  · obtain ⟨⟨text, rest'⟩, htext, heq⟩ := Option.map_eq_some_iff.mp h
    cases heq
    rw [List.cons_append, literal?, quoted_append_bar (toOption_eq_some_iff.mp htext)]
    rfl
  · obtain ⟨⟨text, rest'⟩, htext, heq⟩ := Option.map_eq_some_iff.mp h
    cases heq
    rw [List.cons_append, literal?, quoted_append_bar (toOption_eq_some_iff.mp htext)]
    rfl
  · rename_i hquote hbackquote
    split at h
    · rename_i hstarts
      cases cs with
      | nil => cases hstarts
      | cons c cs =>
        rw [List.cons_append, literal?, List.head?_cons, if_pos (by exact hstarts), ← List.cons_append,
          number_append_bar (List.cons_ne_nil c cs) (toOption_eq_some_iff.mp h)]
        · rfl
        · exact fun _ heq => hquote cs (by rw [(List.cons.inj heq).1])
        · exact fun _ heq => hbackquote cs (by rw [(List.cons.inj heq).1])
    · cases h

private theorem comparison?_append_bar {sign : Comparison} (h : comparison? cs = some (sign, rest)) :
    comparison? (cs ++ '|' :: q) = some (sign, rest ++ '|' :: q) := by
  unfold comparison? at h
  split at h
  case h_5 rest' hle =>
    cases h
    cases rest with
    | nil => rfl
    | cons d rest =>
      rw [List.cons_append, List.cons_append, comparison?]
      exact fun _ heq => hle rest (by rw [(List.cons.inj heq).1])
  case h_6 rest' hge =>
    cases h
    cases rest with
    | nil => rfl
    | cons d rest =>
      rw [List.cons_append, List.cons_append, comparison?]
      exact fun _ heq => hge rest (by rw [(List.cons.inj heq).1])
  all_goals
    cases h
    try rfl

private theorem comparison?_append_bar_none (h : comparison? cs = none) : comparison? (cs ++ '|' :: q) = none := by
  unfold comparison? at h
  split at h
  case h_7 heq hne hle hge hlt hgt =>
    unfold comparison?
    split
    · exact (heq _ (eq_cons_cons_of_append_bar (by decide) (by decide) ‹_›).choose_spec).elim
    · exact (hne _ (eq_cons_cons_of_append_bar (by decide) (by decide) ‹_›).choose_spec).elim
    · exact (hle _ (eq_cons_cons_of_append_bar (by decide) (by decide) ‹_›).choose_spec).elim
    · exact (hge _ (eq_cons_cons_of_append_bar (by decide) (by decide) ‹_›).choose_spec).elim
    · exact (hlt _ (eq_cons_of_append_bar (by decide) ‹_›).choose_spec).elim
    · exact (hgt _ (eq_cons_of_append_bar (by decide) ‹_›).choose_spec).elim
    · rfl
  all_goals cases h

private theorem startsOr_append_bar (hq : q.head? ≠ some '|') (hcs : cs ≠ ['|']) (h : startsOr cs = false) :
    startsOr (cs ++ '|' :: q) = false := by
  refine startsOr_eq_false fun rest heq => ?_
  cases cs with
  | nil =>
    rw [(List.cons.inj heq).2] at hq
    exact hq rfl
  | cons c cs =>
    obtain ⟨rfl, htail⟩ := List.cons.inj heq
    cases cs with
    | nil => exact hcs rfl
    | cons d cs =>
      obtain ⟨rfl, -⟩ := List.cons.inj htail
      cases h

private theorem startsAnd_append_bar (h : startsAnd cs = false) : startsAnd (cs ++ '|' :: q) = false := by
  refine startsAnd_eq_false fun rest heq => ?_
  obtain ⟨rest', rfl⟩ := eq_cons_cons_of_append_bar (by decide) (by decide) heq
  cases h

private theorem startsNested_append_bar (h : startsNested cs.head? = false) :
    startsNested (cs ++ '|' :: q).head? = false := by
  cases cs with
  | nil => rfl
  | cons c cs => exact h

private theorem startsLiteral_append_bar (h : startsLiteral cs.head? = false) :
    startsLiteral (cs ++ '|' :: q).head? = false := by
  cases cs with
  | nil => rfl
  | cons c cs => exact h

end

/-- A bar behind what a condition leaves does not make an alternative with it. -/
def Phrase.Stops (rest : List Char) : Phrase → Prop
  | condition _ => rest ≠ ['|']
  | alternatives _ _ => rest ≠ ['|']
  | _ => True

private theorem ne_bar_of_skipBlanks {c : Char} {cs rest : List Char} (hc : c ≠ '|') (h : skipBlanks cs = c :: rest) :
    cs ≠ ['|'] := by
  rintro rfl
  exact hc (List.cons.inj (h.symm.trans (by decide : skipBlanks ['|'] = ['|']))).1

/-- What stands before a bar is read without regard to what stands behind it. -/
private theorem Reads.append_bar {p : Phrase} {n : Nat} {cs rest q : List Char} (hq : q.head? ≠ some '|')
    (h : Reads p n cs rest) (hstops : p.Stops rest) : Reads p n (cs ++ '|' :: q) (rest ++ '|' :: q) := by
  induction h with
  | finished hsteps hexpects hbracket hdot =>
    exact .finished hsteps hexpects (head?_append_bar (by decide) hbracket) (head?_append_bar (by decide) hdot)
  | dot hexpects _ ih => exact .dot hexpects (ih trivial)
  | plain hexpects hplain _ ih => exact .plain hexpects (plainSegment?_append_bar hplain) (ih trivial)
  | bracketed _ _ ih₁ ih₂ => exact .bracketed (ih₁ trivial) (ih₂ trivial)
  | select hplain hclose =>
    refine .select (skipBlanks_append_bar ▸ plainBracket?_append_bar hplain) ?_
    rw [skipBlanks_append_bar, hclose, List.cons_append]
  | filter hopen _ hclose ih =>
    refine .filter ?_ (ih (ne_bar_of_skipBlanks (by decide) hclose)) ?_
    · rw [skipBlanks_append_bar, hopen, List.cons_append]
    · rw [skipBlanks_append_bar, hclose, List.cons_append]
  | condition _ _ ih₁ ih₂ => exact .condition (ih₁ trivial) (ih₂ hstops)
  | noOr hsign =>
    rw [← skipBlanks_append_bar]
    exact .noOr (skipBlanks_append_bar ▸ startsOr_append_bar hq hstops hsign)
  | or hsign _ _ ih₁ ih₂ =>
    refine .or ?_ (ih₁ trivial) (ih₂ hstops)
    rw [skipBlanks_append_bar, hsign, List.cons_append, List.cons_append]
  | conjunction _ _ ih₁ ih₂ => exact .conjunction (ih₁ trivial) (ih₂ trivial)
  | noAnd hsign =>
    rw [← skipBlanks_append_bar]
    exact .noAnd (skipBlanks_append_bar ▸ startsAnd_append_bar hsign)
  | and hsign _ _ ih₁ ih₂ =>
    refine .and ?_ (ih₁ trivial) (ih₂ trivial)
    rw [skipBlanks_append_bar, hsign, List.cons_append, List.cons_append]
  | not hsign _ ih =>
    refine .not ?_ (ih trivial)
    rw [skipBlanks_append_bar, hsign, List.cons_append]
  | group hopen _ hclose ih =>
    refine .group ?_ (ih (ne_bar_of_skipBlanks (by decide) hclose)) ?_
    · rw [skipBlanks_append_bar, hopen, List.cons_append]
    · rw [skipBlanks_append_bar, hclose, List.cons_append]
  | compare hplain _ hsign _ ih₁ ih₂ =>
    refine .compare ?_ (skipBlanks_append_bar ▸ ih₁ trivial) ?_ (ih₂ trivial)
    · exact skipBlanks_append_bar ▸ startsNested_append_bar hplain
    · exact skipBlanks_append_bar ▸ comparison?_append_bar hsign
  | holds hplain _ hsign ih =>
    rw [← skipBlanks_append_bar]
    refine .holds ?_ (skipBlanks_append_bar ▸ ih trivial) ?_
    · exact skipBlanks_append_bar ▸ startsNested_append_bar hplain
    · exact skipBlanks_append_bar ▸ comparison?_append_bar_none hsign
  | literal hliteral => exact .literal (skipBlanks_append_bar ▸ literal?_append_bar hliteral)
  | path hplain _ ih =>
    refine .path ?_ (skipBlanks_append_bar ▸ ih trivial)
    exact skipBlanks_append_bar ▸ startsLiteral_append_bar hplain

/-! Two queries with a bar between them. -/

/-- A path starts with a character of its own. -/
private theorem Reads.start_ne_bar {inFilter : Bool} {steps : List Step} {n : Nat} {cs rest : List Char}
    (h : Reads (.segments inFilter ⟨[], true⟩ steps) n cs rest) : ∃ c cs', cs = c :: cs' ∧ c ≠ '|' := by
  cases h with
  | finished hsteps => exact absurd rfl hsteps
  | dot hexpects => cases hexpects
  | plain _ hplain =>
    cases cs with
    | nil => cases hplain
    | cons c cs =>
      refine ⟨c, cs, rfl, ?_⟩
      rintro rfl
      cases hplain
  | bracketed => exact ⟨'[', _, rfl, by decide⟩

private theorem start_ne_bar_of_skipBlanks {cs : List Char} (h : ∃ c cs', skipBlanks cs = c :: cs' ∧ c ≠ '|') :
    ∃ c cs', cs = c :: cs' ∧ c ≠ '|' := by
  obtain ⟨c, cs', hskip, hc⟩ := h
  cases cs with
  | nil => cases hskip
  | cons d ds =>
    refine ⟨d, ds, rfl, ?_⟩
    rintro rfl
    have hbar : skipBlanks ('|' :: ds) = '|' :: ds := List.dropWhile_cons_of_neg (by decide)
    exact hc (List.cons.inj (hskip.symm.trans hbar)).1

private theorem ReadsPaths.start_ne_bar {paths : List (List Step)} {n : Nat} {cs : List Char}
    (h : ReadsPaths paths n cs) : ∃ c cs', cs = c :: cs' ∧ c ≠ '|' := by
  cases h with
  | last hreads => exact start_ne_bar_of_skipBlanks hreads.start_ne_bar
  | pipe hreads => exact start_ne_bar_of_skipBlanks hreads.start_ne_bar

private theorem ReadsPaths.head?_ne_bar {paths : List (List Step)} {n : Nat} {cs : List Char}
    (h : ReadsPaths paths n cs) (q : List Char) : (cs ++ q).head? ≠ some '|' := by
  obtain ⟨c, cs', rfl, hc⟩ := h.start_ne_bar
  exact fun hsame => hc (Option.some.inj hsame)

private theorem ReadsPaths.append_bar {ps qs : List (List Step)} {n m : Nat} {p q : List Char} (hp : ReadsPaths ps n p)
    (hq : ReadsPaths qs m q) : ∃ n, ReadsPaths (ps ++ qs) n (p ++ '|' :: q) := by
  have hbar : q.head? ≠ some '|' := List.append_nil q ▸ hq.head?_ne_bar []
  induction hp with
  | last hreads hend =>
    refine ⟨_, .pipe (skipBlanks_append_bar ▸ hreads.append_bar hbar trivial) ?_ hbar hq⟩
    rw [skipBlanks_append_bar, hend, List.nil_append]
  | pipe hreads hsign _ hrest ih =>
    obtain ⟨n, hmore⟩ := ih
    refine ⟨_, .pipe (skipBlanks_append_bar ▸ hreads.append_bar hbar trivial) ?_ (hrest.head?_ne_bar _) hmore⟩
    rw [skipBlanks_append_bar, hsign, List.cons_append]

private theorem parse_append_bar {p q : String} {ps qs : List (List Step)} (hp : parse p = .ok ps)
    (hq : parse q = .ok qs) : parse (p ++ "|" ++ q) = .ok (ps ++ qs) := by
  obtain ⟨n, hp⟩ := parse_eq_ok_iff.mp hp
  obtain ⟨m, hq⟩ := parse_eq_ok_iff.mp hq
  refine parse_eq_ok_iff.mpr ?_
  rw [String.toList_append, String.toList_append, List.append_assoc]
  exact hp.append_bar hq

private theorem run_append (ps qs : List (List Step)) (value : Json) : run (ps ++ qs) value = run qs (run ps value) :=
  List.foldl_append

/-! Paths one behind the other. -/

/-- A step that does the steps behind it for every one of several values. -/
def Step.projects : Step → Bool
  | .items => true
  | .values => true
  | .filter _ => true
  | _ => false

/-- What is not there has no parts. -/
private theorem apply_null (steps : List Step) : apply steps .null = .null := by
  induction steps with
  | nil => rw [apply]
  | cons step steps ih =>
    cases step with
    | current => rw [apply, ih]
    | field name => rw [apply]; rfl
    | index position => rw [apply]; rfl
    | items => rw [apply]; nofun
    | values => rw [apply]; nofun
    | filter condition => rw [apply]; nofun

private theorem apply_append {first : List Step} (hfirst : ∀ step ∈ first, step.projects = false) (next : List Step)
    (value : Json) : apply (first ++ next) value = apply next (apply first value) := by
  induction first generalizing value with
  | nil => rw [List.nil_append, apply]
  | cons step first ih =>
    obtain ⟨hstep, hrest⟩ := List.forall_mem_cons.mp hfirst
    rw [List.cons_append]
    cases step with
    | current => rw [apply, apply, ih hrest]
    | field name =>
      rw [apply, apply]
      cases value.field? name with
      | none => exact (apply_null next).symm
      | some inner => exact ih hrest inner
    | index position =>
      rw [apply, apply]
      cases value.items?.bind (itemAt? · position) with
      | none => exact (apply_null next).symm
      | some inner => exact ih hrest inner
    | items | values | filter _ => cases hstep

/-- A bar between two queries makes one query of them, which applies the second to the answer of the first; and within
a path, steps that do not project may be taken before the others. -/
theorem search_bar_and_apply_append :
    (∀ (p q : String) (ps qs : List (List Step)), parse p = .ok ps → parse q = .ok qs →
      (∃ paths, parse (p ++ "|" ++ q) = .ok paths) ∧
        ∀ value, search value (p ++ "|" ++ q) = (do search (← search value p) q)) ∧
      ∀ (first next : List Step) (value : Json), (∀ step ∈ first, step.projects = false) →
        apply (first ++ next) value = apply next (apply first value) := by
  refine ⟨fun p q ps qs hp hq => ?_, fun first next value hfirst => apply_append hfirst next value⟩
  have hboth := parse_append_bar hp hq
  refine ⟨⟨_, hboth⟩, fun value => ?_⟩
  have hsearch : ∀ {source : String} {paths : List (List Step)}, parse source = .ok paths →
      ∀ value, search value source = .ok (run paths value) := by
    intro source paths hparse value
    rw [search, hparse]
    rfl
  rw [hsearch hboth, hsearch hp, run_append]
  exact (hsearch hq _).symm

theorem search_path_bar_pipe :
    ((∃ paths, parse ("a.b" ++ "|" ++ " c | *") = .ok paths) ∧
      ∀ value, search value ("a.b" ++ "|" ++ " c | *") = (do search (← search value "a.b") " c | *")) ∧
      ∀ value, apply ([.field "a", .index 0] ++ [.items]) value = apply [.items] (apply [.field "a", .index 0] value) :=
  ⟨search_bar_and_apply_append.1 "a.b" " c | *" [[.field "a", .field "b"]] [[.field "c"], [.values]] rfl rfl,
    fun value => search_bar_and_apply_append.2 [.field "a", .index 0] [.items] value (by simp [Step.projects])⟩

end FlowEngine.Query
