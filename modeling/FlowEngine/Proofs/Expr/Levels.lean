import FlowEngine.Proofs.Expr.Depth
import FlowEngine.Proofs.Expr.Scanning
import FlowEngine.Proofs.Expr.Parsing

/-! Levels of nesting and heights of trees: each level may add a chain of accesses, a chain of operators, a bracket
and a condition, so that heights grow with the square of the levels. -/
namespace FlowEngine.Expr

/-! How high the trees are that are read within so many levels. -/

def oblong (n : Nat) : Nat := n * (n + 1)

private theorem oblong_succ (n : Nat) : oblong (n + 1) = oblong n + 2 * (n + 1) := by
  rw [oblong, oblong, ← Nat.add_mul, Nat.mul_comm]

/-- What a phrase of so many levels makes of its parts is no higher than its chains and all that stands in brackets
allow. -/
def Phrase.IsLow (n : Nat) : Phrase → Prop
  | expression e => height e + 2 ≤ oblong n
  | operation _ e => height e ≤ oblong n - 1 + 2 * n
  | operatorChain _ left e => height e ≤ max (height left) (oblong n - 1) + n
  | operand e => height e ≤ oblong n - 1 + n
  | accessChain target e => height e ≤ max (height target) (oblong n - 1) + n
  | property target _ e => height e ≤ max (height target + 1) (oblong n - 1)
  | elements _ es => heightBelow es ≤ oblong n - 1
  | entries fields => heightOfEntries fields ≤ oblong n - 1
  | primary e => height e ≤ oblong n - 1

private theorem height_join {op : Operator} {left right : Expr} :
    height (op.join left right) = max (height left) (height right) + 1 := by
  cases op <;> rw [Operator.join, height]

private theorem height_named {name : String} : height (named name) = 0 := by
  unfold named
  split
  · rfl
  · split
    · rfl
    · split <;> rfl

private theorem Reads.isLow {p : Phrase} {n m : Nat} {ts rest : List Token} (h : Reads p n ts rest) (hm : n ≤ m) :
    p.IsLow m := by
  -- the levels may be more than are taken up, so that the parts of a phrase are spoken of at the same number
  induction h generalizing m with
  | plain _ _ ih =>
    obtain ⟨m, rfl⟩ : ∃ k, m = k + 1 := ⟨m - 1, by omega⟩
    have hlow := ih (show _ ≤ m by omega)
    have hnext := oblong_succ m
    simp only [Phrase.IsLow] at hlow ⊢
    omega
  | conditional _ _ _ ih₁ ih₂ ih₃ =>
    obtain ⟨m, rfl⟩ : ∃ k, m = k + 1 := ⟨m - 1, by omega⟩
    have hlow₁ := ih₁ (show _ ≤ m by omega)
    have hlow₂ := ih₂ (show _ ≤ m by omega)
    have hlow₃ := ih₃ (show _ ≤ m by omega)
    have hnext := oblong_succ m
    simp only [Phrase.IsLow, height] at hlow₁ hlow₂ hlow₃ ⊢
    omega
  | operator _ _ _ ih₁ ih₂ =>
    obtain ⟨m, rfl⟩ : ∃ k, m = k + 1 := ⟨m - 1, by omega⟩
    have hlow₁ := ih₁ (show _ ≤ m by omega)
    have hlow₂ := ih₂ (show _ ≤ m by omega)
    have hnext := oblong_succ m
    simp only [Phrase.IsLow, height_join] at hlow₁ hlow₂ ⊢
    omega
  | unary _ _ ih =>
    obtain ⟨m, rfl⟩ : ∃ k, m = k + 1 := ⟨m - 1, by omega⟩
    have hlow := ih (show _ ≤ m by omega)
    have hnext := oblong_succ m
    simp only [Phrase.IsLow, height] at hlow ⊢
    omega
  | dot _ _ ih₁ ih₂ | optionalDot _ _ ih₁ ih₂ | index _ _ ih₁ ih₂ | optionalIndex _ _ ih₁ ih₂ | call _ _ ih₁ ih₂ =>
    obtain ⟨m, rfl⟩ : ∃ k, m = k + 1 := ⟨m - 1, by omega⟩
    have hlow₁ := ih₁ (show _ ≤ m + 1 by omega)
    have hlow₂ := ih₂ (show _ ≤ m by omega)
    have hnext := oblong_succ m
    simp only [Phrase.IsLow, height] at hlow₁ hlow₂ ⊢
    omega
  | operation _ _ ih₁ ih₂ | accessed _ _ _ ih₁ ih₂ | element _ _ _ ih₁ ih₂ | entry _ _ _ ih₁ ih₂ =>
    have hlow₁ := ih₁ (show _ ≤ m by omega)
    have hlow₂ := ih₂ (show _ ≤ m by omega)
    simp only [Phrase.IsLow, heightBelow, heightOfEntries] at hlow₁ hlow₂ ⊢
    omega
  | method _ ih | lastElement _ _ _ ih | lastEntry _ _ ih | arrow _ _ ih | lambda _ _ ih | group _ _ ih | array _ ih
  | object _ ih =>
    have hlow := ih hm
    simp only [Phrase.IsLow, height, heightBelow, heightOfEntries] at hlow ⊢
    omega
  | noOperator | noAccess | member | noElement | noEntry | number | text =>
    simp only [Phrase.IsLow, height, heightBelow, heightOfEntries]
    omega
  | name =>
    simp only [Phrase.IsLow, height_named]
    omega

/-! Trees that use up what their levels allow: in every level a bracket, accesses, additions and a condition. -/

def one : Expr := .literal (.ofFloat (Decimal.toFloat 1 0))

def accessed (e : Expr) : Expr := .member e "a" false

def increased (e : Expr) : Expr := .binary .add e one

def chain (link : Expr → Expr) : Nat → Expr → Expr
  | 0, e => e
  | k + 1, e => chain link k (link e)

def tower : Nat → Expr
  | 0 => one
  | n + 1 => .conditional (chain increased (n + 1) (chain accessed (n + 1) (.array [tower n]))) one one

def chainLexemes (link : List Lexeme) : Nat → List Lexeme
  | 0 => []
  | k + 1 => link ++ chainLexemes link k

def accessLexemes : Nat → List Lexeme := chainLexemes [.punct .dot, .name "a"]

def additionLexemes : Nat → List Lexeme := chainLexemes [.punct .plus, .whole 1]

def towerLexemes : Nat → List Lexeme
  | 0 => [.whole 1]
  | n + 1 => .punct .openBracket :: (towerLexemes n ++ .punct .closeBracket :: (accessLexemes (n + 1) ++
      (additionLexemes (n + 1) ++ [.punct .question, .whole 1, .punct .colon, .whole 1])))

def towerText (n : Nat) : String := " ".intercalate ((towerLexemes n).map (Lexeme.text '\''))

example : towerText 1 = "[ 1 ] . a + 1 ? 1 : 1" := by rfl

section
variable {e : Expr} {n k : Nat} {ts rest : List Token} {link : List Lexeme}

/-! Evaluation begins at the bottom of a tower. -/

private theorem Leads.chain (h : Leads n e) (link : Expr → Expr) (k : Nat) (hlink : ∀ e, firstPart? (link e) = some e) :
    Leads (n + k) (chain link k e) := by
  induction k generalizing n e with
  | zero => exact h
  | succ k ih =>
    rw [← Nat.add_assoc, Nat.add_right_comm]
    exact ih (.down (hlink e) h)

private theorem leads_tower : Leads (n * (n + 3)) (tower n) := by
  induction n with
  | zero =>
    rw [Nat.zero_mul]
    exact .here
  | succ n ih =>
    have hbottom : Leads (n * (n + 3) + 1) (.array [tower n]) := .down rfl ih
    have hchains := (hbottom.chain accessed (n + 1) fun _ => rfl).chain increased (n + 1) fun _ => rfl
    have hsteps : (n + 1) * (n + 1 + 3) = n * (n + 3) + 1 + (n + 1) + (n + 1) + 1 := by grind
    rw [hsteps]
    exact .down rfl hchains

/-! A tower is read with a level more than it has storeys. -/

private theorem reads_one (rest : List Token) (hrest : isEnd rest.head? = true) :
    ∃ m ≤ 1, Reads (.expression one) m (.number (Decimal.toFloat 1 0) :: rest) rest :=
  reads_of_primary .number rfl hrest

private theorem reads_accesses (e : Expr) (k : Nat) (ts : List Token) (hts : opensAccess ts.head? = false) :
    ∃ m ≤ k, Reads (.accessChain e (chain accessed k e)) m ((accessLexemes k).map Lexeme.token ++ ts) ts := by
  induction k generalizing e with
  | zero => exact ⟨0, by omega, .noAccess hts⟩
  | succ k ih =>
    obtain ⟨m, hm, hreads⟩ := ih (accessed e)
    have hparen : ((accessLexemes k).map Lexeme.token ++ ts).head? ≠ some (.punct .openParen) := by
      cases k with
      | zero =>
        intro (hparen : ts.head? = _)
        rw [hparen] at hts
        cases hts
      | succ k => nofun
    exact ⟨_, by omega, .dot (.member hparen) hreads⟩

private theorem reads_additions (e : Expr) (k : Nat) (ts : List Token) :
    ∃ m ≤ k, Reads (.operatorChain 0 e (chain increased k e)) m
      ((additionLexemes k).map Lexeme.token ++ .punct .question :: ts) (.punct .question :: ts) := by
  induction k generalizing e with
  | zero => exact ⟨0, by omega, .noOperator rfl⟩
  | succ k ih =>
    obtain ⟨m, hm, hreads⟩ := ih (increased e)
    have hright : Reads (.operation 7 one) 0 (.number (Decimal.toFloat 1 0) ::
        ((additionLexemes k).map Lexeme.token ++ .punct .question :: ts))
        ((additionLexemes k).map Lexeme.token ++ .punct .question :: ts) := by
      cases k <;> exact .operation (.accessed rfl .number (.noAccess rfl)) (.noOperator rfl)
    have hplus : nextOperator? 0 ((additionLexemes (k + 1)).map Lexeme.token ++ .punct .question :: ts) =
        some (6, .binary .add, .number (Decimal.toFloat 1 0) ::
          ((additionLexemes k).map Lexeme.token ++ .punct .question :: ts)) := rfl
    exact ⟨_, by omega, .operator hplus hright hreads⟩

private theorem head?_towerLexemes : ((towerLexemes n).map Lexeme.token ++ ts).head? ≠ some (.punct .closeBracket) := by
  cases n <;> nofun

private theorem reads_tower (n : Nat) (rest : List Token) (hrest : isEnd rest.head? = true) :
    ∃ m ≤ n + 1, Reads (.expression (tower n)) m ((towerLexemes n).map Lexeme.token ++ rest) rest := by
  induction n generalizing rest with
  | zero => exact reads_one rest hrest
  | succ n ih =>
    let condition : List Token :=
      .number (Decimal.toFloat 1 0) :: .punct .colon :: .number (Decimal.toFloat 1 0) :: rest
    let sum : List Token := (additionLexemes (n + 1)).map Lexeme.token ++ .punct .question :: condition
    let links : List Token := (accessLexemes (n + 1)).map Lexeme.token ++ sum
    have htokens : (towerLexemes (n + 1)).map Lexeme.token ++ rest =
        .punct .openBracket :: ((towerLexemes n).map Lexeme.token ++ .punct .closeBracket :: links) := by
      simp [towerLexemes, Lexeme.token, links, sum, condition]
    obtain ⟨n₁, hn₁, hinner⟩ := ih (.punct .closeBracket :: links) rfl
    obtain ⟨n₂, hn₂, haccesses⟩ := reads_accesses (.array [tower n]) (n + 1) sum rfl
    obtain ⟨n₃, hn₃, hadditions⟩ := reads_additions (chain accessed (n + 1) (.array [tower n])) (n + 1) condition
    obtain ⟨n₄, hn₄, hconsequent⟩ := reads_one (.punct .colon :: .number (Decimal.toFloat 1 0) :: rest) rfl
    obtain ⟨n₅, hn₅, halternate⟩ := reads_one rest hrest
    have harray := Reads.array (.lastElement nofun head?_towerLexemes hinner)
    rw [htokens]
    exact ⟨_, by omega,
      .conditional (.operation (.accessed rfl harray haccesses) hadditions) hconsequent halternate⟩

/-! The text of a tower is short. -/

def IsShort (l : Lexeme) : Prop := l.Lexical ∧ (l.text '\'').utf8ByteSize = 1

private theorem isShort_chainLexemes (hlink : ∀ l ∈ link, IsShort l) : ∀ l ∈ chainLexemes link k, IsShort l := by
  induction k with
  | zero => nofun
  | succ k ih => exact List.forall_mem_append.mpr ⟨hlink, ih⟩

private theorem isShort_towerLexemes : ∀ l ∈ towerLexemes n, IsShort l := by
  have hpunct {p : Punct} (hp : p.text.utf8ByteSize = 1) : IsShort (.punct p) := by
    refine ⟨trivial, ?_⟩
    rw [Lexeme.text, Lexeme.chars, String.ofList_toList, hp]
  have hone : IsShort (.whole 1) := ⟨trivial, rfl⟩
  have hname : IsShort (.name "a") := ⟨rfl, rfl⟩
  induction n with
  | zero => exact List.forall_mem_singleton.mpr hone
  | succ n ih =>
    simp only [towerLexemes, accessLexemes, additionLexemes, List.forall_mem_cons, List.forall_mem_append]
    refine ⟨hpunct rfl, ih, hpunct rfl, isShort_chainLexemes ?_, isShort_chainLexemes ?_, hpunct rfl, hone, hpunct rfl,
      hone, List.forall_mem_nil _⟩
    · exact List.forall_mem_cons.mpr ⟨hpunct rfl, List.forall_mem_singleton.mpr hname⟩
    · exact List.forall_mem_cons.mpr ⟨hpunct rfl, List.forall_mem_singleton.mpr hone⟩

private theorem utf8ByteSize_intercalate_le {ls : List Lexeme} (h : ∀ l ∈ ls, IsShort l) :
    (" ".intercalate (ls.map (Lexeme.text '\''))).utf8ByteSize ≤ 2 * ls.length := by
  induction ls with
  | nil => exact Nat.le_refl 0
  | cons l ls ih =>
    obtain ⟨⟨-, hl⟩, hls⟩ := List.forall_mem_cons.mp h
    cases ls with
    | nil =>
      rw [List.map_singleton, String.intercalate_singleton, hl]
      exact Nat.le_succ 1
    | cons l' ls =>
      have hblank : " ".utf8ByteSize = 1 := rfl
      have hrest := ih hls
      simp only [List.map_cons, String.intercalate_cons_cons, String.utf8ByteSize_append, hl, hblank,
        List.length_cons] at hrest ⊢
      omega

private theorem length_chainLexemes : (chainLexemes link k).length = k * link.length := by
  induction k with
  | zero => rw [Nat.zero_mul]; rfl
  | succ k ih => rw [chainLexemes, List.length_append, ih, Nat.succ_mul, Nat.add_comm]

private theorem length_towerLexemes : (towerLexemes n).length = 2 * oblong n + 6 * n + 1 := by
  induction n with
  | zero => rfl
  | succ n ih =>
    have hnext := oblong_succ n
    simp only [towerLexemes, accessLexemes, additionLexemes, List.length_cons, List.length_append, List.length_nil, ih,
      length_chainLexemes]
    omega

end

/-! Where the limit of evaluation holds. -/

/-- A text is parsed to an expression that takes up no more than so many levels. -/
def ParsesWithin (levels : Nat) (source : String) (e : Expr) : Prop :=
  parse source = .ok e ∧ ∃ ts, Token.scan source = .ok ts ∧ ∃ n ≤ levels, Reads (.expression e) n ts []

/-- In no scope is the evaluation of an expression too deep. -/
def NeverTooDeep (e : Expr) : Prop :=
  ∀ scope session, ((evaluate scope e).run session).1 ≠ .error .evaluationTooDeep

/-- In every scope the evaluation of an expression is too deep. -/
def AlwaysTooDeep (e : Expr) : Prop :=
  ∀ scope session, (evaluate scope e).run session = (.error .evaluationTooDeep, session)

section
variable {levels levels' : Nat} {source : String} {e : Expr}

private theorem not_alwaysTooDeep (h : NeverTooDeep e) : ¬AlwaysTooDeep e := by
  intro halways
  have scope : Scope := ⟨fun _ => none, [], fun _ => none, fun _ => false, none, 0⟩
  exact h scope Session.start (by rw [halways])

private theorem parsesWithin_maxNestingDepth : ParsesWithin maxNestingDepth source e ↔ parse source = .ok e := by
  refine ⟨fun h => h.1, fun h => ⟨h, ?_⟩⟩
  exact (parse_eq_ok_iff.mp h).2

private theorem ParsesWithin.mono (h : ParsesWithin levels source e) (hlevels : levels ≤ levels') :
    ParsesWithin levels' source e := by
  obtain ⟨hparse, ts, hscan, n, hn, hreads⟩ := h
  exact ⟨hparse, ts, hscan, n, Nat.le_trans hn hlevels, hreads⟩

private theorem ParsesWithin.height_le (h : ParsesWithin levels source e) : height e + 2 ≤ levels * (levels + 1) := by
  obtain ⟨-, ts, -, n, hn, hreads⟩ := h
  exact hreads.isLow hn

private theorem ParsesWithin.neverTooDeep (h : ParsesWithin 15 source e) : NeverTooDeep e := by
  intro scope session
  have hheight := h.height_le
  refine evaluate_of_height session ?_
  rw [maxEvaluationDepth, maxNestingDepth]
  omega

private theorem parsesWithin_tower : ParsesWithin 16 (towerText 15) (tower 15) := by
  have hsize := utf8ByteSize_intercalate_le (isShort_towerLexemes (n := 15))
  have hscan : Token.scan (towerText 15) = .ok ((towerLexemes 15).map Lexeme.token) :=
    Lexeme.scan_intercalate (fun l hl => (isShort_towerLexemes l hl).1) rfl
  obtain ⟨n, hn, hreads⟩ := reads_tower 15 [] rfl
  rw [length_towerLexemes, oblong] at hsize
  rw [List.append_nil] at hreads
  refine ⟨parse_eq_ok_iff.mpr ⟨?_, _, hscan, n, ?_, hreads⟩, _, hscan, n, hn, hreads⟩
  · rw [maxExpressionLength]
    exact Nat.le_trans hsize (by omega)
  · rw [maxNestingDepth]
    omega

private theorem alwaysTooDeep_tower : AlwaysTooDeep (tower 15) :=
  fun _ _ => leads_tower.run_evaluate (by decide)

end

/-- Of the 64 levels that the parser allows, evaluation stays within its limit for 15: whatever is read in so many
is never too deep, and in 16 levels there is already a text that always is. -/
theorem never_too_deep_iff_levels (levels : Nat) :
    (∀ source e, ParsesWithin maxNestingDepth source e ↔ parse source = .ok e) ∧
    ((∀ source e, ParsesWithin levels source e → NeverTooDeep e) ↔ levels ≤ 15) ∧
    ((∃ source e, ParsesWithin levels source e ∧ AlwaysTooDeep e) ↔ 15 < levels) := by
  have hlow (hlevels : levels ≤ 15) (source : String) (e : Expr) (h : ParsesWithin levels source e) :
      NeverTooDeep e := (h.mono hlevels).neverTooDeep
  have hhigh (hlevels : 15 < levels) : ParsesWithin levels (towerText 15) (tower 15) := parsesWithin_tower.mono hlevels
  refine ⟨fun source e => parsesWithin_maxNestingDepth, ⟨fun hnever => ?_, hlow⟩,
    fun ⟨source, e, hparse, halways⟩ => ?_, fun hlevels => ⟨_, _, hhigh hlevels, alwaysTooDeep_tower⟩⟩
  · rcases Nat.lt_or_ge 15 levels with hlevels | hlevels
    · exact (not_alwaysTooDeep (hnever _ _ (hhigh hlevels)) alwaysTooDeep_tower).elim
    · exact hlevels
  · rcases Nat.lt_or_ge 15 levels with hlevels | hlevels
    · exact hlevels
    · exact (not_alwaysTooDeep (hlow hlevels source e hparse) halways).elim

end FlowEngine.Expr
