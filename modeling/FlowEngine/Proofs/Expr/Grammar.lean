import FlowEngine.Expr.Parser

/-! The grammar of expressions, with the levels of nesting that each phrase takes up. A phrase is a piece of
the tokens in which braces are paired. -/
namespace FlowEngine.Expr

/-- What a rule of the grammar reads, with what stands to the left of it where that matters. -/
inductive Phrase where
  | expression (e : Expr)
  | operation (minimum : Nat) (e : Expr)
  | operatorChain (minimum : Nat) (left e : Expr)
  | operand (e : Expr)
  | accessChain (target e : Expr)
  | property (target : Expr) (isOptional : Bool) (e : Expr)
  | elements (close : Punct) (es : List Expr)
  | entries (fields : List (String × Expr))
  | primary (e : Expr)

/-- Whether a token goes on with an expression that could end before it. -/
def opensAccess : Option Token → Bool
  | some (.punct .dot) => true
  | some (.punct .optional) => true
  | some (.punct .openBracket) => true
  | some (.punct .openParen) => true
  | _ => false

/-- A phrase takes up levels of nesting and reads tokens up to a rest. -/
inductive Reads : Phrase → Nat → List Token → List Token → Prop where
  | plain {e : Expr} {n : Nat} {ts rest : List Token} :
      Reads (.operation 0 e) n ts rest → rest.head? ≠ some (.punct .question) →
      Reads (.expression e) (n + 1) ts rest
  | conditional {test consequent alternate : Expr} {n₁ n₂ n₃ : Nat} {ts ts₁ ts₂ rest : List Token} :
      Reads (.operation 0 test) n₁ ts (.punct .question :: ts₁) →
      Reads (.expression consequent) n₂ ts₁ (.punct .colon :: ts₂) →
      Reads (.expression alternate) n₃ ts₂ rest →
      Reads (.expression (.conditional test consequent alternate)) (max n₁ (max n₂ n₃) + 1) ts rest
  | operation {minimum : Nat} {left e : Expr} {n₁ n₂ : Nat} {ts ts₁ rest : List Token} :
      Reads (.operand left) n₁ ts ts₁ → Reads (.operatorChain minimum left e) n₂ ts₁ rest →
      Reads (.operation minimum e) (max n₁ n₂) ts rest
  | noOperator {minimum : Nat} {left : Expr} {ts : List Token} : nextOperator? minimum ts = none →
      Reads (.operatorChain minimum left left) 0 ts ts
  | operator {minimum precedence : Nat} {op : Operator} {left right e : Expr} {n₁ n₂ : Nat}
      {ts ts₁ ts₂ rest : List Token} : nextOperator? minimum ts = some (precedence, op, ts₁) →
      Reads (.operation (precedence + 1) right) n₁ ts₁ ts₂ →
      Reads (.operatorChain minimum (op.join left right) e) n₂ ts₂ rest →
      Reads (.operatorChain minimum left e) (max n₁ n₂ + 1) ts rest
  | unary {op : UnaryOp} {e : Expr} {n : Nat} {ts ts₁ rest : List Token} :
      unaryOp? ts = some (op, ts₁) → Reads (.operand e) n ts₁ rest →
      Reads (.operand (.unary op e)) (n + 1) ts rest
  | accessed {start e : Expr} {n₁ n₂ : Nat} {ts ts₁ rest : List Token} : unaryOp? ts = none →
      Reads (.primary start) n₁ ts ts₁ → Reads (.accessChain start e) n₂ ts₁ rest →
      Reads (.operand e) (max n₁ n₂) ts rest
  | noAccess {target : Expr} {ts : List Token} : opensAccess ts.head? = false →
      Reads (.accessChain target target) 0 ts ts
  | dot {target link e : Expr} {n₁ n₂ : Nat} {ts ts₁ rest : List Token} :
      Reads (.property target false link) n₁ ts ts₁ → Reads (.accessChain link e) n₂ ts₁ rest →
      Reads (.accessChain target e) (max n₁ (n₂ + 1)) (.punct .dot :: ts) rest
  | optionalIndex {target key e : Expr} {n₁ n₂ : Nat} {ts ts₁ rest : List Token} :
      Reads (.expression key) n₁ ts (.punct .closeBracket :: ts₁) →
      Reads (.accessChain (.index target key true) e) n₂ ts₁ rest →
      Reads (.accessChain target e) (max n₁ (n₂ + 1)) (.punct .optional :: .punct .openBracket :: ts) rest
  | optionalDot {target link e : Expr} {n₁ n₂ : Nat} {ts ts₁ rest : List Token} :
      Reads (.property target true link) n₁ ts ts₁ → Reads (.accessChain link e) n₂ ts₁ rest →
      Reads (.accessChain target e) (max n₁ (n₂ + 1)) (.punct .optional :: ts) rest
  | index {target key e : Expr} {n₁ n₂ : Nat} {ts ts₁ rest : List Token} :
      Reads (.expression key) n₁ ts (.punct .closeBracket :: ts₁) →
      Reads (.accessChain (.index target key false) e) n₂ ts₁ rest →
      Reads (.accessChain target e) (max n₁ (n₂ + 1)) (.punct .openBracket :: ts) rest
  | call {target e : Expr} {args : List Expr} {n₁ n₂ : Nat} {ts ts₁ rest : List Token} :
      Reads (.elements .closeParen args) n₁ ts ts₁ → Reads (.accessChain (.call target args) e) n₂ ts₁ rest →
      Reads (.accessChain target e) (max n₁ (n₂ + 1)) (.punct .openParen :: ts) rest
  | method {target : Expr} {isOptional : Bool} {name : String} {args : List Expr} {n : Nat}
      {ts rest : List Token} : Reads (.elements .closeParen args) n ts rest →
      Reads (.property target isOptional (.method target name args isOptional)) n
        (.name name :: .punct .openParen :: ts) rest
  | member {target : Expr} {isOptional : Bool} {name : String} {ts : List Token} :
      ts.head? ≠ some (.punct .openParen) →
      Reads (.property target isOptional (.member target name isOptional)) 0 (.name name :: ts) ts
  | noElement {close : Punct} {ts : List Token} : Reads (.elements close []) 0 (.punct close :: ts) ts
  | lastElement {close : Punct} {e : Expr} {n : Nat} {ts rest : List Token} : close ≠ .comma →
      ts.head? ≠ some (.punct close) → Reads (.expression e) n ts (.punct close :: rest) →
      Reads (.elements close [e]) n ts rest
  | element {close : Punct} {e : Expr} {es : List Expr} {n₁ n₂ : Nat} {ts ts₁ rest : List Token} :
      ts.head? ≠ some (.punct close) → Reads (.expression e) n₁ ts (.punct .comma :: ts₁) →
      Reads (.elements close es) n₂ ts₁ rest → Reads (.elements close (e :: es)) (max n₁ n₂) ts rest
  | noEntry {ts : List Token} : Reads (.entries []) 0 (.punct .closeBrace :: ts) ts
  | lastEntry {key : String} {e : Expr} {n : Nat} {ts ts₁ rest : List Token} :
      entryKey ts = .ok (key, .punct .colon :: ts₁) →
      Reads (.expression e) n ts₁ (.punct .closeBrace :: rest) → Reads (.entries [(key, e)]) n ts rest
  | entry {key : String} {e : Expr} {fields : List (String × Expr)} {n₁ n₂ : Nat}
      {ts ts₁ ts₂ rest : List Token} : entryKey ts = .ok (key, .punct .colon :: ts₁) →
      Reads (.expression e) n₁ ts₁ (.punct .comma :: ts₂) → Reads (.entries fields) n₂ ts₂ rest →
      Reads (.entries ((key, e) :: fields)) (max n₁ n₂) ts rest
  | number {x : Float} {ts : List Token} : Reads (.primary (.literal (.ofFloat x))) 0 (.number x :: ts) ts
  | text {s : String} {ts : List Token} : Reads (.primary (.literal (.str s))) 0 (.text s :: ts) ts
  | name {name : String} {ts : List Token} :
      ts.head? ≠ some (.punct .arrow) ∨ isLiteralName name = true →
      Reads (.primary (named name)) 0 (.name name :: ts) ts
  | arrow {name : String} {body : Expr} {n : Nat} {ts rest : List Token} : isLiteralName name = false →
      Reads (.expression body) n ts rest →
      Reads (.primary (.lambda [name] body)) n (.name name :: .punct .arrow :: ts) rest
  | lambda {params : List String} {body : Expr} {n : Nat} {ts ts₁ rest : List Token} :
      arrowParams? ts = some (params, ts₁) → Reads (.expression body) n ts₁ rest →
      Reads (.primary (.lambda params body)) n (.punct .openParen :: ts) rest
  | group {e : Expr} {n : Nat} {ts rest : List Token} : arrowParams? ts = none →
      Reads (.expression e) n ts (.punct .closeParen :: rest) →
      Reads (.primary e) n (.punct .openParen :: ts) rest
  | array {es : List Expr} {n : Nat} {ts rest : List Token} :
      Reads (.elements .closeBracket es) n ts rest →
      Reads (.primary (.array es)) n (.punct .openBracket :: ts) rest
  | object {fields : List (String × Expr)} {n : Nat} {ts rest : List Token} :
      Reads (.entries fields) n ts rest → Reads (.primary (.object fields)) n (.punct .openBrace :: ts) rest

/-! Braces in lists of tokens. -/

/-- How many braces are open behind the tokens, if none is closed that was not open. -/
def braceDepth (depth : Nat) : List Token → Option Nat
  | [] => some depth
  | .punct .openBrace :: ts => braceDepth (depth + 1) ts
  | .punct .closeBrace :: ts => if depth = 0 then none else braceDepth (depth - 1) ts
  | _ :: ts => braceDepth depth ts

def Balanced (ts : List Token) : Prop := ∀ depth, braceDepth depth ts = some depth

def isBrace : Token → Bool
  | .punct .openBrace => true
  | .punct .closeBrace => true
  | _ => false

section
variable {depth : Nat} {t : Token} {ts ts' : List Token}

theorem braceDepth_cons (h : isBrace t = false) : braceDepth depth (t :: ts) = braceDepth depth ts := by
  rw [braceDepth]
  · rintro rfl
    cases h
  · rintro rfl
    cases h

theorem braceDepth_append : braceDepth depth (ts ++ ts') = (braceDepth depth ts).bind (braceDepth · ts') := by
  fun_induction braceDepth depth ts with
  | case1 => rfl
  | case2 depth ts ih => exact ih
  | case3 => rfl
  | case4 depth ts hopen ih => simpa [braceDepth, hopen] using ih
  | case5 depth t ts hopen hclose ih =>
    rw [List.cons_append, braceDepth_cons, ih]
    fun_cases isBrace t <;> simp_all

private theorem Balanced.nil : Balanced [] := fun _ => rfl

private theorem Balanced.append (h : Balanced ts) (h' : Balanced ts') : Balanced (ts ++ ts') := by
  intro depth
  rw [braceDepth_append, h, Option.bind_some, h']

private theorem Balanced.cons (ht : isBrace t = false) (h : Balanced ts) : Balanced (t :: ts) := by
  intro depth
  rw [braceDepth_cons ht, h]

private theorem Balanced.of_forall (h : ∀ t ∈ ts, isBrace t = false) : Balanced ts := by
  induction ts with
  | nil => exact .nil
  | cons t ts ih =>
    exact .cons (h t List.mem_cons_self) (ih fun t' ht' => h t' (List.mem_cons_of_mem t ht'))

private theorem Balanced.braces (h : Balanced ts) :
    Balanced (.punct .openBrace :: (ts ++ [.punct .closeBrace])) := by
  intro depth
  rw [braceDepth, braceDepth_append, h, Option.bind_some]
  rfl

end

/-! What the lookups of the parser take off the tokens. -/

section
variable {ts rest : List Token}

private theorem isBrace_of_operator? {p : Punct} {operator : Nat × Operator} (h : operator? p = some operator) :
    isBrace (.punct p) = false := by
  cases p <;> first | rfl | cases h

theorem nextOperator?_eq_some {minimum precedence : Nat} {op : Operator}
    (h : nextOperator? minimum ts = some (precedence, op, rest)) :
    ∃ p, ts = .punct p :: rest ∧ isBrace (.punct p) = false := by
  unfold nextOperator? at h
  split at h
  · rename_i p ts
    split at h
    · rename_i precedence' op' hop
      split at h
      · cases h
      · cases h
        exact ⟨p, rfl, isBrace_of_operator? hop⟩
    · cases h
  · cases h

theorem unaryOp?_eq_some {op : UnaryOp} (h : unaryOp? ts = some (op, rest)) :
    ∃ p, ts = .punct p :: rest ∧ isBrace (.punct p) = false := by
  unfold unaryOp? at h
  split at h
  · cases h
    exact ⟨_, rfl, rfl⟩
  · cases h
    exact ⟨_, rfl, rfl⟩
  · cases h
    exact ⟨_, rfl, rfl⟩
  · cases h

theorem entryKey_eq_ok {key : String} (h : entryKey ts = .ok (key, rest)) :
    ∃ t, ts = t :: rest ∧ isBrace t = false := by
  unfold entryKey at h
  split at h
  · cases h
    exact ⟨_, rfl, rfl⟩
  · cases h
    exact ⟨_, rfl, rfl⟩
  · cases h
    exact ⟨_, rfl, rfl⟩
  · cases h

private theorem parameterNames?_eq_some {names : List String} (h : parameterNames? ts = some (names, rest)) :
    ∃ used, ts = used ++ rest ∧ ∀ t ∈ used, isBrace t = false := by
  fun_induction parameterNames? ts generalizing names with
  | case1 name ts =>
    cases h
    exact ⟨[.name name, .punct .closeParen], rfl, by simp [isBrace]⟩
  | case2 name ts ih =>
    obtain ⟨⟨names', rest'⟩, hnames, hrest⟩ := Option.map_eq_some_iff.mp h
    cases hrest
    obtain ⟨used, rfl, hused⟩ := ih hnames
    exact ⟨.name name :: .punct .comma :: used, rfl, by simpa [isBrace] using hused⟩
  | case3 => cases h

theorem arrowParams?_eq_some {params : List String} (h : arrowParams? ts = some (params, rest)) :
    ∃ used, ts = used ++ rest ∧ ∀ t ∈ used, isBrace t = false := by
  unfold arrowParams? at h
  dsimp only at h
  split at h
  · rename_i names ts' hnames
    cases h
    split at hnames
    · cases hnames
      exact ⟨[.punct .closeParen, .punct .arrow], rfl, by simp [isBrace]⟩
    · obtain ⟨used, rfl, hused⟩ := parameterNames?_eq_some hnames
      refine ⟨used ++ [.punct .arrow], by simp, ?_⟩
      simpa [isBrace, or_imp, forall_and] using hused
  · cases h

end

def Phrase.closing : Phrase → List Token
  | elements close _ => [.punct close]
  | entries _ => [.punct .closeBrace]
  | _ => []

theorem Reads.length_le {p : Phrase} {n : Nat} {ts rest : List Token} (h : Reads p n ts rest) :
    rest.length ≤ ts.length := by
  induction h with
  | operator hop _ _ ih₁ ih₂ =>
    obtain ⟨p, rfl, -⟩ := nextOperator?_eq_some hop
    simp only [List.length_cons]
    omega
  | unary hop _ ih =>
    obtain ⟨p, rfl, -⟩ := unaryOp?_eq_some hop
    simp only [List.length_cons]
    omega
  | lastEntry hkey _ ih =>
    obtain ⟨t, rfl, -⟩ := entryKey_eq_ok hkey
    simp only [List.length_cons] at ih ⊢
    omega
  | entry hkey _ _ ih₁ ih₂ =>
    obtain ⟨t, rfl, -⟩ := entryKey_eq_ok hkey
    simp only [List.length_cons] at ih₁ ⊢
    omega
  | lambda harrow _ ih =>
    obtain ⟨used, rfl, -⟩ := arrowParams?_eq_some harrow
    simp only [List.length_cons, List.length_append]
    omega
  | _ => grind

/-- Lists of elements do not end in braces. -/
def Phrase.Bracketed : Phrase → Prop
  | elements close _ => isBrace (.punct close) = false
  | _ => True

/-- A phrase takes its tokens off the front, braces in pairs, up to the bracket that ends it. -/
theorem Reads.exists_body {p : Phrase} {n : Nat} {ts rest : List Token} (h : Reads p n ts rest)
    (hp : p.Bracketed) : ∃ body, ts = body ++ (p.closing ++ rest) ∧ Balanced body := by
  induction h with
  | plain _ _ ih => exact ih trivial
  | conditional _ _ _ ih₁ ih₂ ih₃ =>
    obtain ⟨body₁, rfl, h₁⟩ := ih₁ trivial
    obtain ⟨body₂, rfl, h₂⟩ := ih₂ trivial
    obtain ⟨body₃, rfl, h₃⟩ := ih₃ trivial
    exact ⟨body₁ ++ .punct .question :: (body₂ ++ .punct .colon :: body₃), by simp [Phrase.closing],
      h₁.append (.cons rfl (h₂.append (.cons rfl h₃)))⟩
  | operation _ _ ih₁ ih₂ =>
    obtain ⟨body₁, rfl, h₁⟩ := ih₁ trivial
    obtain ⟨body₂, rfl, h₂⟩ := ih₂ trivial
    exact ⟨body₁ ++ body₂, by simp [Phrase.closing], h₁.append h₂⟩
  | noOperator => exact ⟨[], rfl, .nil⟩
  | operator hop _ _ ih₁ ih₂ =>
    obtain ⟨p, rfl, hp⟩ := nextOperator?_eq_some hop
    obtain ⟨body₁, rfl, h₁⟩ := ih₁ trivial
    obtain ⟨body₂, rfl, h₂⟩ := ih₂ trivial
    exact ⟨.punct p :: (body₁ ++ body₂), by simp [Phrase.closing], .cons hp (h₁.append h₂)⟩
  | unary hop _ ih =>
    obtain ⟨p, rfl, hp⟩ := unaryOp?_eq_some hop
    obtain ⟨body, rfl, h⟩ := ih trivial
    exact ⟨.punct p :: body, rfl, .cons hp h⟩
  | accessed _ _ _ ih₁ ih₂ =>
    obtain ⟨body₁, rfl, h₁⟩ := ih₁ trivial
    obtain ⟨body₂, rfl, h₂⟩ := ih₂ trivial
    exact ⟨body₁ ++ body₂, by simp [Phrase.closing], h₁.append h₂⟩
  | noAccess => exact ⟨[], rfl, .nil⟩
  | dot _ _ ih₁ ih₂ =>
    obtain ⟨body₁, rfl, h₁⟩ := ih₁ trivial
    obtain ⟨body₂, rfl, h₂⟩ := ih₂ trivial
    exact ⟨.punct .dot :: (body₁ ++ body₂), by simp [Phrase.closing], .cons rfl (h₁.append h₂)⟩
  | optionalIndex _ _ ih₁ ih₂ =>
    obtain ⟨body₁, rfl, h₁⟩ := ih₁ trivial
    obtain ⟨body₂, rfl, h₂⟩ := ih₂ trivial
    exact ⟨.punct .optional :: .punct .openBracket :: (body₁ ++ .punct .closeBracket :: body₂),
      by simp [Phrase.closing], .cons rfl (.cons rfl (h₁.append (.cons rfl h₂)))⟩
  | optionalDot _ _ ih₁ ih₂ =>
    obtain ⟨body₁, rfl, h₁⟩ := ih₁ trivial
    obtain ⟨body₂, rfl, h₂⟩ := ih₂ trivial
    exact ⟨.punct .optional :: (body₁ ++ body₂), by simp [Phrase.closing], .cons rfl (h₁.append h₂)⟩
  | index _ _ ih₁ ih₂ =>
    obtain ⟨body₁, rfl, h₁⟩ := ih₁ trivial
    obtain ⟨body₂, rfl, h₂⟩ := ih₂ trivial
    exact ⟨.punct .openBracket :: (body₁ ++ .punct .closeBracket :: body₂), by simp [Phrase.closing],
      .cons rfl (h₁.append (.cons rfl h₂))⟩
  | call _ _ ih₁ ih₂ =>
    obtain ⟨body₁, rfl, h₁⟩ := ih₁ rfl
    obtain ⟨body₂, rfl, h₂⟩ := ih₂ trivial
    exact ⟨.punct .openParen :: (body₁ ++ .punct .closeParen :: body₂), by simp [Phrase.closing],
      .cons rfl (h₁.append (.cons rfl h₂))⟩
  | @method _ _ name _ _ _ _ _ ih =>
    obtain ⟨body, rfl, h⟩ := ih rfl
    exact ⟨.name name :: .punct .openParen :: (body ++ [.punct .closeParen]), by simp [Phrase.closing],
      .cons rfl (.cons rfl (h.append (.cons rfl .nil)))⟩
  | @member _ _ name _ _ => exact ⟨[.name name], rfl, .cons rfl .nil⟩
  | noElement => exact ⟨[], rfl, .nil⟩
  | lastElement _ _ _ ih => exact ih trivial
  | element _ _ _ ih₁ ih₂ =>
    obtain ⟨body₁, rfl, h₁⟩ := ih₁ trivial
    obtain ⟨body₂, rfl, h₂⟩ := ih₂ hp
    exact ⟨body₁ ++ .punct .comma :: body₂, by simp [Phrase.closing], h₁.append (.cons rfl h₂)⟩
  | noEntry => exact ⟨[], rfl, .nil⟩
  | lastEntry hkey _ ih =>
    obtain ⟨t, rfl, ht⟩ := entryKey_eq_ok hkey
    obtain ⟨body, rfl, h⟩ := ih trivial
    exact ⟨t :: .punct .colon :: body, rfl, .cons ht (.cons rfl h)⟩
  | entry hkey _ _ ih₁ ih₂ =>
    obtain ⟨t, rfl, ht⟩ := entryKey_eq_ok hkey
    obtain ⟨body₁, rfl, h₁⟩ := ih₁ trivial
    obtain ⟨body₂, rfl, h₂⟩ := ih₂ trivial
    exact ⟨t :: .punct .colon :: (body₁ ++ .punct .comma :: body₂), by simp [Phrase.closing],
      .cons ht (.cons rfl (h₁.append (.cons rfl h₂)))⟩
  | @number x => exact ⟨[.number x], rfl, .cons rfl .nil⟩
  | @text s => exact ⟨[.text s], rfl, .cons rfl .nil⟩
  | @name name => exact ⟨[.name name], rfl, .cons rfl .nil⟩
  | @arrow name _ _ _ _ _ _ ih =>
    obtain ⟨body, rfl, h⟩ := ih trivial
    exact ⟨.name name :: .punct .arrow :: body, rfl, .cons rfl (.cons rfl h)⟩
  | lambda harrow _ ih =>
    obtain ⟨used, rfl, hused⟩ := arrowParams?_eq_some harrow
    obtain ⟨body, rfl, h⟩ := ih trivial
    exact ⟨.punct .openParen :: (used ++ body), by simp [Phrase.closing],
      .cons rfl ((Balanced.of_forall hused).append h)⟩
  | group _ _ ih =>
    obtain ⟨body, rfl, h⟩ := ih trivial
    exact ⟨.punct .openParen :: (body ++ [.punct .closeParen]), by simp [Phrase.closing],
      .cons rfl (h.append (.cons rfl .nil))⟩
  | array _ ih =>
    obtain ⟨body, rfl, h⟩ := ih rfl
    exact ⟨.punct .openBracket :: (body ++ [.punct .closeBracket]), by simp [Phrase.closing],
      .cons rfl (h.append (.cons rfl .nil))⟩
  | object _ ih =>
    obtain ⟨body, rfl, h⟩ := ih trivial
    exact ⟨.punct .openBrace :: (body ++ [.punct .closeBrace]), by simp [Phrase.closing], h.braces⟩

/-! What can stand behind an expression. -/

def isEnd : Option Token → Bool
  | none => true
  | some (.punct .closeParen) => true
  | some (.punct .closeBracket) => true
  | some (.punct .closeBrace) => true
  | some (.punct .comma) => true
  | some (.punct .colon) => true
  | _ => false

section
variable {e : Expr} {n : Nat} {ts rest : List Token}

theorem opensAccess_of_isEnd {t : Option Token} (h : isEnd t = true) : opensAccess t = false := by
  unfold isEnd at h
  split at h <;> first | rfl | cases h

theorem nextOperator?_of_isEnd {minimum : Nat} (h : isEnd ts.head? = true) : nextOperator? minimum ts = none := by
  cases ts with
  | nil => rfl
  | cons t ts =>
    cases t with
    | punct p => cases p <;> first | rfl | cases h
    | _ => cases h

theorem not_question_of_isEnd {t : Option Token} (h : isEnd t = true) : t ≠ some (.punct .question) := by
  rintro rfl
  cases h

theorem not_arrow_of_isEnd {t : Option Token} (h : isEnd t = true) : t ≠ some (.punct .arrow) := by
  rintro rfl
  cases h

theorem reads_of_operand (h : Reads (.operand e) n ts rest) (hrest : isEnd rest.head? = true) :
    ∃ m ≤ n + 1, Reads (.expression e) m ts rest :=
  ⟨_, by omega, .plain (.operation h (.noOperator (nextOperator?_of_isEnd hrest))) (not_question_of_isEnd hrest)⟩

theorem reads_of_primary (h : Reads (.primary e) n ts rest) (hts : unaryOp? ts = none)
    (hrest : isEnd rest.head? = true) : ∃ m ≤ n + 1, Reads (.expression e) m ts rest := by
  obtain ⟨m, hm, hreads⟩ := reads_of_operand (.accessed hts h (.noAccess (opensAccess_of_isEnd hrest))) hrest
  exact ⟨m, by omega, hreads⟩

end

/-! Heights of expressions. -/

mutual
/-- How many steps lead down to the deepest part of an expression. -/
@[simp]
def height : Expr → Nat
  | literal _ => 0
  | ident _ => 0
  | array elements => heightBelow elements
  | object entries => heightOfEntries entries
  | member before _ _ => height before + 1
  | index before key _ => max (height before) (height key) + 1
  | call callee args => max (height callee + 1) (heightBelow args)
  | method receiver _ args _ => max (height receiver + 1) (heightBelow args)
  | unary _ operand => height operand + 1
  | binary _ left right => max (height left) (height right) + 1
  | logical _ left right => max (height left) (height right) + 1
  | conditional test consequent alternate =>
    max (height test) (max (height consequent) (height alternate)) + 1
  | lambda _ body => height body + 1

def heightBelow : List Expr → Nat
  | [] => 0
  | e :: es => max (height e + 1) (heightBelow es)

def heightOfEntries : List (String × Expr) → Nat
  | [] => 0
  | (_, e) :: entries => max (height e + 1) (heightOfEntries entries)
end

end FlowEngine.Expr
