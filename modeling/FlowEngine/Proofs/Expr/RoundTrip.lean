import FlowEngine.Expr.Parser
import FlowEngine.Proofs.Decimal.Normal
import FlowEngine.Proofs.Expr.Grammar
import FlowEngine.Proofs.Expr.Parsing
import FlowEngine.Proofs.Expr.Scanning

/-! A printer that puts every part of an expression in parentheses. -/
namespace FlowEngine

def UnaryOp.punct : UnaryOp → Punct
  | not => .bang
  | negate => .minus
  | plus => .plus

def BinaryOp.punct : BinaryOp → Punct
  | add => .plus
  | sub => .minus
  | mul => .star
  | div => .slash
  | mod => .percent
  | lt => .lt
  | le => .le
  | gt => .gt
  | ge => .ge
  | looseEq => .looseEq
  | looseNe => .looseNe
  | strictEq => .strictEq
  | strictNe => .strictNe

def LogicalOp.punct : LogicalOp → Punct
  | and => .and
  | or => .or
  | coalesce => .coalesce

namespace Expr

/-! The printer. -/

def grouped (ls : List Lexeme) : List Lexeme := .punct .openParen :: (ls ++ [.punct .closeParen])

def literalLexemes : Json → List Lexeme
  | .null => [.name "null"]
  | .bool true => [.name "true"]
  | .bool false => [.name "false"]
  | .num (.int n) => [.whole n.toNat]
  | .str s => [.quoted s]
  | _ => []

def propertyMark (isOptional : Bool) : Punct := if isOptional then .optional else .dot

def indexMarks (isOptional : Bool) : List Lexeme :=
  if isOptional then [.punct .optional, .punct .openBracket] else [.punct .openBracket]

def parameterLexemes (params : List String) : List Lexeme :=
  [.punct .comma].intercalate (params.map fun name => [.name name])

mutual
@[simp]
def lexemes : Expr → List Lexeme
  | literal value => literalLexemes value
  | ident name => [.name name]
  | array elements => .punct .openBracket :: (elementLexemes elements ++ [.punct .closeBracket])
  | object entries => .punct .openBrace :: (entryLexemes entries ++ [.punct .closeBrace])
  | member before name isOptional =>
    grouped (lexemes before) ++ [.punct (propertyMark isOptional), .name name]
  | index before key isOptional =>
    grouped (lexemes before) ++ (indexMarks isOptional ++ (grouped (lexemes key) ++ [.punct .closeBracket]))
  | call callee args =>
    grouped (lexemes callee) ++ .punct .openParen :: (elementLexemes args ++ [.punct .closeParen])
  | method receiver name args isOptional =>
    grouped (lexemes receiver) ++ .punct (propertyMark isOptional) :: .name name :: .punct .openParen ::
      (elementLexemes args ++ [.punct .closeParen])
  | unary op operand => .punct op.punct :: grouped (lexemes operand)
  | binary op left right => grouped (lexemes left) ++ .punct op.punct :: grouped (lexemes right)
  | logical op left right => grouped (lexemes left) ++ .punct op.punct :: grouped (lexemes right)
  | conditional test consequent alternate =>
    grouped (lexemes test) ++ .punct .question :: (grouped (lexemes consequent) ++ .punct .colon ::
      grouped (lexemes alternate))
  | lambda params body =>
    grouped (parameterLexemes params) ++ .punct .arrow :: grouped (lexemes body)

def elementLexemes : List Expr → List Lexeme
  | [] => []
  | e :: es => grouped (lexemes e) ++ if es.isEmpty then [] else .punct .comma :: elementLexemes es

def entryLexemes : List (String × Expr) → List Lexeme
  | [] => []
  | (key, e) :: entries => .quoted key :: .punct .colon :: (grouped (lexemes e) ++
      if entries.isEmpty then [] else .punct .comma :: entryLexemes entries)
end

/-- The text of an expression, with blanks between the tokens and texts in quotes of a kind. -/
def print (quote : Char) (e : Expr) : String := " ".intercalate ((lexemes e).map (Lexeme.text quote))

example : print '\'' (.lambda ["a", "b"] (.binary .add (.ident "a") (.literal (.str "it's")))) =
    "( a , b ) => ( ( a ) + ( 'it\\'s' ) )" := by
  rfl

/-! Expressions that can be printed. -/

/-- Literals that have a text: null, booleans, texts, and whole numbers below `2 ^ 53`. -/
def PrintableLiteral : Json → Prop
  | .null => True
  | .bool _ => True
  | .num (.int n) => 0 ≤ n ∧ n < 2 ^ 53
  | .str _ => True
  | _ => False

mutual
/-- Literals have a text, names are names of the language, and those of variables do not stand for literals. -/
def Printable : Expr → Prop
  | literal value => PrintableLiteral value
  | ident name => isName name = true ∧ isLiteralName name = false
  | array elements => PrintableAll elements
  | object entries => PrintableEntries entries
  | member before name _ => Printable before ∧ isName name = true
  | index before key _ => Printable before ∧ Printable key
  | call callee args => Printable callee ∧ PrintableAll args
  | method receiver name args _ => Printable receiver ∧ isName name = true ∧ PrintableAll args
  | unary _ operand => Printable operand
  | binary _ left right => Printable left ∧ Printable right
  | logical _ left right => Printable left ∧ Printable right
  | conditional test consequent alternate => Printable test ∧ Printable consequent ∧ Printable alternate
  | lambda params body => (∀ name ∈ params, isName name = true) ∧ Printable body

def PrintableAll : List Expr → Prop
  | [] => True
  | e :: es => Printable e ∧ PrintableAll es

def PrintableEntries : List (String × Expr) → Prop
  | [] => True
  | (_, e) :: entries => Printable e ∧ PrintableEntries entries
end

/-! What is printed consists of lexemes of the language. -/

def AllLexical (ls : List Lexeme) : Prop := ∀ l ∈ ls, l.Lexical

section
variable {l : Lexeme} {ls ls' : List Lexeme}

private theorem allLexical_nil : AllLexical [] := by simp [AllLexical]

private theorem AllLexical.cons (hl : l.Lexical) (hls : AllLexical ls) : AllLexical (l :: ls) :=
  List.forall_mem_cons.mpr ⟨hl, hls⟩

private theorem AllLexical.append (hls : AllLexical ls) (hls' : AllLexical ls') : AllLexical (ls ++ ls') :=
  List.forall_mem_append.mpr ⟨hls, hls'⟩

private theorem AllLexical.closed {p : Punct} (hls : AllLexical ls) : AllLexical (ls ++ [.punct p]) :=
  hls.append (.cons trivial allLexical_nil)

private theorem AllLexical.grouped (hls : AllLexical ls) : AllLexical (grouped ls) := .cons trivial hls.closed

end

private theorem allLexical_literal {value : Json} (h : PrintableLiteral value) : AllLexical (literalLexemes value) := by
  match value with
  | .null | .bool true | .bool false => exact .cons rfl allLexical_nil
  | .num (.int n) | .str s => exact .cons trivial allLexical_nil

private theorem allLexical_parameters {params : List String} (h : ∀ name ∈ params, isName name = true) :
    AllLexical (parameterLexemes params) := by
  induction params with
  | nil => exact allLexical_nil
  | cons name params ih =>
    obtain ⟨hname, hparams⟩ := List.forall_mem_cons.mp h
    cases params with
    | nil => exact .cons hname allLexical_nil
    | cons next params => exact .cons hname (.cons trivial (ih hparams))

private theorem allLexical_indexMarks {isOptional : Bool} : AllLexical (indexMarks isOptional) := by
  cases isOptional
  · exact .cons trivial allLexical_nil
  · exact .cons trivial (.cons trivial allLexical_nil)

mutual
private theorem allLexical_lexemes {e : Expr} (h : Printable e) : AllLexical (lexemes e) := by
  cases e with
  | literal value => exact allLexical_literal h
  | ident name => exact .cons h.1 allLexical_nil
  | array elements => exact .cons trivial (allLexical_elements h).closed
  | object entries => exact .cons trivial (allLexical_entries h).closed
  | member before name isOptional =>
    exact (allLexical_lexemes h.1).grouped.append (.cons trivial (.cons h.2 allLexical_nil))
  | index before key isOptional =>
    exact (allLexical_lexemes h.1).grouped.append
      (allLexical_indexMarks.append (allLexical_lexemes h.2).grouped.closed)
  | call callee args =>
    exact (allLexical_lexemes h.1).grouped.append (.cons trivial (allLexical_elements h.2).closed)
  | method receiver name args isOptional =>
    exact (allLexical_lexemes h.1).grouped.append
      (.cons trivial (.cons h.2.1 (.cons trivial (allLexical_elements h.2.2).closed)))
  | unary op operand => exact .cons trivial (allLexical_lexemes (e := operand) h).grouped
  | binary op left right | logical op left right =>
    exact (allLexical_lexemes h.1).grouped.append (.cons trivial (allLexical_lexemes h.2).grouped)
  | conditional test consequent alternate =>
    exact (allLexical_lexemes h.1).grouped.append (.cons trivial
      ((allLexical_lexemes h.2.1).grouped.append (.cons trivial (allLexical_lexemes h.2.2).grouped)))
  | lambda params body =>
    exact (allLexical_parameters h.1).grouped.append (.cons trivial (allLexical_lexemes h.2).grouped)

theorem allLexical_elements {es : List Expr} (h : PrintableAll es) : AllLexical (elementLexemes es) := by
  cases es with
  | nil => exact allLexical_nil
  | cons e es =>
    refine (allLexical_lexemes h.1).grouped.append ?_
    split
    · exact allLexical_nil
    · exact .cons trivial (allLexical_elements h.2)

theorem allLexical_entries {entries : List (String × Expr)} (h : PrintableEntries entries) :
    AllLexical (entryLexemes entries) := by
  cases entries with
  | nil => exact allLexical_nil
  | cons entry entries =>
    refine .cons trivial (.cons trivial ((allLexical_lexemes h.1).grouped.append ?_))
    split
    · exact allLexical_nil
    · exact .cons trivial (allLexical_entries h.2)
end

/-- The printed text is scanned to the tokens that were printed. -/
private theorem scan_print {e : Expr} {quote : Char} (h : Printable e) (hquote : Token.isQuote quote = true) :
    Token.scan (print quote e) = .ok ((lexemes e).map Lexeme.token) :=
  Lexeme.scan_intercalate (allLexical_lexemes h) hquote

end Expr
end FlowEngine

/-! The parser gives back an expression that was printed with all its parentheses. -/
namespace FlowEngine.Expr

def tokens (e : Expr) : List Token := (lexemes e).map Lexeme.token

def elementTokens (es : List Expr) : List Token := (elementLexemes es).map Lexeme.token

def entryTokens (entries : List (String × Expr)) : List Token := (entryLexemes entries).map Lexeme.token

def group (ts rest : List Token) : List Token := .punct .openParen :: (ts ++ .punct .closeParen :: rest)

@[simp]
private theorem map_grouped {ls : List Lexeme} :
    (grouped ls).map Lexeme.token = group (ls.map Lexeme.token) [] := by
  simp [grouped, group, Lexeme.token]

@[simp]
private theorem group_append {ts rest rest' : List Token} : group ts rest ++ rest' = group ts (rest ++ rest') := by
  simp [group]

/-! Parentheses are not taken for lists of parameters. -/

section
variable {rest : List Token}

private theorem arrowParams?_closeParen (hrest : rest.head? ≠ some (.punct .arrow)) :
    arrowParams? (.punct .closeParen :: rest) = none := by
  unfold arrowParams?
  dsimp only
  split
  · rename_i heq
    cases heq
    exact absurd rfl hrest
  · rfl

private theorem arrowParams?_name {name : String} (hrest : rest.head? ≠ some (.punct .arrow)) :
    arrowParams? (.name name :: .punct .closeParen :: rest) = none := by
  unfold arrowParams?
  dsimp only [parameterNames?]
  split
  · rename_i heq
    cases heq
    exact absurd rfl hrest
  · rfl

/-- An expression in parentheses is not taken for a list of parameters. -/
private theorem arrowParams?_tokens {e : Expr} (hrest : rest.head? ≠ some (.punct .arrow)) :
    arrowParams? (tokens e ++ .punct .closeParen :: rest) = none := by
  cases e with
  | literal value =>
    match value with
    | .null | .bool true | .bool false => exact arrowParams?_name hrest
    | .num (.int n) | .str s => rfl
    | .num (.float x) | .arr items | .obj fields => exact arrowParams?_closeParen hrest
  | ident name => exact arrowParams?_name hrest
  | unary op operand => cases op <;> rfl
  | _ => rfl

end

/-! Parts of an expression. -/

/-- The tokens of an expression are read back, with a number of levels that its height bounds. -/
def ReadsBack (e : Expr) : Prop :=
  ∀ rest : List Token, isEnd rest.head? = true →
    ∃ n ≤ 2 * height e + 1, Reads (.expression e) n (tokens e ++ rest) rest

section
variable {e left right : Expr} {ts rest : List Token}

private theorem ReadsBack.primary (he : ReadsBack e) (hrest : rest.head? ≠ some (.punct .arrow)) :
    ∃ n ≤ 2 * height e + 1, Reads (.primary e) n (group (tokens e) rest) rest := by
  obtain ⟨n, hn, hreads⟩ := he (.punct .closeParen :: rest) rfl
  exact ⟨n, hn, .group (arrowParams?_tokens hrest) hreads⟩

private theorem ReadsBack.operand (he : ReadsBack e) (hrest : rest.head? ≠ some (.punct .arrow))
    (haccess : opensAccess rest.head? = false) :
    ∃ n ≤ 2 * height e + 1, Reads (.operand e) n (group (tokens e) rest) rest := by
  obtain ⟨n, hn, hreads⟩ := he.primary hrest
  exact ⟨_, by omega, .accessed rfl hreads (.noAccess haccess)⟩

private theorem ReadsBack.operation (minimum : Nat) (he : ReadsBack e) (hrest : rest.head? ≠ some (.punct .arrow))
    (haccess : opensAccess rest.head? = false) (hoperator : nextOperator? minimum rest = none) :
    ∃ n ≤ 2 * height e + 1, Reads (.operation minimum e) n (group (tokens e) rest) rest := by
  obtain ⟨n, hn, hreads⟩ := he.operand hrest haccess
  exact ⟨_, by omega, .operation hreads (.noOperator hoperator)⟩

private theorem ReadsBack.expression (he : ReadsBack e) (hrest : isEnd rest.head? = true) :
    ∃ n ≤ 2 * height e + 2, Reads (.expression e) n (group (tokens e) rest) rest := by
  obtain ⟨n, hn, hreads⟩ := he.operation 0 (not_arrow_of_isEnd hrest)
    (opensAccess_of_isEnd hrest) (nextOperator?_of_isEnd hrest)
  exact ⟨_, by omega, .plain hreads (not_question_of_isEnd hrest)⟩

private theorem reads_of_access {before : Expr} {n : Nat} (hbefore : ReadsBack before)
    (h : Reads (.accessChain before e) n ts rest) (hts : ts.head? ≠ some (.punct .arrow))
    (hrest : isEnd rest.head? = true) :
    ∃ m ≤ max (2 * height before + 1) n + 1, Reads (.expression e) m (group (tokens before) ts) rest := by
  obtain ⟨k, hk, hprimary⟩ := hbefore.primary hts
  obtain ⟨m, hm, hreads⟩ := reads_of_operand (.accessed rfl hprimary h) hrest
  exact ⟨m, by omega, hreads⟩

private theorem reads_of_operator {p : Punct} {precedence : Nat} {op : Operator}
    (hop : operator? p = some (precedence, op)) (hleft : ReadsBack left) (hright : ReadsBack right)
    (hrest : isEnd rest.head? = true) :
    ∃ m ≤ 2 * (max (height left) (height right) + 1) + 1,
      Reads (.expression (op.join left right)) m (group (tokens left) (.punct p :: group (tokens right) rest))
        rest := by
  have hnext : nextOperator? 0 (.punct p :: group (tokens right) rest) =
      some (precedence, op, group (tokens right) rest) := by
    rw [nextOperator?, hop]
    simp
  have harrow : (Token.punct p :: group (tokens right) rest).head? ≠ some (.punct .arrow) := by
    rintro ⟨⟩
    cases hop
  have haccess : opensAccess (Token.punct p :: group (tokens right) rest).head? = false := by
    cases p <;> first | rfl | cases hop
  obtain ⟨n₁, hn₁, hreads₁⟩ := hleft.operand harrow haccess
  obtain ⟨n₂, hn₂, hreads₂⟩ := hright.operation (precedence + 1) (not_arrow_of_isEnd hrest)
    (opensAccess_of_isEnd hrest) (nextOperator?_of_isEnd hrest)
  exact ⟨_, by omega, .plain (.operation hreads₁ (.operator hnext hreads₂
    (.noOperator (nextOperator?_of_isEnd hrest)))) (not_question_of_isEnd hrest)⟩

end

/-! Every kind of expression. -/

def ReadsBackAll (es : List Expr) : Prop :=
  ∀ (close : Punct) (rest : List Token), close ≠ .comma → close ≠ .openParen → isEnd (some (.punct close)) = true →
    ∃ n ≤ 2 * heightBelow es, Reads (.elements close es) n (elementTokens es ++ .punct close :: rest) rest

def ReadsBackEntries (entries : List (String × Expr)) : Prop :=
  ∀ rest : List Token, ∃ n ≤ 2 * heightOfEntries entries,
    Reads (.entries entries) n (entryTokens entries ++ .punct .closeBrace :: rest) rest

section
variable {e before key test consequent alternate body : Expr} {es args : List Expr}
  {entries : List (String × Expr)} {name : String} {isOptional : Bool} {params : List String}

private theorem reads_literalName {rest : List Token} (name : String) (h : isLiteralName name = true) :
    Reads (.primary (named name)) 0 (.name name :: rest) rest :=
  .name (.inr h)

private theorem readsBack_literal {value : Json} (h : PrintableLiteral value) : ReadsBack (.literal value) := by
  intro rest hrest
  have hprimary : Reads (.primary (.literal value)) 0 (tokens (.literal value) ++ rest) rest := by
    match value with
    | .null => exact reads_literalName "null" rfl
    | .bool true => exact reads_literalName "true" rfl
    | .bool false => exact reads_literalName "false" rfl
    | .str s => exact .text
    | .num (.int n) =>
      have hnumber : Reads (.primary (.literal (.ofFloat (Decimal.toFloat n.toNat 0)))) 0
          (.number (Decimal.toFloat n.toNat 0) :: rest) rest := .number
      have hn : ((n.toNat : Nat) : Int) = n := Int.toNat_of_nonneg h.1
      rw [Binary64.ofFloat_toFloat (by have := h.2; omega), hn] at hnumber
      exact hnumber
  have hunary : unaryOp? (tokens (.literal value) ++ rest) = none := by
    match value with
    | .null | .bool true | .bool false | .str s | .num (.int n) => rfl
  obtain ⟨m, hm, hreads⟩ := reads_of_primary hprimary hunary hrest
  exact ⟨m, by omega, hreads⟩

private theorem readsBack_ident (h : isLiteralName name = false) : ReadsBack (.ident name) := by
  intro rest hrest
  have hnamed : named name = .ident name := by
    simp only [isLiteralName, Bool.or_eq_false_iff, beq_eq_false_iff_ne] at h
    simp [named, h]
  have hprimary : Reads (.primary (named name)) 0 (tokens (.ident name) ++ rest) rest :=
    .name (.inl (not_arrow_of_isEnd hrest))
  rw [hnamed] at hprimary
  obtain ⟨m, hm, hreads⟩ := reads_of_primary hprimary rfl hrest
  exact ⟨m, by omega, hreads⟩

private theorem readsBack_array (h : ReadsBackAll es) : ReadsBack (.array es) := by
  intro rest hrest
  obtain ⟨n, hn, hreads⟩ := h .closeBracket rest (by decide) (by decide) rfl
  have htokens : tokens (.array es) ++ rest =
      .punct .openBracket :: (elementTokens es ++ .punct .closeBracket :: rest) := by
    simp [tokens, lexemes, elementTokens, Lexeme.token]
  rw [htokens]
  obtain ⟨m, hm, hreads⟩ := reads_of_primary (.array hreads) rfl hrest
  refine ⟨m, ?_, hreads⟩
  rw [height]
  omega

private theorem readsBack_object (h : ReadsBackEntries entries) : ReadsBack (.object entries) := by
  intro rest hrest
  obtain ⟨n, hn, hreads⟩ := h rest
  have htokens : tokens (.object entries) ++ rest =
      .punct .openBrace :: (entryTokens entries ++ .punct .closeBrace :: rest) := by
    simp [tokens, lexemes, entryTokens, Lexeme.token]
  rw [htokens]
  obtain ⟨m, hm, hreads⟩ := reads_of_primary (.object hreads) rfl hrest
  refine ⟨m, ?_, hreads⟩
  rw [height]
  omega

private theorem readsBack_member (h : ReadsBack before) : ReadsBack (.member before name isOptional) := by
  intro rest hrest
  have htokens : tokens (.member before name isOptional) ++ rest =
      group (tokens before) (.punct (propertyMark isOptional) :: .name name :: rest) := by
    simp [tokens, lexemes, Lexeme.token]
  have hcall : rest.head? ≠ some (.punct .openParen) := by
    intro hhead
    rw [hhead] at hrest
    cases hrest
  have hchain : Reads (.accessChain before (.member before name isOptional)) 1
      (.punct (propertyMark isOptional) :: .name name :: rest) rest := by
    cases isOptional
    · exact .dot (.member hcall) (.noAccess (opensAccess_of_isEnd hrest))
    · exact .optionalDot (.member hcall) (.noAccess (opensAccess_of_isEnd hrest))
  obtain ⟨m, hm, hreads⟩ := reads_of_access h hchain (by cases isOptional <;> simp [propertyMark]) hrest
  rw [htokens]
  refine ⟨m, ?_, hreads⟩
  rw [height]
  omega

private theorem readsBack_index (h : ReadsBack before) (hkey : ReadsBack key) :
    ReadsBack (.index before key isOptional) := by
  intro rest hrest
  have htokens : tokens (.index before key isOptional) ++ rest = group (tokens before)
      ((indexMarks isOptional).map Lexeme.token ++ group (tokens key) (.punct .closeBracket :: rest)) := by
    simp [tokens, lexemes, Lexeme.token]
  obtain ⟨n, hn, hreads⟩ := hkey.expression
    (show isEnd (Token.punct .closeBracket :: rest).head? = true from rfl)
  have hchain : ∃ k ≤ max n 1, Reads (.accessChain before (.index before key isOptional)) k
      ((indexMarks isOptional).map Lexeme.token ++ group (tokens key) (.punct .closeBracket :: rest)) rest := by
    cases isOptional
    · exact ⟨_, by omega, .index hreads (.noAccess (opensAccess_of_isEnd hrest))⟩
    · exact ⟨_, by omega, .optionalIndex hreads (.noAccess (opensAccess_of_isEnd hrest))⟩
  obtain ⟨k, hk, hchain⟩ := hchain
  obtain ⟨m, hm, hreads⟩ := reads_of_access h hchain
    (by cases isOptional <;> simp [indexMarks, Lexeme.token]) hrest
  rw [htokens]
  refine ⟨m, ?_, hreads⟩
  rw [height]
  omega

private theorem readsBack_call (h : ReadsBack before) (hargs : ReadsBackAll args) : ReadsBack (.call before args) := by
  intro rest hrest
  have htokens : tokens (.call before args) ++ rest = group (tokens before)
      (.punct .openParen :: (elementTokens args ++ .punct .closeParen :: rest)) := by
    simp [tokens, lexemes, elementTokens, Lexeme.token]
  obtain ⟨n, hn, hreads⟩ := hargs .closeParen rest (by decide) (by decide) rfl
  obtain ⟨m, hm, hreads⟩ := reads_of_access h (.call hreads (.noAccess (opensAccess_of_isEnd hrest)))
    (by simp) hrest
  rw [htokens]
  refine ⟨m, ?_, hreads⟩
  rw [height]
  omega

private theorem readsBack_method (h : ReadsBack before) (hargs : ReadsBackAll args) :
    ReadsBack (.method before name args isOptional) := by
  intro rest hrest
  have htokens : tokens (.method before name args isOptional) ++ rest = group (tokens before)
      (.punct (propertyMark isOptional) :: .name name :: .punct .openParen ::
        (elementTokens args ++ .punct .closeParen :: rest)) := by
    simp [tokens, lexemes, elementTokens, Lexeme.token]
  obtain ⟨n, hn, hreads⟩ := hargs .closeParen rest (by decide) (by decide) rfl
  have hchain : ∃ k ≤ max n 1, Reads (.accessChain before (.method before name args isOptional)) k
      (.punct (propertyMark isOptional) :: .name name :: .punct .openParen ::
        (elementTokens args ++ .punct .closeParen :: rest)) rest := by
    cases isOptional
    · exact ⟨_, by omega, .dot (.method hreads) (.noAccess (opensAccess_of_isEnd hrest))⟩
    · exact ⟨_, by omega, .optionalDot (.method hreads) (.noAccess (opensAccess_of_isEnd hrest))⟩
  obtain ⟨k, hk, hchain⟩ := hchain
  obtain ⟨m, hm, hreads⟩ := reads_of_access h hchain (by cases isOptional <;> simp [propertyMark]) hrest
  rw [htokens]
  refine ⟨m, ?_, hreads⟩
  rw [height]
  omega

private theorem readsBack_unary {op : UnaryOp} (h : ReadsBack e) : ReadsBack (.unary op e) := by
  intro rest hrest
  have htokens : tokens (.unary op e) ++ rest = .punct op.punct :: group (tokens e) rest := by
    simp [tokens, lexemes, Lexeme.token]
  have hop : unaryOp? (.punct op.punct :: group (tokens e) rest) = some (op, group (tokens e) rest) := by
    cases op <;> rfl
  obtain ⟨n, hn, hreads⟩ := h.operand (not_arrow_of_isEnd hrest) (opensAccess_of_isEnd hrest)
  obtain ⟨m, hm, hreads⟩ := reads_of_operand (.unary hop hreads) hrest
  rw [htokens]
  refine ⟨m, ?_, hreads⟩
  rw [height]
  omega

private theorem readsBack_binary {op : BinaryOp} (hleft : ReadsBack before) (hright : ReadsBack e) :
    ReadsBack (.binary op before e) := by
  intro rest hrest
  have htokens : tokens (.binary op before e) ++ rest =
      group (tokens before) (.punct op.punct :: group (tokens e) rest) := by
    simp [tokens, lexemes, Lexeme.token]
  have hop : ∃ precedence, operator? op.punct = some (precedence, .binary op) := by
    cases op <;> exact ⟨_, rfl⟩
  obtain ⟨precedence, hop⟩ := hop
  rw [htokens, height]
  exact reads_of_operator hop hleft hright hrest

private theorem readsBack_logical {op : LogicalOp} (hleft : ReadsBack before) (hright : ReadsBack e) :
    ReadsBack (.logical op before e) := by
  intro rest hrest
  have htokens : tokens (.logical op before e) ++ rest =
      group (tokens before) (.punct op.punct :: group (tokens e) rest) := by
    simp [tokens, lexemes, Lexeme.token]
  have hop : ∃ precedence, operator? op.punct = some (precedence, .logical op) := by
    cases op <;> exact ⟨_, rfl⟩
  obtain ⟨precedence, hop⟩ := hop
  rw [htokens, height]
  exact reads_of_operator hop hleft hright hrest

private theorem readsBack_conditional (htest : ReadsBack test) (hconsequent : ReadsBack consequent)
    (halternate : ReadsBack alternate) : ReadsBack (.conditional test consequent alternate) := by
  intro rest hrest
  have htokens : tokens (.conditional test consequent alternate) ++ rest = group (tokens test)
      (.punct .question :: group (tokens consequent) (.punct .colon :: group (tokens alternate) rest)) := by
    simp [tokens, lexemes, Lexeme.token]
  obtain ⟨n₁, hn₁, hreads₁⟩ := htest.operation 0 (show (Token.punct .question :: group (tokens consequent)
    (.punct .colon :: group (tokens alternate) rest)).head? ≠ some (.punct .arrow) by simp) rfl rfl
  obtain ⟨n₂, hn₂, hreads₂⟩ := hconsequent.expression
    (show isEnd (Token.punct .colon :: group (tokens alternate) rest).head? = true from rfl)
  obtain ⟨n₃, hn₃, hreads₃⟩ := halternate.expression hrest
  rw [htokens]
  refine ⟨_, ?_, .conditional hreads₁ hreads₂ hreads₃⟩
  rw [height]
  omega

private theorem parameterNames?_tokens {rest : List Token} (h : params ≠ []) :
    parameterNames? ((parameterLexemes params).map Lexeme.token ++ .punct .closeParen :: rest) =
      some (params, rest) := by
  induction params with
  | nil => exact absurd rfl h
  | cons name params ih =>
    cases params with
    | nil => rfl
    | cons next params =>
      have ih := ih (by simp)
      change (parameterNames? ((parameterLexemes (next :: params)).map Lexeme.token ++
        .punct .closeParen :: rest)).map _ = _
      rw [ih]
      rfl

private theorem arrowParams?_of_names {names : List String} {ts rest : List Token}
    (h : parameterNames? ts = some (names, .punct .arrow :: rest)) : arrowParams? ts = some (names, rest) := by
  unfold arrowParams?
  split
  · cases h
  · rw [h]

private theorem arrowParams?_parameters {rest : List Token} :
    arrowParams? ((parameterLexemes params).map Lexeme.token ++ .punct .closeParen :: .punct .arrow :: rest) =
      some (params, rest) := by
  cases params with
  | nil => rfl
  | cons name params => exact arrowParams?_of_names (parameterNames?_tokens (by simp))

private theorem readsBack_lambda (h : ReadsBack body) : ReadsBack (.lambda params body) := by
  intro rest hrest
  have htokens : tokens (.lambda params body) ++ rest = .punct .openParen ::
      ((parameterLexemes params).map Lexeme.token ++ .punct .closeParen :: .punct .arrow ::
        group (tokens body) rest) := by
    simp [tokens, lexemes, Lexeme.token, group]
  obtain ⟨n, hn, hreads⟩ := h.expression hrest
  obtain ⟨m, hm, hreads⟩ := reads_of_primary (.lambda arrowParams?_parameters hreads) rfl hrest
  rw [htokens]
  refine ⟨m, ?_, hreads⟩
  rw [height]
  omega

private theorem readsBackAll_cons (he : ReadsBack e) (hes : ReadsBackAll es) : ReadsBackAll (e :: es) := by
  intro close rest hcomma hparen hclose
  obtain ⟨n₂, hn₂, hreads₂⟩ := hes close rest hcomma hparen hclose
  have hopen : ∀ ts, (group (tokens e) ts).head? ≠ some (.punct close) := by
    rintro ts ⟨⟩
    exact hparen rfl
  cases es with
  | nil =>
    have htokens : elementTokens [e] ++ .punct close :: rest = group (tokens e) (.punct close :: rest) := by
      simp [tokens, elementTokens, elementLexemes]
    obtain ⟨n₁, hn₁, hreads₁⟩ := he.expression (show isEnd (Token.punct close :: rest).head? = true from hclose)
    rw [htokens]
    refine ⟨n₁, ?_, .lastElement hcomma (hopen _) hreads₁⟩
    rw [heightBelow]
    omega
  | cons e' es =>
    have htokens : elementTokens (e :: e' :: es) ++ .punct close :: rest = group (tokens e)
        (.punct .comma :: (elementTokens (e' :: es) ++ .punct close :: rest)) := by
      simp [tokens, elementTokens, elementLexemes, Lexeme.token]
    obtain ⟨n₁, hn₁, hreads₁⟩ := he.expression
      (show isEnd (Token.punct .comma :: (elementTokens (e' :: es) ++ .punct close :: rest)).head? = true from rfl)
    rw [htokens]
    refine ⟨_, ?_, .element (hopen _) hreads₁ hreads₂⟩
    rw [heightBelow]
    omega

private theorem readsBackEntries_cons (he : ReadsBack e) (hentries : ReadsBackEntries entries) :
    ReadsBackEntries ((name, e) :: entries) := by
  intro rest
  obtain ⟨n₂, hn₂, hreads₂⟩ := hentries rest
  cases entries with
  | nil =>
    have htokens : entryTokens [(name, e)] ++ .punct .closeBrace :: rest =
        .text name :: .punct .colon :: group (tokens e) (.punct .closeBrace :: rest) := by
      simp [tokens, entryTokens, entryLexemes, Lexeme.token]
    obtain ⟨n₁, hn₁, hreads₁⟩ := he.expression
      (show isEnd (Token.punct .closeBrace :: rest).head? = true from rfl)
    rw [htokens]
    refine ⟨n₁, ?_, .lastEntry rfl hreads₁⟩
    rw [heightOfEntries]
    omega
  | cons entry entries =>
    have htokens : entryTokens ((name, e) :: entry :: entries) ++ .punct .closeBrace :: rest =
        .text name :: .punct .colon :: group (tokens e)
          (.punct .comma :: (entryTokens (entry :: entries) ++ .punct .closeBrace :: rest)) := by
      simp [tokens, entryTokens, entryLexemes, Lexeme.token]
    obtain ⟨n₁, hn₁, hreads₁⟩ := he.expression (show isEnd (Token.punct .comma ::
      (entryTokens (entry :: entries) ++ .punct .closeBrace :: rest)).head? = true from rfl)
    rw [htokens]
    refine ⟨_, ?_, .entry rfl hreads₁ hreads₂⟩
    rw [heightOfEntries]
    omega

end

mutual
private theorem readsBack {e : Expr} (h : Printable e) : ReadsBack e := by
  cases e with
  | literal value => exact readsBack_literal h
  | ident name => exact readsBack_ident h.2
  | array elements => exact readsBack_array (readsBackAll h)
  | object entries => exact readsBack_object (readsBackEntries h)
  | member before name isOptional => exact readsBack_member (readsBack h.1)
  | index before key isOptional => exact readsBack_index (readsBack h.1) (readsBack h.2)
  | call callee args => exact readsBack_call (readsBack h.1) (readsBackAll h.2)
  | method receiver name args isOptional => exact readsBack_method (readsBack h.1) (readsBackAll h.2.2)
  | unary op operand => exact readsBack_unary (readsBack (e := operand) h)
  | binary op left right => exact readsBack_binary (readsBack h.1) (readsBack h.2)
  | logical op left right => exact readsBack_logical (readsBack h.1) (readsBack h.2)
  | conditional test consequent alternate =>
    exact readsBack_conditional (readsBack h.1) (readsBack h.2.1) (readsBack h.2.2)
  | lambda params body => exact readsBack_lambda (readsBack h.2)

theorem readsBackAll {es : List Expr} (h : PrintableAll es) : ReadsBackAll es := by
  cases es with
  | nil =>
    intro close rest _ _ _
    exact ⟨0, Nat.zero_le _, .noElement⟩
  | cons e es => exact readsBackAll_cons (readsBack h.1) (readsBackAll h.2)

theorem readsBackEntries {entries : List (String × Expr)} (h : PrintableEntries entries) :
    ReadsBackEntries entries := by
  cases entries with
  | nil =>
    intro rest
    exact ⟨0, Nat.zero_le _, .noEntry⟩
  | cons entry entries => exact readsBackEntries_cons (readsBack h.1) (readsBackEntries h.2)
end

/-- What is printed with all parentheses is parsed back, if it is neither too long nor too deep; and up to a
height of 20 it is never too deep. -/
theorem parse_print {e : Expr} {quote : Char} (h : Printable e) (hquote : Token.isQuote quote = true) :
    (parse (print quote e) = .ok e ∨
      (maxExpressionLength < (print quote e).utf8ByteSize ∧ parse (print quote e) = .error .tooLong) ∨
      parse (print quote e) = .error .tooDeep) ∧
    (height e ≤ 20 → parse (print quote e) ≠ .error .tooDeep) := by
  obtain ⟨n, hn, hreads⟩ := readsBack h [] rfl
  rw [List.append_nil] at hreads
  by_cases hlength : (print quote e).utf8ByteSize ≤ maxExpressionLength
  · have hparse : parse (print quote e) = atDepth n e := by
      rw [parse_of_length_le hlength, scan_print h hquote]
      exact ofTokens_of_reads hreads
    rw [hparse, atDepth]
    split
    · exact ⟨.inl rfl, by simp⟩
    · rename_i hdeep
      rw [maxNestingDepth] at hdeep
      exact ⟨.inr (.inr rfl), by omega⟩
  · have hparse := parse_of_tooLong (Nat.not_le.mp hlength)
    exact ⟨.inr (.inl ⟨Nat.not_le.mp hlength, hparse⟩), by simp [hparse]⟩

/-- A call with an arrow function, as `$json?.map(x => x + 1)` has it. -/
def arrowCall : Expr :=
  .method (.ident "$json") "map" [.lambda ["x"] (.binary .add (.ident "x") (.literal (.ofNat 1)))] true

theorem parse_print_arrowCall : Printable arrowCall ∧ height arrowCall ≤ 20 ∧
    (parse (print '\'' arrowCall) = .ok arrowCall ∨
      (maxExpressionLength < (print '\'' arrowCall).utf8ByteSize ∧
        parse (print '\'' arrowCall) = .error .tooLong) ∨
      parse (print '\'' arrowCall) = .error .tooDeep) ∧
    parse (print '\'' arrowCall) ≠ .error .tooDeep := by
  have hnames : ∀ name ∈ ["x"], isName name = true := by simp [isName, Token.isNameStart]
  have hprintable : Printable arrowCall :=
    ⟨⟨rfl, rfl⟩, rfl, ⟨hnames, ⟨rfl, rfl⟩, Int.natCast_nonneg 1, by decide⟩, trivial⟩
  have hheight : height arrowCall ≤ 20 := by decide
  obtain ⟨hparse, hdeep⟩ := parse_print hprintable (show Token.isQuote '\'' = true from rfl)
  exact ⟨hprintable, hheight, hparse, hdeep hheight⟩

end FlowEngine.Expr
