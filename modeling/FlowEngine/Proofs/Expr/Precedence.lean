import FlowEngine.Proofs.Expr.RoundTrip

/-! Names joined by operators: what is read keeps their order, and every operator is grouped by its precedence, to the left
among those that bind as strongly. -/
namespace FlowEngine.Expr

/-! Operators in trees. -/

def Operator.punct : Operator → Punct
  | .binary op => op.punct
  | .logical op => op.punct

/-- How strongly an operator binds: from `??` over `||`, `&&`, equality, the order of size and sums up to products. -/
def Operator.precedence : Operator → Nat
  | .logical .coalesce => 1
  | .logical .or => 2
  | .logical .and => 3
  | .binary .looseEq | .binary .looseNe | .binary .strictEq | .binary .strictNe => 4
  | .binary .lt | .binary .le | .binary .gt | .binary .ge => 5
  | .binary .add | .binary .sub => 6
  | .binary .mul | .binary .div | .binary .mod => 7

def rootOperator? : Expr → Option Operator
  | .binary op _ _ => some (.binary op)
  | .logical op _ _ => some (.logical op)
  | _ => none

/-- What stands in a tree of operators from left to right: the operators, and between them what is none. -/
def inOrder : Expr → List (Expr ⊕ Operator)
  | .binary op left right => inOrder left ++ .inr (.binary op) :: inOrder right
  | .logical op left right => inOrder left ++ .inr (.logical op) :: inOrder right
  | e => [.inl e]

/-- At every operator, what is to the left binds at least as strongly, and what is to the right binds more strongly. -/
inductive Grouped : Expr → Prop where
  | leaf {e : Expr} (plain : rootOperator? e = none) : Grouped e
  | node {op : Operator} {left right : Expr}
      (left_binds : ∀ inner, rootOperator? left = some inner → op.precedence ≤ inner.precedence)
      (right_binds : ∀ inner, rootOperator? right = some inner → op.precedence < inner.precedence)
      (left_grouped : Grouped left) (right_grouped : Grouped right) : Grouped (op.join left right)

section
variable {op : Operator} {left right : Expr} {minimum : Nat} {ts : List Token}

@[simp] theorem rootOperator?_join : rootOperator? (op.join left right) = some op := by cases op <;> rfl

@[simp] theorem inOrder_join : inOrder (op.join left right) = inOrder left ++ .inr op :: inOrder right := by
  cases op <;> rfl

private theorem operator?_punct (op : Operator) : operator? op.punct = some (op.precedence, op) := by
  cases op with
  | binary op => cases op <;> rfl
  | logical op => cases op <;> rfl

private theorem nextOperator?_punct : nextOperator? minimum (.punct op.punct :: ts) =
    if op.precedence < minimum then none else some (op.precedence, op, ts) := by
  rw [nextOperator?, operator?_punct]

end

/-! Chains of names. -/

/-- A name that is that of a variable: `true`, `false`, `null` and `undefined` are not. -/
abbrev Variable := {name : String // isName name = true ∧ isLiteralName name = false}

private theorem named_variable (name : Variable) : named name = .ident name := by
  have hliteral := name.2.2
  simp only [isLiteralName, Bool.or_eq_false_iff, beq_eq_false_iff_ne] at hliteral
  simp [named, hliteral]

/-- An operator with the variable behind it. -/
abbrev Link := Operator × Variable

/-- Variables with operators between them. -/
structure Chain where
  first : Variable
  links : List Link

namespace Link

def tokens (links : List Link) : List Token := links.flatMap fun link => [.punct link.1.punct, .name link.2]

def inOrder (links : List Link) : List (Expr ⊕ Operator) := links.flatMap fun link => [.inr link.1, .inl (.ident link.2)]

variable {first : Variable} {links : List Link} {ts : List Token}

/-- Nothing but an operator goes on with a chain. -/
private theorem head?_tokens {p : Punct} (h : (tokens links).head? = some (.punct p)) : ∃ op :
    Operator, p = op.punct := by
  cases links with
  | nil => cases h
  | cons link links =>
    cases h
    exact ⟨link.1, rfl⟩

private theorem opensAccess_tokens : opensAccess (tokens links).head? = false := by
  cases links with
  | nil => rfl
  | cons link links =>
    obtain ⟨op, name⟩ := link
    cases op with
    | binary op => cases op <;> rfl
    | logical op => cases op <;> rfl

private theorem not_head?_tokens {p : Punct} (hp : operator? p = none) : (tokens links).head? ≠ some (.punct p) := by
  intro h
  obtain ⟨op, rfl⟩ := head?_tokens h
  rw [operator?_punct] at hp
  cases hp

private theorem eq_nil_of_tokens (h : tokens links = []) : links = [] := by
  cases links with
  | nil => rfl
  | cons link links => cases h

private theorem nextOperator?_tokens {minimum precedence : Nat} {op : Operator}
    (h : nextOperator? minimum (tokens links) = some (precedence, op, ts)) : ∃ name links', links = (op, name) :: links' ∧
      precedence = op.precedence ∧ minimum ≤ op.precedence ∧ ts = .name name :: tokens links' := by
  cases links with
  | nil => cases h
  | cons link links =>
    rw [tokens, List.flatMap_cons, List.cons_append, nextOperator?_punct] at h
    split at h
    · cases h
    · rename_i hbinds
      cases h
      exact ⟨link.2, links, rfl, rfl, Nat.not_lt.mp hbinds, rfl⟩

/-- A variable in a chain is an operand of its own. -/
private theorem reads_operand {e : Expr} {n : Nat} {rest : List Token}
    (h : Reads (.operand e) n (.name first :: tokens links) rest) : e = .ident first ∧ rest = tokens links := by
  have harrow : (tokens links).head? ≠ some (.punct .arrow) := not_head?_tokens rfl
  have haccess : opensAccess (tokens links).head? = false := opensAccess_tokens
  generalize tokens links = ts at h harrow haccess
  cases h with
  | unary hunary => cases hunary
  | accessed _ hprimary hchain =>
    cases hprimary with
    | arrow => exact absurd rfl harrow
    | name =>
      cases hchain with
      | noAccess => exact ⟨named_variable first, rfl⟩
      | _ => cases haccess

end Link

/-! The invariant of the parser's loop. -/

/-- What stands behind a left operand does not bind more strongly than the operator at its root. -/
def Awaits (minimum : Nat) (left : Expr) (ts : List Token) : Prop :=
  ∀ op, rootOperator? left = some op → minimum ≤ op.precedence ∧ nextOperator? (op.precedence + 1) ts = none

/-- An expression takes links behind the start of a chain, as far as their operators bind strongly enough. -/
structure Takes (minimum : Nat) (start : List (Expr ⊕ Operator)) (e : Expr) (taken left : List Link) : Prop where
  inOrder_eq : inOrder e = start ++ Link.inOrder taken
  grouped : Grouped e
  binds : ∀ op, rootOperator? e = some op → minimum ≤ op.precedence
  ends : nextOperator? minimum (Link.tokens left) = none

def Phrase.TakesLinks : Phrase → List Token → List Token → Prop
  | operation minimum e, ts, rest => ∀ (first : Variable) (links : List Link), ts = .name first :: Link.tokens links →
      ∃ taken left, links = taken ++ left ∧ rest = Link.tokens left ∧ Takes minimum [.inl (.ident first)] e taken left
  | operatorChain minimum before e, ts, rest => ∀ links, ts = Link.tokens links → Grouped before → Awaits minimum before ts →
      ∃ taken left, links = taken ++ left ∧ rest = Link.tokens left ∧ Takes minimum (inOrder before) e taken left
  | _, _, _ => True

private theorem Reads.takesLinks {p : Phrase} {n : Nat} {ts rest : List Token} (h : Reads p n ts rest) :
    p.TakesLinks ts rest := by
  induction h with
  | operation hoperand _ _ ih =>
    rintro first links rfl
    obtain ⟨rfl, rfl⟩ := Link.reads_operand hoperand
    exact ih links rfl (.leaf rfl) nofun
  | noOperator hnone =>
    rintro links rfl hgrouped hawaits
    exact ⟨[], links, rfl, rfl, (List.append_nil _).symm, hgrouped, fun op hop => (hawaits op hop).1, hnone⟩
  | @operator minimum _ op before right _ _ _ _ _ _ _ hop _ _ ih ih' =>
    rintro links rfl hgrouped hawaits
    obtain ⟨name, links', rfl, rfl, hbinds, rfl⟩ := Link.nextOperator?_tokens hop
    obtain ⟨taken, left, rfl, rfl, hright⟩ := ih name links' rfl
    have hbefore : ∀ inner, rootOperator? before = some inner → op.precedence ≤ inner.precedence := by
      intro inner hinner
      have hnone := (hawaits inner hinner).2
      rw [Link.tokens, List.flatMap_cons, List.cons_append, nextOperator?_punct] at hnone
      split at hnone
      · exact Nat.le_of_lt_succ ‹_›
      · cases hnone
    have hjoined : Awaits minimum (op.join before right) (Link.tokens left) := by
      intro inner hinner
      obtain rfl := Option.some_inj.mp (rootOperator?_join.symm.trans hinner)
      exact ⟨hbinds, hright.ends⟩
    obtain ⟨taken', left', rfl, rfl, hall⟩ := ih' left rfl (.node hbefore hright.binds hgrouped hright.grouped) hjoined
    refine ⟨(op, name) :: (taken ++ taken'), left', by simp, rfl, ?_, hall.grouped, hall.binds, hall.ends⟩
    rw [hall.inOrder_eq, inOrder_join, hright.inOrder_eq]
    simp [Link.inOrder]
  | _ => trivial

namespace Chain

def tokens (chain : Chain) : List Token := .name chain.first :: Link.tokens chain.links

def inOrder (chain : Chain) : List (Expr ⊕ Operator) := .inl (.ident chain.first) :: Link.inOrder chain.links

/-- The variables and operators as they are written, with a blank between any two of them. -/
def source (chain : Chain) : String :=
  " ".intercalate (chain.first.1 :: chain.links.flatMap fun link => [link.1.punct.text, link.2.1])

private theorem scan_source (chain : Chain) : Token.scan chain.source = .ok chain.tokens := by
  let lexemes : List Lexeme := .name chain.first :: chain.links.flatMap fun link => [.punct link.1.punct, .name link.2]
  have hlexical : ∀ l ∈ lexemes, l.Lexical := by
    simp only [lexemes, List.forall_mem_cons, List.forall_mem_flatMap, List.not_mem_nil, false_imp_iff, implies_true, and_true]
    exact ⟨chain.first.2.1, fun link _ => ⟨trivial, link.2.2.1⟩⟩
  have hsource : chain.source = " ".intercalate (lexemes.map (Lexeme.text '\'')) := by
    simp [source, lexemes, Lexeme.text, Lexeme.chars, List.map_flatMap]
  rw [hsource, Lexeme.scan_intercalate hlexical rfl]
  simp [tokens, Link.tokens, lexemes, Lexeme.token, List.map_flatMap]

end Chain

/-- What is read of a chain has its variables and operators in their order; operators are grouped by precedence, and to
the left. -/
theorem chains_group_by_precedence {chain : Chain} {e : Expr} (h : parse chain.source = .ok e) :
    inOrder e = chain.inOrder ∧ Grouped e := by
  obtain ⟨-, ts, hscan, n, -, hreads⟩ := parse_eq_ok_iff.mp h
  cases (Chain.scan_source chain).symm.trans hscan
  cases hreads with
  | plain hoperation _ =>
    obtain ⟨taken, left, hlinks, hrest, htakes⟩ := hoperation.takesLinks chain.first chain.links rfl
    obtain rfl := Link.eq_nil_of_tokens hrest.symm
    rw [List.append_nil] at hlinks
    rw [Chain.inOrder, hlinks]
    exact ⟨htakes.inOrder_eq, htakes.grouped⟩
  | conditional htest _ _ =>
    -- no question mark is among the tokens
    obtain ⟨taken, left, -, hrest, -⟩ := htest.takesLinks chain.first chain.links rfl
    exact absurd (congrArg List.head? hrest.symm) (Link.not_head?_tokens rfl)

/-- `a ?? b || c + d * e - f < g`: operators that bind more and more strongly, and then less. -/
def ladder : Chain where
  first := ⟨"a", by decide⟩
  links := [(.logical .coalesce, ⟨"b", by decide⟩), (.logical .or, ⟨"c", by decide⟩), (.binary .add, ⟨"d", by decide⟩),
    (.binary .mul, ⟨"e", by decide⟩), (.binary .sub, ⟨"f", by decide⟩), (.binary .lt, ⟨"g", by decide⟩)]

def ladderTree : Expr :=
  .logical .coalesce (.ident "a") (.logical .or (.ident "b") (.binary .lt
    (.binary .sub (.binary .add (.ident "c") (.binary .mul (.ident "d") (.ident "e"))) (.ident "f")) (.ident "g")))

theorem chains_group_by_precedence_ladder : parse ladder.source = .ok ladderTree ∧
    inOrder ladderTree = ladder.inOrder ∧ Grouped ladderTree := by
  have hparse : parse ladder.source = .ok ladderTree := by
    rw [parse_of_length_le (by decide +kernel), Chain.scan_source]
    with_unfolding_all rfl
  exact ⟨hparse, chains_group_by_precedence hparse⟩

end FlowEngine.Expr
